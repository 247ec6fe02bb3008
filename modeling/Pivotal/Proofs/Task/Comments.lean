import Pivotal.Proofs.Text.Trim
import Pivotal.Task.Comment

/-!
# Removing comments, line by line

Removing comments works on each line by itself: a text that was joined from lines is filtered by
cutting and trimming each of them, and the carriage returns and the missing line feed at its end make
no difference (`keptLines_intercalate`).  `Uncut` texts have no comment of slashes in them wherever
they stand, and are put together from pieces without slashes and pieces without blanks.
-/

namespace Pivotal.Task

open Text

/-! ## A line with something behind it -/

theorem cutSlashes_isPrefix (afterBlank : Bool) (cs : List Char) : cutSlashes afterBlank cs <+: cs := by
  induction cs generalizing afterBlank with
  | nil => exact List.prefix_rfl
  | cons c cs ih =>
    rw [cutSlashes]
    split
    · exact List.nil_prefix
    · exact (List.prefix_cons_inj c).mpr (ih (isBlank c))

/-- A text that is cut is cut in the same place when more follows. -/
theorem cutSlashes_append_of_ne {afterBlank : Bool} {xs : List Char}
    (h : cutSlashes afterBlank xs ≠ xs) (ys : List Char) :
    cutSlashes afterBlank (xs ++ ys) = cutSlashes afterBlank xs := by
  induction xs generalizing afterBlank with
  | nil => exact absurd rfl h
  | cons x xs ih =>
    have hne : xs ≠ [] := by
      rintro rfl
      simp [cutSlashes] at h
    have hhead : (xs ++ ys).head? = xs.head? := by
      cases xs with
      | nil => exact absurd rfl hne
      | cons y xs => rfl
    rw [cutSlashes] at h
    rw [List.cons_append, cutSlashes, cutSlashes, hhead]
    split
    · rfl
    · next hcut =>
      rw [if_neg hcut] at h
      rw [ih fun heq => h (by rw [heq])]

/-- After a text that is not cut, what follows is cut as at the start of a line, unless a slash
comes first: that one could be the second of two. -/
theorem cutSlashes_append_of_eq {afterBlank : Bool} {xs ys : List Char}
    (h : cutSlashes afterBlank xs = xs) (hys : ys.head? ≠ some '/') :
    cutSlashes afterBlank (xs ++ ys) = xs ++ cutSlashes true ys := by
  induction xs generalizing afterBlank with
  | nil =>
    cases ys with
    | nil => rfl
    | cons y ys =>
      have hy : y ≠ '/' := fun heq => hys (by rw [heq]; rfl)
      simp [cutSlashes, hy]
  | cons x xs ih =>
    have hhead : (xs ++ ys).head? = some '/' → xs.head? = some '/' := by
      cases xs with
      | nil => exact fun hslash => absurd hslash hys
      | cons z xs => exact id
    rw [cutSlashes] at h
    rw [List.cons_append, cutSlashes]
    split at h
    · cases h
    · next hcut =>
      rw [if_neg fun hslash => hcut ⟨hslash.1, hslash.2.1, hhead hslash.2.2⟩,
        ih (List.cons.inj h).2, List.cons_append]

theorem cutSlashes_blank_append {l : List Char} (hl : ∀ c ∈ l, isBlank c = true)
    (cs : List Char) : cutSlashes true (l ++ cs) = l ++ cutSlashes true cs := by
  induction l with
  | nil => rfl
  | cons c l ih =>
    have hc := hl c List.mem_cons_self
    have hslash : c ≠ '/' := by
      rintro rfl
      cases hc
    rw [List.cons_append, cutSlashes, if_neg fun h => hslash h.2.1, hc,
      ih fun d hd => hl d (List.mem_cons_of_mem c hd), List.cons_append]

/-- Nothing behind a semicolon matters. -/
theorem cutComment_append_of_mem {line : List Char} (h : ';' ∈ line) (rest : List Char) :
    cutComment (line ++ rest) = cutComment line := by
  have hlength : (line.takeWhile (· ≠ ';')).length ≠ line.length := by
    intro hlength
    have heq := (List.takeWhile_prefix (fun d => decide (d ≠ ';'))).eq_of_length hlength
    rw [← heq] at h
    have hsemicolon : decide (';' ≠ ';') = true :=
      List.all_eq_true.mp (List.all_takeWhile (p := fun d => decide (d ≠ ';'))) ';' h
    exact absurd rfl (of_decide_eq_true hsemicolon)
  unfold cutComment
  rw [List.takeWhile_append, if_neg hlength]

theorem cutComment_append_of_not_mem {line : List Char} (h : ';' ∉ line) (rest : List Char) :
    cutComment (line ++ rest) = cutSlashes true (line ++ rest.takeWhile (· ≠ ';')) := by
  have hall : ∀ c ∈ line, decide (c ≠ ';') = true := fun c hc =>
    decide_eq_true fun heq => h (heq ▸ hc)
  unfold cutComment
  rw [List.takeWhile_append_of_pos hall]

theorem cutComment_of_not_mem {line : List Char} (h : ';' ∉ line) :
    cutComment line = cutSlashes true line := by
  have happend := cutComment_append_of_not_mem h []
  rwa [List.takeWhile_nil, List.append_nil] at happend

theorem takeWhile_semicolon_of_blank {r : List Char} (hr : ∀ c ∈ r, isBlank c = true) :
    r.takeWhile (· ≠ ';') = r := by
  have hall : ∀ c ∈ r, decide (c ≠ ';') = true := by
    intro c hc
    apply decide_eq_true
    rintro rfl
    exact absurd (hr ';' hc) (by decide)
  have h := takeWhile_of_stops hall (stops_nil _)
  rwa [List.append_nil] at h

/-- Blanks at the end of a line are trimmed with it, or cut with its comment. -/
theorem trim_cutComment_append_blank (line : List Char) {r : List Char}
    (hr : ∀ c ∈ r, isBlank c = true) : trim (cutComment (line ++ r)) = trim (cutComment line) := by
  by_cases hline : ';' ∈ line
  · rw [cutComment_append_of_mem hline]
  · rw [cutComment_append_of_not_mem hline, cutComment_of_not_mem hline,
      takeWhile_semicolon_of_blank hr]
    by_cases hcut : cutSlashes true line = line
    · have hhead : r.head? ≠ some '/' := fun h =>
        absurd (hr '/' (List.mem_of_mem_head? h)) (by decide)
      have hblank : ∀ c ∈ cutSlashes true r, isBlank c = true := fun c hc =>
        hr c ((cutSlashes_isPrefix true r).subset hc)
      rw [cutSlashes_append_of_eq hcut hhead, hcut, trim_append_blank line hblank]
    · rw [cutSlashes_append_of_ne hcut]

/-- A carriage return before a line feed makes no difference. -/
theorem trim_cutComment_dropReturn (line : List Char) :
    trim (cutComment (dropReturn line)) = trim (cutComment line) := by
  rcases dropReturn_cases line with h | h
  · rw [h]
  · have hreturn : ∀ c ∈ ['\r'], isBlank c = true := List.all_eq_true.mp rfl
    have hblank := trim_cutComment_append_blank (dropReturn line) hreturn
    rw [← h] at hblank
    exact hblank.symm

/-- The lines that are kept of a text are those of the lines it was joined from. -/
theorem keptLines_intercalate {ls : List (List Char)} (hls : ∀ l ∈ ls, '\n' ∉ l) :
    keptLines (['\n'].intercalate ls) =
      (ls.map fun line => trim (cutComment line)).filter fun line => !isDropped line := by
  rcases List.eq_nil_or_concat ls with rfl | ⟨init, last, rfl⟩
  · rfl
  · rw [List.concat_eq_append] at hls ⊢
    have hinit : ∀ l ∈ init, '\n' ∉ l := fun l hl => hls l (List.mem_append_left _ hl)
    have hlast : '\n' ∉ last := hls last (List.mem_append_right _ List.mem_cons_self)
    unfold keptLines
    rw [lines_intercalate hinit hlast, List.map_append, List.map_append, List.filter_append,
      List.filter_append, List.map_map]
    congr 1
    · exact congrArg _ (List.map_congr_left fun line _ => trim_cutComment_dropReturn line)
    · cases last with
      | nil => rfl
      | cons c cs => rfl

/-! ## Texts without comments -/

/-- No comment of slashes starts in the text, whether or not a blank comes before it. -/
def Uncut (cs : List Char) : Prop := ∀ afterBlank, cutSlashes afterBlank cs = cs

theorem uncut_nil : Uncut [] := fun _ => rfl

theorem Uncut.cons {c : Char} {cs : List Char} (hc : c ≠ '/') (hcs : Uncut cs) :
    Uncut (c :: cs) := by
  intro afterBlank
  rw [cutSlashes, if_neg (fun h => hc h.2.1), hcs]

theorem Uncut.append {xs cs : List Char} (hxs : ∀ c ∈ xs, c ≠ '/') (hcs : Uncut cs) :
    Uncut (xs ++ cs) := by
  induction xs with
  | nil => exact hcs
  | cons x xs ih =>
    exact (ih fun c hc => hxs c (List.mem_cons_of_mem x hc)).cons (hxs x List.mem_cons_self)

/-- Slashes that do not follow a blank start no comment. -/
theorem cutSlashes_append_of_solid {t cs : List Char} (ht : ∀ c ∈ t, isBlank c = false) :
    cutSlashes false (t ++ cs) = t ++ cutSlashes false cs := by
  induction t with
  | nil => rfl
  | cons c t ih =>
    rw [List.cons_append, cutSlashes, if_neg (fun h => Bool.false_ne_true h.1),
      ht c List.mem_cons_self, ih fun d hd => ht d (List.mem_cons_of_mem c hd)]
    rfl

/-- A piece without blanks that does not start with two slashes itself. -/
theorem Uncut.append_solid {t cs : List Char} (ht : ∀ c ∈ t, isBlank c = false)
    (hstart : ¬['/', '/'] <+: t) (hcs : Uncut cs) (hhead : cs.head? ≠ some '/') :
    Uncut (t ++ cs) := by
  intro afterBlank
  cases t with
  | nil => exact hcs afterBlank
  | cons c t =>
    -- Only at its first character can the piece follow a blank.
    have hsecond : c = '/' → (t ++ cs).head? ≠ some '/' := by
      rintro rfl hslash
      cases t with
      | nil => exact hhead hslash
      | cons d t =>
        cases hslash
        exact hstart ⟨t, rfl⟩
    rw [List.cons_append, cutSlashes, if_neg (fun h => hsecond h.2.1 h.2.2),
      ht c List.mem_cons_self,
      cutSlashes_append_of_solid fun d hd => ht d (List.mem_cons_of_mem c hd), hcs]

/-- A line without a semicolon and without a comment of slashes is left as it is. -/
theorem cutComment_eq_self {line : List Char} (hline : ';' ∉ line) (huncut : Uncut line) :
    cutComment line = line := by
  rw [cutComment_of_not_mem hline, huncut]

end Pivotal.Task
