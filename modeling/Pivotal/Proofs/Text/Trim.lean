import Pivotal.Text.Blank

/-!
# Taking characters off the ends of a text

A scan takes the longest stretch of characters of one kind, so it finds a given stretch again when
the text behind it stops the scan: `takeWhile_of_stops`, `dropWhile_of_stops`.  Trimming is two such
scans and finds a text that starts and ends without a blank, whatever blanks were put around it:
`trim_pad`.  Lines that were joined come apart again: `lines_intercalate`.
-/

namespace Pivotal.Text

/-! ## Scans -/

/-- The text is empty or starts with a character that is not of the kind `p`. -/
def Stops (p : Char → Bool) (cs : List Char) : Prop := ∀ c ∈ cs.head?, p c = false

theorem stops_nil (p : Char → Bool) : Stops p [] := by
  intro c hc
  cases hc

theorem stops_cons {p : Char → Bool} {c : Char} (hc : p c = false) (cs : List Char) :
    Stops p (c :: cs) := by
  intro d hd
  cases hd
  exact hc

theorem Stops.append {p : Char → Bool} {cs : List Char} (hcs : Stops p cs) (hne : cs ≠ [])
    (rest : List Char) : Stops p (cs ++ rest) := by
  cases cs with
  | nil => exact absurd rfl hne
  | cons c cs => exact stops_cons (hcs c rfl) _

theorem Stops.mono {p q : Char → Bool} {cs : List Char} (hcs : Stops p cs)
    (h : ∀ c, q c = true → p c = true) : Stops q cs := by
  intro c hc
  have hp := hcs c hc
  cases hq : q c with
  | false => rfl
  | true => rw [h c hq] at hp; cases hp

theorem dropWhile_of_stops {p : Char → Bool} {l cs : List Char} (hl : ∀ c ∈ l, p c = true)
    (hcs : Stops p cs) : (l ++ cs).dropWhile p = cs := by
  rw [List.dropWhile_append_of_pos hl]
  cases cs with
  | nil => rfl
  | cons c cs => rw [List.dropWhile_cons, hcs c rfl]; rfl

theorem takeWhile_of_stops {p : Char → Bool} {l cs : List Char} (hl : ∀ c ∈ l, p c = true)
    (hcs : Stops p cs) : (l ++ cs).takeWhile p = l := by
  rw [List.takeWhile_append_of_pos hl]
  cases cs with
  | nil => exact List.append_nil l
  | cons c cs => rw [List.takeWhile_cons, hcs c rfl]; exact List.append_nil l

theorem dropWhile_eq_self {p : Char → Bool} {cs : List Char} (hcs : Stops p cs) :
    cs.dropWhile p = cs :=
  dropWhile_of_stops (fun _ hc => absurd hc List.not_mem_nil) hcs

/-! ## Trimming -/

/-- The text has a first and a last character, and neither is blank. -/
structure IsSolid (cs : List Char) : Prop where
  ne_nil : cs ≠ []
  start : Stops isBlank cs
  finish : Stops isBlank cs.reverse

namespace IsSolid

variable {cs ds : List Char}

theorem append (hc : IsSolid cs) (hd : IsSolid ds) (middle : List Char) :
    IsSolid (cs ++ (middle ++ ds)) where
  ne_nil h := hc.ne_nil (List.append_eq_nil_iff.mp h).1
  start := hc.start.append hc.ne_nil _
  finish := by
    rw [List.reverse_append, List.reverse_append, List.append_assoc]
    exact hd.finish.append (fun h => hd.ne_nil (List.reverse_eq_nil_iff.mp h)) _

/-- A text without any blanks. -/
theorem of_forall (hne : cs ≠ []) (hcs : ∀ c ∈ cs, isBlank c = false) : IsSolid cs where
  ne_nil := hne
  start c hc := hcs c (List.mem_of_mem_head? hc)
  finish c hc := hcs c (List.mem_reverse.mp (List.mem_of_mem_head? hc))

end IsSolid

theorem trimEnd_append {cs r : List Char} (hr : ∀ c ∈ r, isBlank c = true)
    (hcs : Stops isBlank cs.reverse) : trimEnd (cs ++ r) = cs := by
  have hrev : ∀ c ∈ r.reverse, isBlank c = true := fun c hc => hr c (List.mem_reverse.mp hc)
  unfold trimEnd
  rw [List.reverse_append, dropWhile_of_stops hrev hcs, List.reverse_reverse]

/-- Blanks around a text are dropped, and nothing else. -/
theorem trim_pad {l cs r : List Char} (hl : ∀ c ∈ l, isBlank c = true)
    (hr : ∀ c ∈ r, isBlank c = true) (hcs : IsSolid cs) : trim (l ++ (cs ++ r)) = cs := by
  unfold trim trimStart
  rw [dropWhile_of_stops hl (hcs.start.append hcs.ne_nil r), trimEnd_append hr hcs.finish]

theorem trim_eq_self {cs : List Char} (hcs : IsSolid cs) : trim cs = cs := by
  have h := trim_pad (l := []) (r := []) (fun _ hc => absurd hc List.not_mem_nil)
    (fun _ hc => absurd hc List.not_mem_nil) hcs
  rwa [List.append_nil] at h

theorem trim_of_blank {cs : List Char} (hcs : ∀ c ∈ cs, isBlank c = true) : trim cs = [] := by
  have h := dropWhile_of_stops hcs (stops_nil isBlank)
  rw [List.append_nil] at h
  unfold trim trimStart
  rw [h]
  rfl

/-- A blank at the end makes no difference. -/
theorem trim_concat (cs : List Char) {c : Char} (hc : isBlank c = true) :
    trim (cs ++ [c]) = trim cs := by
  unfold trim trimStart
  rw [List.dropWhile_append]
  split
  · next hempty =>
    rw [List.isEmpty_iff.mp hempty, List.dropWhile_cons, hc]
    rfl
  · unfold trimEnd
    rw [List.reverse_append, List.reverse_singleton, List.singleton_append, List.dropWhile_cons, hc]
    rfl

theorem trim_append_blank (cs : List Char) {r : List Char} (hr : ∀ c ∈ r, isBlank c = true) :
    trim (cs ++ r) = trim cs := by
  induction r generalizing cs with
  | nil => rw [List.append_nil]
  | cons c r ih =>
    rw [← List.singleton_append, ← List.append_assoc,
      ih (cs ++ [c]) fun d hd => hr d (List.mem_cons_of_mem c hd),
      trim_concat cs (hr c List.mem_cons_self)]

theorem trim_blank_append {l : List Char} (hl : ∀ c ∈ l, isBlank c = true) (cs : List Char) :
    trim (l ++ cs) = trim cs := by
  unfold trim trimStart
  rw [List.dropWhile_append_of_pos hl]

/-- Only the end of a text can be trimmed when it starts without a blank. -/
theorem trim_cons {c : Char} (hc : isBlank c = false) (cs : List Char) :
    trim (c :: cs) = c :: trimEnd cs := by
  have hstart : trimStart (c :: cs) = c :: cs := dropWhile_eq_self (stops_cons hc cs)
  have hsingle : [c].dropWhile isBlank = [c] := dropWhile_eq_self (stops_cons hc [])
  unfold trim
  rw [hstart, trimEnd, trimEnd, List.reverse_cons, List.dropWhile_append]
  split
  · next hempty =>
    rw [hsingle, List.isEmpty_iff.mp hempty]
    rfl
  · rw [List.reverse_append]
    rfl

theorem stops_dropWhile (p : Char → Bool) (cs : List Char) : Stops p (cs.dropWhile p) := by
  intro c hc
  have hhead := List.head?_dropWhile_not p cs
  rw [Option.mem_def.mp hc] at hhead
  exact hhead

/-- What trimming takes away are blanks at both ends. -/
theorem exists_trim (cs : List Char) : ∃ l r, (∀ c ∈ l, isBlank c = true) ∧
    (∀ c ∈ r, isBlank c = true) ∧ cs = l ++ (trim cs ++ r) := by
  refine ⟨cs.takeWhile isBlank, ((trimStart cs).reverse.takeWhile isBlank).reverse,
    List.all_eq_true.mp List.all_takeWhile, fun c hc => ?_, ?_⟩
  · exact List.all_eq_true.mp List.all_takeWhile c (List.mem_reverse.mp hc)
  · have hend : trim cs ++ ((trimStart cs).reverse.takeWhile isBlank).reverse = trimStart cs := by
      unfold trim trimEnd
      rw [← List.reverse_append, List.takeWhile_append_dropWhile, List.reverse_reverse]
    rw [hend]
    exact List.takeWhile_append_dropWhile.symm

theorem isSolid_trim {cs : List Char} (hne : trim cs ≠ []) : IsSolid (trim cs) where
  ne_nil := hne
  start := by
    have hprefix : trim cs <+: trimStart cs := by
      unfold trim trimEnd
      rw [← List.reverse_suffix, List.reverse_reverse]
      exact List.dropWhile_suffix _
    intro c hc
    obtain ⟨rest, hrest⟩ := hprefix
    apply stops_dropWhile isBlank cs c
    show c ∈ (trimStart cs).head?
    rw [← hrest, List.head?_append, Option.mem_def.mp hc]
    rfl
  finish := by
    unfold trim trimEnd
    rw [List.reverse_reverse]
    exact stops_dropWhile isBlank _

theorem trim_trim (cs : List Char) : trim (trim cs) = trim cs := by
  by_cases hne : trim cs = []
  · rw [hne]
    rfl
  · exact trim_eq_self (isSolid_trim hne)

/-! ## Lines -/

theorem dropReturn_cases (cs : List Char) :
    dropReturn cs = cs ∨ cs = dropReturn cs ++ ['\r'] := by
  unfold dropReturn
  split
  · next hlast =>
    obtain ⟨init, rfl⟩ := List.getLast?_eq_some_iff.mp hlast
    exact .inr (by rw [List.dropLast_concat])
  · exact .inl rfl

/-- The first line of a text, up to its line feed. -/
theorem lines_feed {line : List Char} (hline : '\n' ∉ line) (text : List Char) :
    lines (line ++ '\n' :: text) = dropReturn line :: lines text := by
  have hne : text.splitOn '\n' ≠ [] := List.splitOn_ne_nil '\n' text
  unfold lines
  dsimp only
  rw [List.splitOn_append_cons_self_of_not_mem hline, List.dropLast_cons_of_ne_nil hne,
    List.getLast?_cons_of_ne_nil hne, List.map_cons, List.cons_append]

/-- Lines joined by line feeds are the lines of the text, up to the carriage returns before the line
feeds and an empty last line. -/
theorem lines_intercalate {init : List (List Char)} {last : List Char}
    (hinit : ∀ l ∈ init, '\n' ∉ l) (hlast : '\n' ∉ last) :
    lines (['\n'].intercalate (init ++ [last])) = init.map dropReturn ++ [last].filter (· ≠ []) := by
  have hsplit : (['\n'].intercalate (init ++ [last])).splitOn '\n' = init ++ [last] := by
    refine List.splitOn_intercalate '\n' (fun l hl => ?_) (List.concat_ne_nil last init)
    rcases List.mem_append.mp hl with hl | hl
    · exact hinit l hl
    · exact List.mem_singleton.mp hl ▸ hlast
  simp only [lines, hsplit, List.dropLast_concat, List.getLast?_concat, Option.toList_some]

end Pivotal.Text
