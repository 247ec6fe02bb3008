import Mathlib.Logic.Relation
import Pivotal.Proofs.Task.Comments
import Pivotal.Task.Document

/-!
# What removing comments hides

A text has lines (`HasLines`), whatever their ends are.  An `Edit` puts in a line that says nothing,
adds a comment to a line, or adds blanks at one of its ends; none of these changes what is kept of the
lines (`keptOf_edit`), so nothing that is read from a text depends on any number of them
(`comments_invisible`).  What is kept is kept again: removing comments twice is removing them once
(`filterComments_filterComments`).
-/

namespace Pivotal.Task

open Text

/-! ## Lines and their ends -/

/-- The text consists of these lines.  Each ends with a line feed or with a carriage return and a line
feed; the last one may stand without an end. -/
inductive HasLines : List Char → List (List Char) → Prop
  | nil : HasLines [] []
  | last {line : List Char} (hline : '\n' ∉ line) : HasLines line [line]
  | feed {line text : List Char} {ls : List (List Char)} (hline : '\n' ∉ line)
      (htext : HasLines text ls) : HasLines (line ++ '\n' :: text) (line :: ls)
  | returnFeed {line text : List Char} {ls : List (List Char)} (hline : '\n' ∉ line)
      (htext : HasLines text ls) : HasLines (line ++ '\r' :: '\n' :: text) (line :: ls)

/-- What is kept of a list of lines. -/
def keptOf (ls : List (List Char)) : List (List Char) :=
  (ls.map fun line => trim (cutComment line)).filter fun line => !isDropped line

theorem keptOf_append (ls ms : List (List Char)) : keptOf (ls ++ ms) = keptOf ls ++ keptOf ms := by
  unfold keptOf
  rw [List.map_append, List.filter_append]

theorem keptOf_cons (line : List Char) (ls : List (List Char)) :
    keptOf (line :: ls) = keptOf [line] ++ keptOf ls :=
  keptOf_append [line] ls

/-- A line counts by what trimming leaves of it. -/
theorem keptOf_singleton_congr {line line' : List Char}
    (h : trim (cutComment line) = trim (cutComment line')) : keptOf [line] = keptOf [line'] := by
  unfold keptOf
  rw [List.map_singleton, List.map_singleton, h]

theorem keptLines_feed {line : List Char} (hline : '\n' ∉ line) (text : List Char) :
    keptLines (line ++ '\n' :: text) = keptOf [line] ++ keptLines text := by
  have hdropped : keptOf [dropReturn line] = keptOf [line] :=
    keptOf_singleton_congr (trim_cutComment_dropReturn line)
  show keptOf (lines (line ++ '\n' :: text)) = _
  rw [lines_feed hline, keptOf_cons, hdropped]
  rfl

/-- The ends of the lines make no difference. -/
theorem HasLines.keptLines_eq {text : List Char} {ls : List (List Char)} (h : HasLines text ls) :
    keptLines text = keptOf ls := by
  induction h with
  | nil => rfl
  | @last line hline =>
    have hjoined := keptLines_intercalate (List.forall_mem_singleton.mpr hline)
    rw [List.intercalate_singleton] at hjoined
    exact hjoined
  | feed hline _ ih => rw [keptLines_feed hline, ih, ← keptOf_cons]
  | @returnFeed line text ls hline _ ih =>
    have hreturn : '\n' ∉ line ++ ['\r'] := by simp [hline]
    have hblank : ∀ c ∈ ['\r'], isBlank c = true := List.all_eq_true.mp rfl
    have hline' : keptOf [line ++ ['\r']] = keptOf [line] :=
      keptOf_singleton_congr (trim_cutComment_append_blank line hblank)
    have hfeed := keptLines_feed hreturn text
    rw [List.append_assoc, List.singleton_append] at hfeed
    rw [hfeed, hline', ih, ← keptOf_cons]

theorem HasLines.feed_not_mem {text : List Char} {ls : List (List Char)} (h : HasLines text ls) :
    ∀ line ∈ ls, '\n' ∉ line := by
  induction h with
  | nil => exact List.forall_mem_nil _
  | last hline => exact List.forall_mem_singleton.mpr hline
  | feed hline _ ih => exact List.forall_mem_cons.mpr ⟨hline, ih⟩
  | returnFeed hline _ ih => exact List.forall_mem_cons.mpr ⟨hline, ih⟩

/-- Every text has lines. -/
theorem exists_hasLines (text : List Char) : ∃ ls, HasLines text ls := by
  by_cases hmem : '\n' ∈ text
  · obtain ⟨line, rest, rfl, hline⟩ := List.eq_append_cons_of_mem hmem
    obtain ⟨ls, hls⟩ := exists_hasLines rest
    exact ⟨line :: ls, .feed hline hls⟩
  · exact ⟨[text], .last hmem⟩
termination_by text.length

/-! ## Edits -/

/-- A line that says nothing: it is blank, or its first text starts a comment. -/
inductive SaysNothing : List Char → Prop
  | blank {l : List Char} (hl : ∀ c ∈ l, isBlank c = true) : SaysNothing l
  | slashes {l : List Char} (hl : ∀ c ∈ l, isBlank c = true) (rest : List Char) :
      SaysNothing (l ++ '/' :: '/' :: rest)
  | mark {l : List Char} (hl : ∀ c ∈ l, isBlank c = true) {c : Char} (hc : c ∈ ['#', '%', ';'])
      (rest : List Char) : SaysNothing (l ++ c :: rest)

/-- One change of one line; what is added has no line feed in it. -/
inductive LineEdit : List Char → List Char → Prop
  | semicolon (line rest : List Char) (hrest : '\n' ∉ rest) :
      LineEdit line (line ++ ';' :: rest)
  | slashes (line l rest : List Char) (hne : l ≠ []) (hl : ∀ c ∈ l, isBlank c = true)
      (hfeed : '\n' ∉ l) (hrest : '\n' ∉ rest) :
      LineEdit line (line ++ (l ++ '/' :: '/' :: rest))
  | indent (line l : List Char) (hl : ∀ c ∈ l, isBlank c = true) (hfeed : '\n' ∉ l) :
      LineEdit line (l ++ line)
  | pad (line r : List Char) (hr : ∀ c ∈ r, isBlank c = true) (hfeed : '\n' ∉ r) :
      LineEdit line (line ++ r)

/-- One change of a list of lines. -/
inductive Edit : List (List Char) → List (List Char) → Prop
  | insert (before after : List (List Char)) {line : List Char} (hline : SaysNothing line)
      (hfeed : '\n' ∉ line) : Edit (before ++ after) (before ++ line :: after)
  | change (before after : List (List Char)) {line line' : List Char} (h : LineEdit line line') :
      Edit (before ++ line :: after) (before ++ line' :: after)

/-- Any number of changes, one after the other. -/
def Edits : List (List Char) → List (List Char) → Prop := Relation.ReflTransGen Edit

/-! ## Edits change nothing -/

/-- Two slashes after blanks end a line. -/
theorem cutSlashes_blank_slashes {l : List Char} (hl : ∀ c ∈ l, isBlank c = true)
    (rest : List Char) : cutSlashes true (l ++ '/' :: '/' :: rest) = l := by
  have hcut : cutSlashes true ('/' :: '/' :: rest) = [] := by simp [cutSlashes]
  rw [cutSlashes_blank_append hl, hcut, List.append_nil]

theorem semicolon_not_mem_of_blank {l : List Char} (hl : ∀ c ∈ l, isBlank c = true) : ';' ∉ l :=
  fun hmem => absurd (hl ';' hmem) (by decide)

/-- A comment behind a blank is cut off with the blank. -/
theorem trim_cutComment_slashes (line : List Char) {l : List Char} (hne : l ≠ [])
    (hl : ∀ c ∈ l, isBlank c = true) (rest : List Char) :
    trim (cutComment (line ++ (l ++ '/' :: '/' :: rest))) = trim (cutComment line) := by
  by_cases hline : ';' ∈ line
  · rw [cutComment_append_of_mem hline]
  · have htake : (l ++ '/' :: '/' :: rest).takeWhile (· ≠ ';') =
        l ++ '/' :: '/' :: rest.takeWhile (· ≠ ';') := by
      rw [List.takeWhile_append, takeWhile_semicolon_of_blank hl, if_pos rfl]
      rfl
    have hhead : (l ++ '/' :: '/' :: rest.takeWhile (· ≠ ';')).head? ≠ some '/' := by
      obtain ⟨c, l, rfl⟩ := List.exists_cons_of_ne_nil hne
      intro hslash
      cases hslash
      exact absurd (hl '/' List.mem_cons_self) (by decide)
    rw [cutComment_append_of_not_mem hline, cutComment_of_not_mem hline, htake]
    by_cases hcut : cutSlashes true line = line
    · rw [cutSlashes_append_of_eq hcut hhead, cutSlashes_blank_slashes hl, hcut,
        trim_append_blank line hl]
    · rw [cutSlashes_append_of_ne hcut]

/-- Blanks before a line are trimmed with it. -/
theorem trim_cutComment_blank_append {l : List Char} (hl : ∀ c ∈ l, isBlank c = true)
    (line : List Char) : trim (cutComment (l ++ line)) = trim (cutComment line) := by
  rw [cutComment_append_of_not_mem (semicolon_not_mem_of_blank hl), cutSlashes_blank_append hl,
    trim_blank_append hl]
  rfl

theorem trim_cutComment_lineEdit {line line' : List Char} (h : LineEdit line line') :
    trim (cutComment line') = trim (cutComment line) := by
  cases h with
  | semicolon rest _ =>
    by_cases hline : ';' ∈ line
    · rw [cutComment_append_of_mem hline]
    · have htake : (';' :: rest).takeWhile (· ≠ ';') = [] := rfl
      rw [cutComment_append_of_not_mem hline, cutComment_of_not_mem hline, htake, List.append_nil]
  | slashes l rest hne hl _ _ => exact trim_cutComment_slashes line hne hl rest
  | indent l hl _ => exact trim_cutComment_blank_append hl line
  | pad r hr _ => exact trim_cutComment_append_blank line hr

/-- What starts a line and no comment still starts it when it has been trimmed. -/
theorem head?_trim_cutComment {c : Char} (hblank : isBlank c = false) (hsemicolon : c ≠ ';')
    (hslash : c ≠ '/') (rest : List Char) : (trim (cutComment (c :: rest))).head? = some c := by
  unfold cutComment
  rw [List.takeWhile_cons, if_pos (decide_eq_true hsemicolon), cutSlashes,
    if_neg fun h => hslash h.2.1, trim_cons hblank]
  rfl

theorem isDropped_of_saysNothing {line : List Char} (h : SaysNothing line) :
    isDropped (trim (cutComment line)) = true := by
  cases h with
  | blank hl =>
    have htrim := trim_cutComment_append_blank [] hl
    rw [List.nil_append] at htrim
    rw [htrim]
    rfl
  | slashes hl rest =>
    have hcut : cutComment ('/' :: '/' :: rest) = [] := by simp [cutComment, cutSlashes]
    rw [trim_cutComment_blank_append hl, hcut]
    rfl
  | @mark l hl c hc rest =>
    rw [trim_cutComment_blank_append hl]
    simp only [List.mem_cons, List.not_mem_nil, or_false] at hc
    rcases hc with rfl | rfl | rfl
    · simp [isDropped, head?_trim_cutComment (c := '#') (by decide) (by decide) (by decide)]
    · simp [isDropped, head?_trim_cutComment (c := '%') (by decide) (by decide) (by decide)]
    · rfl

/-- **An edit changes nothing of what is kept.** -/
theorem keptOf_edit {ls ls' : List (List Char)} (h : Edit ls ls') : keptOf ls' = keptOf ls := by
  cases h with
  | insert before after hline _ =>
    have hnothing : ∀ line, isDropped (trim (cutComment line)) = true → keptOf [line] = [] := by
      intro line hline
      simp [keptOf, hline]
    rw [keptOf_append, keptOf_append, keptOf_cons, hnothing _ (isDropped_of_saysNothing hline),
      List.nil_append]
  | change before after hline =>
    have hsame := keptOf_singleton_congr (trim_cutComment_lineEdit hline)
    rw [keptOf_append, keptOf_append, keptOf_cons, hsame, ← keptOf_cons]

theorem keptOf_edits {ls ls' : List (List Char)} (h : Edits ls ls') : keptOf ls' = keptOf ls := by
  induction h with
  | refl => rfl
  | tail _ hedit ih => exact (keptOf_edit hedit).trans ih

/-! ## What is kept is kept again -/

theorem cutSlashes_cutSlashes (afterBlank : Bool) (cs : List Char) :
    cutSlashes afterBlank (cutSlashes afterBlank cs) = cutSlashes afterBlank cs := by
  induction cs generalizing afterBlank with
  | nil => rfl
  | cons c cs ih =>
    rw [cutSlashes]
    split
    · rfl
    · next hcut =>
      -- a slash that is left stood in the text before it was cut
      have hhead : (cutSlashes (isBlank c) cs).head? = some '/' → cs.head? = some '/' := by
        obtain ⟨rest, hrest⟩ := cutSlashes_isPrefix (isBlank c) cs
        intro hslash
        rw [← hrest, List.head?_append, hslash]
        rfl
      rw [cutSlashes, if_neg fun h => hcut ⟨h.1, h.2.1, hhead h.2.2⟩, ih]

/-- Trimming uncovers no comment. -/
theorem cutSlashes_trim {cs : List Char} (h : cutSlashes true cs = cs) :
    cutSlashes true (trim cs) = trim cs := by
  obtain ⟨l, r, hl, hr, hcs⟩ := exists_trim cs
  rw [hcs, cutSlashes_blank_append hl, List.append_cancel_left_eq] at h
  by_cases hcut : cutSlashes true (trim cs) = trim cs
  · exact hcut
  · -- the cut would take the blanks behind the text too, so there are none
    rw [cutSlashes_append_of_ne hcut] at h
    have hlength := (cutSlashes_isPrefix true (trim cs)).length_le
    rw [h, List.length_append] at hlength
    have hnil : r = [] := List.length_eq_zero_iff.mp (by omega)
    rw [hnil, List.append_nil] at h
    exact h

/-- What is left of a line are characters of the line before its first semicolon. -/
theorem mem_of_mem_trim_cutComment {line : List Char} {c : Char}
    (h : c ∈ trim (cutComment line)) : c ∈ line ∧ c ≠ ';' := by
  obtain ⟨l, r, -, -, hcut⟩ := exists_trim (cutComment line)
  have hmem : c ∈ cutComment line := by
    rw [hcut]
    simp [h]
  have htake : c ∈ line.takeWhile (· ≠ ';') := (cutSlashes_isPrefix true _).subset hmem
  refine ⟨(List.takeWhile_prefix _).subset htake, ?_⟩
  have hall : (line.takeWhile (· ≠ ';')).all (· ≠ ';') = true := List.all_takeWhile
  exact of_decide_eq_true (List.all_eq_true.mp hall c htake)

theorem trim_cutComment_trim_cutComment (line : List Char) :
    trim (cutComment (trim (cutComment line))) = trim (cutComment line) := by
  have hsemicolon : ';' ∉ trim (cutComment line) := fun hmem =>
    (mem_of_mem_trim_cutComment hmem).2 rfl
  have hcut : cutSlashes true (cutComment line) = cutComment line := cutSlashes_cutSlashes true _
  rw [cutComment_of_not_mem hsemicolon, cutSlashes_trim hcut, trim_trim]

theorem mem_keptOf {ls : List (List Char)} {kept : List Char} (h : kept ∈ keptOf ls) :
    (∃ line ∈ ls, kept = trim (cutComment line)) ∧ isDropped kept = false := by
  unfold keptOf at h
  rw [List.mem_filter, List.mem_map] at h
  obtain ⟨⟨line, hline, rfl⟩, hkept⟩ := h
  exact ⟨⟨line, hline, rfl⟩, by simpa using hkept⟩

theorem keptOf_keptOf (ls : List (List Char)) : keptOf (keptOf ls) = keptOf ls := by
  have hmap : (keptOf ls).map (fun line => trim (cutComment line)) = (keptOf ls).map id := by
    refine List.map_congr_left fun kept hkept => ?_
    obtain ⟨⟨line, -, rfl⟩, -⟩ := mem_keptOf hkept
    exact trim_cutComment_trim_cutComment line
  have hfilter : (keptOf ls).filter (fun line => !isDropped line) = keptOf ls := by
    rw [List.filter_eq_self]
    intro kept hkept
    rw [(mem_keptOf hkept).2]
    rfl
  unfold keptOf at hmap hfilter ⊢
  rw [hmap, List.map_id, hfilter]

/-- **Removing comments twice is removing them once.** -/
theorem filterComments_filterComments (text : List Char) :
    filterComments (filterComments text) = filterComments text := by
  obtain ⟨ls, hls⟩ := exists_hasLines text
  have hfeed : ∀ line ∈ keptOf ls, '\n' ∉ line := by
    intro kept hkept hmem
    obtain ⟨⟨line, hline, rfl⟩, -⟩ := mem_keptOf hkept
    exact hls.feed_not_mem line hline (mem_of_mem_trim_cutComment hmem).1
  unfold filterComments
  rw [hls.keptLines_eq, keptLines_intercalate hfeed]
  exact congrArg _ (keptOf_keptOf ls)

/-! ## Nothing that is read depends on comments -/

theorem LineEdit.feed_not_mem {line line' : List Char} (h : LineEdit line line')
    (hline : '\n' ∉ line) : '\n' ∉ line' := by
  cases h with
  | semicolon rest hrest => simp [hline, hrest]
  | slashes l rest _ _ hfeed hrest => simp [hline, hfeed, hrest]
  | indent l _ hfeed => simp [hline, hfeed]
  | pad r _ hfeed => simp [hline, hfeed]

theorem Edits.feed_not_mem {ls ls' : List (List Char)} (h : Edits ls ls')
    (hls : ∀ line ∈ ls, '\n' ∉ line) : ∀ line ∈ ls', '\n' ∉ line := by
  induction h with
  | refl => exact hls
  | tail _ hedit ih =>
    cases hedit with
    | insert before after _ hfeed =>
      rw [List.forall_mem_append] at ih ⊢
      exact ⟨ih.1, List.forall_mem_cons.mpr ⟨hfeed, ih.2⟩⟩
    | change before after hline =>
      rw [List.forall_mem_append, List.forall_mem_cons] at ih ⊢
      exact ⟨ih.1, hline.feed_not_mem ih.2.1, ih.2.2⟩

theorem hasLines_intercalate {ls : List (List Char)} (hls : ∀ line ∈ ls, '\n' ∉ line) :
    HasLines (['\n'].intercalate ls) ls := by
  induction ls with
  | nil => exact .nil
  | cons line ls ih =>
    obtain ⟨hline, hrest⟩ := List.forall_mem_cons.mp hls
    cases ls with
    | nil =>
      rw [List.intercalate_singleton]
      exact .last hline
    | cons next ls =>
      rw [List.intercalate_cons_cons, List.append_assoc, List.singleton_append]
      exact .feed hline (ih hrest)

theorem Document.parse_congr {V : Type} (value : Reader V) {text text' : List Char}
    (h : filterComments text' = filterComments text) :
    Document.parse value text' = Document.parse value text := by
  unfold Document.parse
  rw [h]

/-- **Comments, blank lines and indentation are invisible.**  However often the lines of a text are
edited, the text that has the edited lines is filtered to the same text, and so is the filtered text
itself; values and tokens are read from all of them alike. -/
theorem comments_invisible (text : String) :
    (∃ ls, HasLines text.toList ls) ∧
    (∀ ls ls', HasLines text.toList ls → Edits ls ls' →
      (∃ edited : String, HasLines edited.toList ls') ∧
      ∀ edited : String, HasLines edited.toList ls' →
        filterComments edited.toList = filterComments text.toList ∧
        Document.parseValues edited = Document.parseValues text ∧
        Document.parseTokens edited = Document.parseTokens text) ∧
    filterComments (filterComments text.toList) = filterComments text.toList ∧
    Document.parseValues (String.ofList (filterComments text.toList)) = Document.parseValues text ∧
    Document.parseTokens (String.ofList (filterComments text.toList)) = Document.parseTokens text := by
  have hread : ∀ {V : Type} (value : Reader V),
      Document.parse value (String.ofList (filterComments text.toList)).toList =
        Document.parse value text.toList := fun value => by
    rw [String.toList_ofList]
    exact Document.parse_congr value (filterComments_filterComments text.toList)
  refine ⟨exists_hasLines text.toList, fun ls ls' hls hedits => ⟨?_, fun edited hls' => ?_⟩,
    filterComments_filterComments text.toList, hread readValue, hread readToken⟩
  · refine ⟨String.ofList (['\n'].intercalate ls'), ?_⟩
    rw [String.toList_ofList]
    exact hasLines_intercalate (hedits.feed_not_mem hls.feed_not_mem)
  · have hfilter : filterComments edited.toList = filterComments text.toList := by
      unfold filterComments
      rw [hls.keptLines_eq, hls'.keptLines_eq, keptOf_edits hedits]
    exact ⟨hfilter, Document.parse_congr readValue hfilter, Document.parse_congr readToken hfilter⟩

/-- Every kind of edit, in a text whose first line then ends with a carriage return. -/
theorem comments_invisible_every_kind :
    filterComments "t ; c\r\n\t% n\n\u00a0k: 1,x//y \t// z;".toList =
        filterComments "t\nk: 1,x//y\n".toList ∧
      Document.parseValues "t ; c\r\n\t% n\n\u00a0k: 1,x//y \t// z;" =
        Document.parseValues "t\nk: 1,x//y\n" ∧
      Document.parseTokens "t ; c\r\n\t% n\n\u00a0k: 1,x//y \t// z;" =
        Document.parseTokens "t\nk: 1,x//y\n" := by
  have all : ∀ {l : List Char}, l.all isBlank = true → ∀ c ∈ l, isBlank c = true :=
    fun h => List.all_eq_true.mp h
  have htext : "t\nk: 1,x//y\n".toList = "t".toList ++ '\n' :: ("k: 1,x//y".toList ++ ['\n']) := by
    decide
  have hlines : HasLines "t\nk: 1,x//y\n".toList ["t".toList, "k: 1,x//y".toList] := by
    rw [htext]
    exact .feed (by decide) (.feed (by decide) .nil)
  have hedits : Edits ["t".toList, "k: 1,x//y".toList]
      ["t ; c".toList, "\t% n".toList, "\u00a0k: 1,x//y \t// z;".toList] :=
    (((((Relation.ReflTransGen.refl.tail
      (.change [] _ (.pad "t".toList [' '] (all rfl) (by decide)))).tail
      (.change [] _ (.semicolon "t ".toList " c".toList (by decide)))).tail
      (.insert ["t ; c".toList] _ (.mark (l := ['\t']) (all rfl) (c := '%') (by decide) " n".toList)
        (by decide))).tail
      (.change ["t ; c".toList, "\t% n".toList] []
        (.indent "k: 1,x//y".toList ['\u00a0'] (all rfl) (by decide)))).tail
      (.change ["t ; c".toList, "\t% n".toList] []
        (.slashes "\u00a0k: 1,x//y".toList [' ', '\t'] " z;".toList (by decide) (all rfl)
          (by decide) (by decide))))
  have hedited : "t ; c\r\n\t% n\n\u00a0k: 1,x//y \t// z;".toList = "t ; c".toList ++ '\r' :: '\n' ::
      ("\t% n".toList ++ '\n' :: "\u00a0k: 1,x//y \t// z;".toList) := by
    decide
  refine ((comments_invisible _).2.1 _ _ hlines hedits).2 _ ?_
  rw [hedited]
  exact .returnFeed (by decide) (.feed (by decide) (.last (by decide)))

end Pivotal.Task
