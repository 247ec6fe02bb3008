import Pivotal.Proofs.Complex.ReadBack
import Pivotal.Proofs.Linear.Reachable
import Pivotal.Proofs.Linear.Rows
import Pivotal.Proofs.Linear.Transparency
import Pivotal.Proofs.Task.Concatenation

/-!
# Saved tables without quotes

With tabs, a saved result is written as it stands, and nothing in it is quoted.  A table can be
taken apart again as long as no field holds a tab or a line end (`splits_table`).  The texts of
numbers hold neither, nor do the default names; and a name that comes from a task is a token of its
text, which ends at the first tab or line end.  So the saved result of a task splits into its names
and numbers, whatever the names look like (`saved_table_splits`).
-/

namespace Pivotal.Linear

open Pivotal.Task (Document IsTokenText tokenValue)

/-! ## Tables that can be taken apart -/

/-- A text that can stand in a table. -/
structure IsField (cs : List Char) : Prop where
  tab : '\t' ∉ cs
  feed : '\n' ∉ cs

/-- The text is made of lines with their line ends.  Split at line ends it gives the lines, with
nothing behind the last line end, and split at tabs these give the rows. -/
def Splits (text : String) (rows : List (List (List Char))) : Prop :=
  ∃ lines, text.toList = lines.flatMap (· ++ ['\n']) ∧
    text.toList.splitOn '\n' = lines ++ [[]] ∧ lines.map (List.splitOn '\t') = rows

/-- Lines with their line ends are the lines and an empty one, with line ends between them. -/
theorem flatMap_feed (lines : List (List Char)) :
    lines.flatMap (· ++ ['\n']) = ['\n'].intercalate (lines ++ [[]]) := by
  induction lines with
  | nil => rfl
  | cons line lines ih =>
    have hne : lines ++ [[]] ≠ [] := List.append_ne_nil_of_right_ne_nil _ (List.cons_ne_nil _ _)
    rw [List.flatMap_cons, ih, List.cons_append, List.intercalate_cons_of_ne_nil hne]

theorem not_mem_intercalate {fields : List (List Char)} (h : ∀ f ∈ fields, '\n' ∉ f) :
    '\n' ∉ ['\t'].intercalate fields := by
  induction fields with
  | nil => exact List.not_mem_nil
  | cons f fields ih =>
    obtain ⟨hf, hfields⟩ := List.forall_mem_cons.mp h
    cases fields with
    | nil => simpa using hf
    | cons g fields => simpa using ⟨hf, ih hfields⟩

theorem splits_lines {rows : List (List (List Char))}
    (hrows : ∀ row ∈ rows, row ≠ [] ∧ ∀ f ∈ row, IsField f) :
    Splits (String.ofList (rows.flatMap (Report.line .tabs))) rows := by
  have htext : (String.ofList (rows.flatMap (Report.line .tabs))).toList =
      (rows.map ['\t'].intercalate).flatMap (· ++ ['\n']) := by
    rw [String.toList_ofList, List.flatMap_map]
    rfl
  refine ⟨rows.map ['\t'].intercalate, htext, ?_, ?_⟩
  · have hfeed : ∀ line ∈ rows.map ['\t'].intercalate ++ [[]], '\n' ∉ line := by
      refine List.forall_mem_append.mpr ⟨List.forall_mem_map.mpr fun row hrow => ?_, by simp⟩
      exact not_mem_intercalate fun f hf => ((hrows row hrow).2 f hf).feed
    rw [htext, flatMap_feed]
    exact List.splitOn_intercalate '\n' hfeed (by simp)
  · rw [List.map_map]
    refine (List.map_congr_left fun row hrow => ?_).trans (List.map_id rows)
    obtain ⟨hne, hfields⟩ := hrows row hrow
    exact List.splitOn_intercalate '\t' (fun f hf => (hfields f hf).tab) hne

/-! ## Numbers and names -/

theorem isField_of_not_isBlank {cs : List Char} (h : ∀ c ∈ cs, Text.isBlank c = false) :
    IsField cs :=
  ⟨fun hmem => absurd (h _ hmem) (by decide), fun hmem => absurd (h _ hmem) (by decide)⟩

theorem isField_partText (x : Float) : IsField (Complex.partText x) := by
  obtain ⟨l, hl, -⟩ := Complex.exists_literal_partText x
  exact isField_of_not_isBlank hl.not_isBlank

theorem isField_token {t : String} (h : IsTokenText t) : IsField t.toList :=
  ⟨fun hmem => h.2 _ hmem (by decide), fun hmem => h.2 _ hmem (by decide)⟩

theorem isField_defaultName (k : Nat) : IsField (defaultName k).toList := by
  have htext : (defaultName k).toList = 'x' :: Decimal.digitsOf k := by
    show ("x" ++ toString k).toList = _
    rw [String.toList_append, Nat.toString_eq_ofList_toDigits]
    exact congrArg ('x' :: ·) String.toList_ofList
  rw [htext]
  refine isField_of_not_isBlank (List.forall_mem_cons.mpr ⟨by decide, fun c hc => ?_⟩)
  exact Decimal.not_isBlank_of_isDigit (Decimal.isDigit_of_mem_digitsOf hc)

/-- The values that a text gives to a key are tokens. -/
theorem isTokenText_of_parseTokens {text : String} {d : Document String}
    (h : Document.parseTokens text = .ok d) {title key : String} {ts : List String}
    (hts : d.values? title key = some ts) : ∀ t ∈ ts, IsTokenText t := by
  have hparse : Document.parse (Task.Reader.map id Task.readToken) text.toList = .ok d := by
    rw [Task.map_id_readToken]
    exact h
  obtain ⟨sections, -, hread, hd⟩ := Task.exists_sections_of_parse hparse
  rw [Task.map_id_sections] at hd
  obtain ⟨⟨-, hsections⟩, -⟩ := Task.takes_readSections hread
  rw [Document.values?_eq, hd, (Task.isDocumentOf_ofSections sections).values] at hts
  cases hlookup : (Task.pairsUnder sections title).reverse.lookup key with
  | none => rw [hlookup] at hts; cases hts
  | some values =>
    rw [hlookup] at hts
    cases hts
    obtain ⟨front, behind, hsplit, -⟩ := List.lookup_eq_some_iff.mp hlookup
    have hmem : (key, ts) ∈ Task.pairsUnder sections title := by
      rw [← List.mem_reverse, hsplit]
      exact List.mem_append_right _ List.mem_cons_self
    obtain ⟨s, hs, hpair⟩ := List.mem_flatMap.mp hmem
    exact ((hsections s (List.mem_of_mem_filter hs)).pairs _ hpair).2

theorem isField_givenNames {text : String} {written : Document String}
    (h : Document.parseTokens text = .ok written) (count : Nat) :
    ∀ name ∈ LinearSystem.givenNames written count, IsField name.toList := by
  unfold LinearSystem.givenNames
  cases hnames : written.values? "system" "unknowns" with
  | none => exact List.forall_mem_map.mpr fun k _ => isField_defaultName k
  | some names =>
    exact fun name hname => isField_token (isTokenText_of_parseTokens h hnames name hname)

/-! ## Results of a task -/

theorem isField_fields {name : String} (hname : IsField name.toList) (z : Complex) :
    ∀ f ∈ Report.fields name z, IsField f :=
  List.forall_mem_cons.mpr ⟨hname, by simp [isField_partText]⟩

theorem splits_table {names : List String} {solution : List Complex}
    (hlength : names.length = solution.length) (hnames : ∀ name ∈ names, IsField name.toList) :
    ∃ saved, Report.table .tabs names solution = .ok saved ∧
      Splits saved (Report.header :: List.zipWith Report.fields names solution) := by
  refine ⟨_, if_pos hlength, splits_lines (List.forall_mem_cons.mpr ⟨?_, fun row hrow => ?_⟩)⟩
  · have hheader : ∀ f ∈ Report.header, '\t' ∉ f ∧ '\n' ∉ f := by decide
    exact ⟨List.cons_ne_nil _ _, fun f hf => ⟨(hheader f hf).1, (hheader f hf).2⟩⟩
  · obtain ⟨k, hk, rfl⟩ := List.getElem_of_mem hrow
    rw [List.getElem_zipWith]
    exact ⟨List.cons_ne_nil _ _, isField_fields (hnames _ (List.getElem_mem _)) _⟩

theorem exists_givenNames {text : String} {s : LinearSystem}
    (h : LinearSystem.ofTask text = .ok s) :
    ∃ written, Document.parseTokens text = .ok written ∧
      s.unknowns = LinearSystem.givenNames written s.terms.size := by
  obtain ⟨written, s₁, hwritten, -, rfl⟩ := LinearSystem.ofTask_cases h
  exact ⟨written, hwritten, rfl⟩

theorem ofFileName_tabs {path : String} (h : ¬ ".csv".toList <:+ path.toList) :
    TableFormat.ofFileName path = .tabs := by
  unfold TableFormat.ofFileName
  rw [if_neg (fun hsuffix => h (List.isSuffixOf_iff_suffix.mp hsuffix))]

/-- A call that succeeds is kept, a value for each unknown, and the names are those from before. -/
theorem kept_of_call {s : LinearSystem} {calls : List Call} {c : Call} {x : Array Complex}
    (hx : ((s.after calls).call c).outcome = .ok x) :
    ((s.after calls).call c).system.result = some x ∧
      ((s.after calls).call c).system.unknowns = s.unknowns ∧ x.size = s.terms.size := by
  have hbefore := remembers_after s calls
  have hafter := remembers_after s (calls ++ [c])
  have hanswer : answer s.coefficients s.terms c = .ok x := by
    rw [outcome_call, hbefore.coefficients, hbefore.terms] at hx
    cases h : answer s.coefficients s.terms c with
    | error f => rw [h] at hx; cases hx
    | ok y => rw [h] at hx; cases hx; rfl
  have hresult := hafter.result
  rw [successes_concat_ok calls hanswer, List.getLast?_concat] at hresult
  rw [← LinearSystem.after_concat]
  exact ⟨hresult.1, hafter.unknowns, (hasSize_of_answer hanswer).terms.symm⟩

/-- **The saved result of a task is never ambiguous.**  After any solves of it, with any methods and
flags, one that succeeds has a table to save: a line for the header and one for each unknown, which
splits at tabs into its name, as the task has it, and the texts of both parts and of the
magnitude. -/
theorem saved_table_splits {text : String} {s : LinearSystem}
    (htask : LinearSystem.ofTask text = .ok s) (calls : List Call) (c : Call)
    {attempt : LinearSystem.Attempt}
    (hattempt : attempt = (s.after calls).call c ∨
      attempt = ((s.after calls).configured c).solve c.elapsed)
    {x : Array Complex} (hx : attempt.outcome = .ok x) {path : String}
    (hpath : ¬ ".csv".toList <:+ path.toList) :
    ∃ (written : Document String) (names : Vector String x.size) (saved : String),
      Document.parseTokens text = .ok written ∧
      names.toList = (written.values? "system" "unknowns").getD
        ((List.range x.size).map defaultName) ∧
      (∀ (m : Type → Type) [Monad m] (files : Files m),
        save files path (attempt.system.report path) = do
          match ← files.write path saved with
          | .error f => return .error (.file f)
          | .ok () => return .ok saved) ∧
      Splits saved (Report.header :: List.ofFn fun k =>
        [(names.get k).toList, Complex.partText (x.toVector.get k).re,
          Complex.partText (x.toVector.get k).im,
          Complex.partText (x.toVector.get k).magnitude]) := by
  obtain ⟨written, hwritten, hunknowns⟩ := exists_givenNames htask
  have hsound := (LinearSystem.fresh_of_ofTask htask).sound
  obtain rfl : attempt = (s.after calls).call c := by
    rcases hattempt with h | h
    · exact h
    · exact h.trans (((hsound.after calls).configured c).solve_eq c.elapsed)
  obtain ⟨hresult, hnames, hsize⟩ := kept_of_call hx
  have hlength : s.unknowns.length = x.toList.length := hsound.names.trans hsize.symm
  obtain ⟨saved, htable, hsplits⟩ := splits_table hlength (by
    rw [hunknowns]
    exact isField_givenNames hwritten _)
  have hreport : ((s.after calls).call c).system.report path = .ok saved := by
    unfold LinearSystem.report
    rw [hresult, hnames, ofFileName_tabs hpath]
    exact htable
  refine ⟨written, ⟨s.unknowns.toArray, hlength⟩, saved, hwritten, ?_, fun m _ files => ?_, ?_⟩
  · rw [← hsize] at hunknowns
    exact hunknowns
  · rw [hreport]
    rfl
  · have hrows : List.zipWith Report.fields s.unknowns x.toList = List.ofFn fun k =>
        Report.fields ((⟨s.unknowns.toArray, hlength⟩ : Vector String x.size).get k)
          (x.toVector.get k) :=
      List.ext_getElem (by simp [hlength]) (by simp [Vector.get])
    rw [hrows] at hsplits
    exact hsplits

/-! ## A task with odd names -/

/-- A quote, a bar, a blank that is no space and what looks like a comment in the names. -/
def oddTask : String :=
  "system\nunknowns: \"a|b, u\u00a0v//\nrow0: 0, 2\nrow1: 4, 1i\nfree_terms: 1, -0.5"

def oddDocument : Document String :=
  .mk [("system", .mk [("unknowns", some ["\"a|b", "u\u00a0v//"]), ("row0", some ["0", "2"]),
    ("row1", some ["4", "1i"]), ("free_terms", some ["1", "-0.5"])])]

def tokenNumber (token : String) : Complex := (tokenValue token).asComplex?.getD 0

def oddTable : Table Complex 2 2 :=
  #v[#v[tokenNumber "0", tokenNumber "2"], #v[tokenNumber "4", tokenNumber "1i"]]

def oddSystem : LinearSystem where
  coefficients := ⟨2, 2, oddTable⟩
  terms := #[tokenNumber "1", tokenNumber "-0.5"]
  unknowns := ["\"a|b", "u\u00a0v//"]
  config := {}

theorem parseTokens_oddTask : Document.parseTokens oddTask = .ok oddDocument := by decide +kernel

theorem coefficients_oddDocument :
    coefficients ((oddDocument.mapValues tokenValue).sectionOf "system") =
      .ok ⟨2, 2, oddTable⟩ := by
  have hrows : sectionRows ((oddDocument.mapValues tokenValue).sectionOf "system") =
      .ok (numberedRows oddTable) := rfl
  unfold coefficients
  rw [hrows]
  show gridOfSorted (sortRows (numberedRows oddTable)) = _
  rw [sortRows_numberedRows, gridOfSorted_numberedRows (by decide) (by decide)]

theorem ofTask_oddTask : LinearSystem.ofTask oddTask = .ok oddSystem := by
  have hconfig : Config.ofSection ((oddDocument.mapValues tokenValue).sectionOf "solver") =
      .ok {} := by decide +kernel
  have hlevel : ({} : Config).level = .ok (some .info) := by decide +kernel
  have hterms : LinearSystem.freeTerms ((oddDocument.mapValues tokenValue).sectionOf "system") =
      .ok [tokenNumber "1", tokenNumber "-0.5"] := rfl
  have hdocument : LinearSystem.ofDocument
      ((oddDocument.mapValues tokenValue).applyTemplate taskTemplate) = .ok oddSystem := by
    rw [ofDocument_taskTemplate, hconfig]
    simp only [Except.mapError, bind, Except.bind, LinearSystem.ofSystemSection,
      coefficients_oddDocument, hterms, LinearSystem.new, hlevel]
    rfl
  exact LinearSystem.ofTask_eq parseTokens_oddTask hdocument

/-- The rows are exchanged for the first pivot; the result goes to a file with `.csv` inside its
name. -/
theorem saved_table_splits_odd :
    LinearSystem.ofTask oddTask = .ok oddSystem ∧
    ∃ (x : Array Complex) (names : Vector String x.size) (saved : String),
      (oddSystem.solve 0).outcome = .ok x ∧
      names.toList = ["\"a|b", "u\u00a0v//"] ∧
      (∀ (m : Type → Type) [Monad m] (files : Files m),
        save files "a.csv.txt" ((oddSystem.solve 0).system.report "a.csv.txt") = do
          match ← files.write "a.csv.txt" saved with
          | .error f => return .error (.file f)
          | .ok () => return .ok saved) ∧
      Splits saved (Report.header :: List.ofFn fun k =>
        [(names.get k).toList, Complex.partText (x.toVector.get k).re,
          Complex.partText (x.toVector.get k).im,
          Complex.partText (x.toVector.get k).magnitude]) := by
  have hpath : ¬ ".csv".toList <:+ "a.csv.txt".toList := by decide
  obtain ⟨x, hx⟩ := exists_of_isOk
    (show (oddSystem.solve 0).outcome.isOk = true by decide +kernel)
  obtain ⟨written, names, saved, hwritten, hnames, hsave, hsplits⟩ :=
    saved_table_splits ofTask_oddTask [] ⟨.numeric, false, 0⟩ (.inr rfl) hx hpath
  cases parseTokens_oddTask.symm.trans hwritten
  exact ⟨ofTask_oddTask, x, names, saved, hx, hnames, hsave, hsplits⟩

end Pivotal.Linear
