import Mathlib.Data.List.Induction
import Pivotal.Proofs.Linear.Building

/-!
# What a system reports after any history of solves

Each `Call` assigns the method and the flag of a system and solves it.  What a call answers, which
equations it removes and which statistics it collects are functions of the coefficients, the free
terms and the call (`answer`, `removed`, `started`); one call is described by `call_of_error` and
`call_of_ok`.

By induction over the calls, the result and the residual are those of the last call that succeeded
and the formulas those of the last symbolic one (`Remembers`), while a further call answers as if
there had been none before (`AnswersAnew`): `solver_history`.
-/

namespace Pivotal.Linear

open Diagnostics (residualNorm?)

/-- One call of the solver: the method and the flag it is made with, and the time it takes. -/
structure Call where
  method : Method
  ignoreIdentities : Bool
  elapsed : Float

namespace LinearSystem

/-- The system with the method and the flag of a call. -/
def configured (s : LinearSystem) (c : Call) : LinearSystem :=
  { s with config := { s.config with method := c.method, ignoreIdentities := c.ignoreIdentities } }

/-- Assigns the method and the flag, and solves. -/
def call (s : LinearSystem) (c : Call) : Attempt := (s.configured c).solver c.elapsed

/-- The system after one call after the other. -/
def after (s : LinearSystem) (calls : List Call) : LinearSystem :=
  calls.foldl (fun s c => (s.call c).system) s

theorem after_concat (s : LinearSystem) (calls : List Call) (c : Call) :
    s.after (calls ++ [c]) = ((s.after calls).call c).system :=
  List.foldl_concat ..

end LinearSystem

/-! ## What one call does -/

section Call

variable (a : Grid Complex) (b : Array Complex) (c : Call)

/-- The formulas of a system with the cells they read. -/
def formulasOf : Except Fault SymbolicResult :=
  (Elimination.solveConstants a b).outcome.map fun r =>
    ⟨r.formulas.toList, Elimination.constantMemory a b⟩

/-- What a call answers. -/
def answer : Except Fault (Array Complex) :=
  match c.method with
  | .numeric => (Elimination.solve a b c.ignoreIdentities).outcome.map Prod.fst
  | .symbolic => (formulasOf a b).map fun r => r.values.toArray

/-- The equations `0 = 0` that a call leaves out. -/
def removed : List Nat :=
  match c.method with
  | .numeric => if c.ignoreIdentities then Elimination.identityEquations a b else []
  | .symbolic => []

/-- The statistics that a call has collected when its engine has ended. -/
def started : Dict String :=
  match c.method with
  | .numeric => Dict.put ∅ "identity equations removed" (toString (removed a b c).length)
  | .symbolic =>
    match formulasOf a b with
    | .ok r =>
      Dict.put ∅ "largest solution tree, nodes" (toString (LinearSystem.largestFormula r.formulas))
    | .error _ => ∅

/-- The statistics that a solution with this residual adds. -/
def added (residual : Float) : List (String × String) :=
  [("number of equations", toString b.size), ("method", c.method.name),
    ("time elapsed, ms", String.ofList (Decimal.fixedText 3 c.elapsed)),
    ("residual norm", String.ofList (Decimal.fixedScientificText 3 residual))]

/-- The names of the statistics of a call. -/
def statisticNames (method : Method) (succeeded : Bool) : List String :=
  (match method, succeeded with
    | .numeric, _ => ["identity equations removed"]
    | .symbolic, true => ["largest solution tree, nodes"]
    | .symbolic, false => []) ++
  if succeeded then ["number of equations", "method", "time elapsed, ms", "residual norm"] else []

variable {a b c}

/-- A solution has a value for each unknown, and its system is square. -/
theorem hasSize_of_answer {x : Array Complex} (h : answer a b c = .ok x) : HasSize x.size a b := by
  unfold answer at h
  cases hmethod : c.method with
  | numeric =>
    rw [hmethod] at h
    cases hrun : (Elimination.solve a b c.ignoreIdentities).outcome with
    | error f => rw [hrun] at h; cases h
    | ok p =>
      rw [hrun] at h
      cases h
      exact Elimination.hasSize_of_solve hrun
  | symbolic =>
    rw [hmethod] at h
    unfold formulasOf at h
    cases hrun : (Elimination.solveConstants a b).outcome with
    | error f => rw [hrun] at h; cases h
    | ok r =>
      rw [hrun] at h
      cases h
      have hsize : (Expr.values (Elimination.constantMemory a b).read r.formulas.toList).length =
          r.formulas.size := Expr.length_valuesFrom _ _ _
      have hcount := Elimination.hasSize_of_solveConstants hrun
      rw [← hsize] at hcount
      exact hcount

/-- Where there is a value for each unknown of a square system, there is a residual. -/
theorem exists_residual {x : Array Complex} (h : HasSize x.size a b) :
    ∃ r, residualNorm? a x b = some r := by
  unfold residualNorm?
  exact ⟨_, if_pos ⟨h.cols, h.rows.trans h.terms.symm⟩⟩

/-- A square system is solved, or one of its rows has no pivot. -/
theorem answer_cases {n : Nat} (h : HasSize n a b) (c : Call) :
    (∃ x, answer a b c = .ok x) ∨ ∃ row, row < n ∧ answer a b c = .error (.singular row) := by
  unfold answer
  cases c.method with
  | numeric =>
    rcases Elimination.solve_cases h c.ignoreIdentities with ⟨x, g, hok⟩ | ⟨row, hrow, herror⟩
    · rw [hok]
      exact .inl ⟨x, rfl⟩
    · rw [herror]
      exact .inr ⟨row, hrow, rfl⟩
  | symbolic =>
    unfold formulasOf
    rcases Elimination.solveConstants_cases h with ⟨r, hok⟩ | ⟨row, hrow, herror⟩
    · rw [hok]
      exact .inl ⟨_, rfl⟩
    · rw [herror]
      exact .inr ⟨row, hrow, rfl⟩

variable {s : LinearSystem}

theorem call_of_error {f : Fault} (h : answer s.coefficients s.terms c = .error f) :
    s.call c = ⟨.error (.unsolvable f), { s.configured c with
      identities := removed s.coefficients s.terms c
      statistics := started s.coefficients s.terms c }⟩ := by
  obtain ⟨method, ignore, elapsed⟩ := c
  unfold answer at h
  unfold LinearSystem.call LinearSystem.solver LinearSystem.configured
  cases method with
  | numeric =>
    unfold LinearSystem.solveNumeric
    dsimp only at h ⊢
    cases hrun : (Elimination.solve s.coefficients s.terms ignore).outcome with
    | error f' =>
      rw [hrun] at h
      cases h
      rfl
    | ok p => rw [hrun] at h; cases h
  | symbolic =>
    unfold LinearSystem.solveSymbolic started
    unfold formulasOf at h ⊢
    dsimp only at h ⊢
    cases hrun : (Elimination.solveConstants s.coefficients s.terms).outcome with
    | error f' =>
      rw [hrun] at h
      cases h
      rfl
    | ok r => rw [hrun] at h; cases h

/-- A call that succeeds keeps its solution with the residual of it, and its formulas if it is
symbolic. -/
theorem call_of_ok {x : Array Complex} (h : answer s.coefficients s.terms c = .ok x) :
    ∃ r, residualNorm? s.coefficients x s.terms = some r ∧
      s.call c = ⟨.ok x, { s.configured c with
        result := some x
        residual := some r
        symbolicResult := match c.method with
          | .numeric => s.symbolicResult
          | .symbolic => (formulasOf s.coefficients s.terms).toOption
        identities := removed s.coefficients s.terms c
        statistics := (started s.coefficients s.terms c).putAll (added s.terms c r) }⟩ := by
  obtain ⟨r, hr⟩ := exists_residual (hasSize_of_answer h)
  refine ⟨r, hr, ?_⟩
  obtain ⟨method, ignore, elapsed⟩ := c
  unfold answer at h
  unfold LinearSystem.call LinearSystem.solver LinearSystem.configured
  cases method with
  | numeric =>
    unfold LinearSystem.solveNumeric LinearSystem.record
    dsimp only at h ⊢
    cases hrun : (Elimination.solve s.coefficients s.terms ignore).outcome with
    | error f => rw [hrun] at h; cases h
    | ok p =>
      rw [hrun] at h
      cases h
      simp only [hr, Option.getD_some]
      rfl
  | symbolic =>
    unfold LinearSystem.solveSymbolic LinearSystem.record started
    unfold formulasOf at h ⊢
    dsimp only at h ⊢
    cases hrun : (Elimination.solveConstants s.coefficients s.terms).outcome with
    | error f => rw [hrun] at h; cases h
    | ok q =>
      rw [hrun] at h
      cases h
      simp only [hr, Option.getD_some, Except.map, Except.toOption]
      rfl

theorem outcome_call (s : LinearSystem) (c : Call) :
    (s.call c).outcome = (answer s.coefficients s.terms c).mapError .unsolvable := by
  cases h : answer s.coefficients s.terms c with
  | error f => rw [call_of_error h]; rfl
  | ok x =>
    obtain ⟨r, -, hcall⟩ := call_of_ok h
    rw [hcall]
    rfl

/-- Whether a call has formulas is decided by whether it succeeds. -/
theorem keys_started : (started a b c).keys =
    match c.method, (answer a b c).isOk with
    | .numeric, _ => ["identity equations removed"]
    | .symbolic, true => ["largest solution tree, nodes"]
    | .symbolic, false => [] := by
  unfold started answer
  cases c.method with
  | numeric => rfl
  | symbolic =>
    cases formulasOf a b with
    | error f => rfl
    | ok r => rfl

theorem keys_statistics (s : LinearSystem) (c : Call) : (s.call c).system.statistics.keys =
    statisticNames c.method (answer s.coefficients s.terms c).isOk := by
  have hstarted := keys_started (a := s.coefficients) (b := s.terms) (c := c)
  unfold statisticNames
  cases h : answer s.coefficients s.terms c with
  | error f =>
    rw [h] at hstarted
    rw [call_of_error h]
    exact hstarted.trans (List.append_nil _).symm
  | ok x =>
    rw [h] at hstarted
    obtain ⟨r, -, hcall⟩ := call_of_ok h
    rw [hcall]
    show ((started s.coefficients s.terms c).putAll (added s.terms c r)).keys = _
    simp only [added, Dict.putAll, List.foldl_cons, List.foldl_nil, Dict.keys_put, hstarted]
    cases c.method <;> rfl

theorem identities_call (s : LinearSystem) (c : Call) :
    (s.call c).system.identities = removed s.coefficients s.terms c := by
  cases h : answer s.coefficients s.terms c with
  | error f => rw [call_of_error h]
  | ok x =>
    obtain ⟨r, -, hcall⟩ := call_of_ok h
    rw [hcall]

/-- The statistics do not depend on what a system has been through. -/
theorem statistics_congr {t : LinearSystem} (hcoefficients : t.coefficients = s.coefficients)
    (hterms : t.terms = s.terms) (c : Call) :
    (t.call c).system.statistics = (s.call c).system.statistics := by
  have hanswer : answer t.coefficients t.terms c = answer s.coefficients s.terms c := by
    rw [hcoefficients, hterms]
  cases h : answer s.coefficients s.terms c with
  | error f =>
    rw [call_of_error h, call_of_error (hanswer.trans h)]
    show started _ _ c = started _ _ c
    rw [hcoefficients, hterms]
  | ok x =>
    obtain ⟨r, hr, hcall⟩ := call_of_ok h
    obtain ⟨r', hr', hcall'⟩ := call_of_ok (hanswer.trans h)
    rw [hcoefficients, hterms, hr] at hr'
    cases hr'
    rw [hcall, hcall']
    show (started _ _ c).putAll _ = (started _ _ c).putAll _
    rw [hcoefficients, hterms]

end Call

/-! ## Histories -/

/-- The calls that succeed, each with what it answers. -/
def successes (a : Grid Complex) (b : Array Complex) (calls : List Call) :
    List (Call × Array Complex) :=
  calls.filterMap fun c => (answer a b c).toOption.map fun x => (c, x)

theorem successes_concat_error {a : Grid Complex} {b : Array Complex} {c : Call} {f : Fault}
    (calls : List Call) (h : answer a b c = .error f) :
    successes a b (calls ++ [c]) = successes a b calls := by
  simp [successes, h, Except.toOption]

theorem successes_concat_ok {a : Grid Complex} {b : Array Complex} {c : Call} {x : Array Complex}
    (calls : List Call) (h : answer a b c = .ok x) :
    successes a b (calls ++ [c]) = successes a b calls ++ [(c, x)] := by
  simp [successes, h, Except.toOption]

/-- What a system that was `s` holds after calls: the solution and the residual of the last call
that succeeded, and the formulas of the last symbolic one. -/
structure Remembers (s : LinearSystem) (calls : List Call) (t : LinearSystem) : Prop where
  coefficients : t.coefficients = s.coefficients
  terms : t.terms = s.terms
  unknowns : t.unknowns = s.unknowns
  result : match (successes s.coefficients s.terms calls).getLast? with
    | some (_, x) => t.result = some x ∧
        ∃ r, residualNorm? s.coefficients x s.terms = some r ∧ t.residual = some r
    | none => t.result = s.result ∧ t.residual = s.residual
  symbolicResult :
    match ((successes s.coefficients s.terms calls).filter (·.1.method = .symbolic)).getLast? with
    | some (_, x) => ∃ r, formulasOf s.coefficients s.terms = .ok r ∧
        t.symbolicResult = some r ∧ r.values.toArray = x
    | none => t.symbolicResult = s.symbolicResult

/-- A call on `t` answers as it would on `s`, without a trace of what came between. -/
structure AnswersAnew (s t : LinearSystem) (c : Call) : Prop where
  outcome : (t.call c).outcome = (answer s.coefficients s.terms c).mapError .unsolvable
  identities : (t.call c).system.identities = removed s.coefficients s.terms c
  statistics : (t.call c).system.statistics = (s.call c).system.statistics
  statistics_keys : (t.call c).system.statistics.keys =
    statisticNames c.method (answer s.coefficients s.terms c).isOk
  /-- A call that fails leaves everything else as it was. -/
  failure : ∀ f, (t.call c).outcome = .error f → (t.call c).system =
    { t.configured c with
      identities := (t.call c).system.identities
      statistics := (t.call c).system.statistics }

theorem Remembers.call_error {s t : LinearSystem} {calls : List Call} {c : Call} {f : Fault}
    (h : Remembers s calls t) (hc : answer s.coefficients s.terms c = .error f) :
    Remembers s (calls ++ [c]) (t.call c).system := by
  have hcall := call_of_error (s := t) (c := c) (f := f) (by rw [h.coefficients, h.terms, hc])
  rw [hcall]
  refine ⟨h.coefficients, h.terms, h.unknowns, ?_, ?_⟩
  · rw [successes_concat_error calls hc]
    exact h.result
  · rw [successes_concat_error calls hc]
    exact h.symbolicResult

theorem Remembers.call_ok {s t : LinearSystem} {calls : List Call} {c : Call} {x : Array Complex}
    (h : Remembers s calls t) (hc : answer s.coefficients s.terms c = .ok x) :
    Remembers s (calls ++ [c]) (t.call c).system := by
  obtain ⟨r, hr, hcall⟩ :=
    call_of_ok (s := t) (c := c) (x := x) (by rw [h.coefficients, h.terms, hc])
  rw [hcall]
  refine ⟨h.coefficients, h.terms, h.unknowns, ?_, ?_⟩
  · rw [successes_concat_ok calls hc, List.getLast?_concat]
    rw [h.coefficients, h.terms] at hr
    exact ⟨rfl, r, hr, rfl⟩
  · rw [successes_concat_ok calls hc, List.filter_append]
    cases hmethod : c.method with
    | numeric =>
      have hfilter : [(c, x)].filter (·.1.method = .symbolic) = [] := by simp [hmethod]
      rw [hfilter, List.append_nil]
      exact h.symbolicResult
    | symbolic =>
      have hfilter : [(c, x)].filter (·.1.method = .symbolic) = [(c, x)] := by simp [hmethod]
      rw [hfilter, List.getLast?_concat]
      unfold answer at hc
      rw [hmethod] at hc
      rw [h.coefficients, h.terms]
      cases hformulas : formulasOf s.coefficients s.terms with
      | error f => rw [hformulas] at hc; cases hc
      | ok q =>
        rw [hformulas] at hc
        cases hc
        exact ⟨q, rfl, rfl, rfl⟩

theorem remembers_after (s : LinearSystem) (calls : List Call) :
    Remembers s calls (s.after calls) := by
  induction calls using List.reverseRecOn with
  | nil => exact ⟨rfl, rfl, rfl, ⟨rfl, rfl⟩, rfl⟩
  | append_singleton calls c ih =>
    rw [LinearSystem.after_concat]
    cases hc : answer s.coefficients s.terms c with
    | error f => exact ih.call_error hc
    | ok x => exact ih.call_ok hc

theorem answersAnew {s t : LinearSystem} (hcoefficients : t.coefficients = s.coefficients)
    (hterms : t.terms = s.terms) (c : Call) : AnswersAnew s t c := by
  refine ⟨?_, ?_, statistics_congr hcoefficients hterms c, ?_, ?_⟩
  · rw [outcome_call, hcoefficients, hterms]
  · rw [identities_call, hcoefficients, hterms]
  · rw [keys_statistics, hcoefficients, hterms]
  · intro f hf
    cases hc : answer t.coefficients t.terms c with
    | error f' => rw [call_of_error hc]
    | ok x => rw [outcome_call, hc] at hf; cases hf

/-- **What a system reports after any history of solves.**  A system that was just built has nothing
to report. -/
theorem solver_history (s : LinearSystem) (calls : List Call) :
    Remembers s calls (s.after calls) ∧ (∀ c, AnswersAnew s (s.after calls) c) ∧
      (Built s → s.result = none ∧ s.residual = none ∧ s.symbolicResult = none) := by
  have hremembers := remembers_after s calls
  refine ⟨hremembers, fun c => answersAnew hremembers.coefficients hremembers.terms c, ?_⟩
  intro hbuilt
  have hfresh := hbuilt.fresh
  exact ⟨hfresh.result, hfresh.residual, hfresh.symbolicResult⟩

end Pivotal.Linear
