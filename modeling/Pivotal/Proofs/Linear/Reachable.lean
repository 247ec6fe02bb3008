import Pivotal.Proofs.Linear.History

/-!
# What holds of a system in every state

However a system was built, and whatever was done to it since, its dimensions fit, every unknown
has a name and its log level is known, since each operation keeps this (`Keeps`).  So a solve gives
a value for each unknown or names a row without a pivot, its residual is always defined, and there
is something to save as soon as a solve has succeeded (`reachable_sound`).
-/

namespace Pivotal.Linear

open Diagnostics (residualNorm?)

/-- The states that the operations of a system lead to.  The flag says whether a solve has succeeded
on the way. -/
inductive Reachable : Bool → LinearSystem → Prop
  | built {s : LinearSystem} (h : Built s) : Reachable false s
  /-- A renaming that is refused leaves the system as it was. -/
  | setUnknowns {solved : Bool} {s : LinearSystem} (h : Reachable solved s) (names : List String) :
      Reachable solved ((s.setUnknowns names).toOption.getD s)
  | solver {solved : Bool} {s : LinearSystem} (h : Reachable solved s) (elapsed : Float) :
      Reachable (solved || (s.solver elapsed).outcome.isOk) (s.solver elapsed).system
  | solve {solved : Bool} {s : LinearSystem} (h : Reachable solved s) (elapsed : Float) :
      Reachable (solved || (s.solve elapsed).outcome.isOk) (s.solve elapsed).system

/-- What every operation keeps: the system is sound, and it has a solution, with a value for each
unknown, exactly when a solve has succeeded. -/
structure Keeps (solved : Bool) (n : Nat) (s : LinearSystem) : Prop where
  sound : s.Sound n
  solved_eq : s.result.isSome = solved
  result : ∀ x, s.result = some x → x.size = n

/-- A solve is a call that assigns what is there. -/
theorem solver_eq_call (s : LinearSystem) (elapsed : Float) :
    s.solver elapsed = s.call ⟨s.config.method, s.config.ignoreIdentities, elapsed⟩ := rfl

theorem LinearSystem.Sound.solve_eq {s : LinearSystem} {n : Nat} (h : s.Sound n) (elapsed : Float) :
    s.solve elapsed = s.solver elapsed := by
  obtain ⟨l, hl⟩ := h.level
  unfold LinearSystem.solve
  rw [hl]

theorem LinearSystem.Sound.configured {s : LinearSystem} {n : Nat} (h : s.Sound n) (c : Call) :
    (s.configured c).Sound n :=
  ⟨h.size, h.names, h.level⟩

theorem LinearSystem.Sound.call {s : LinearSystem} {n : Nat} (h : s.Sound n) (c : Call) :
    (s.call c).system.Sound n := by
  cases hanswer : answer s.coefficients s.terms c with
  | error f =>
    rw [call_of_error hanswer]
    exact ⟨h.size, h.names, h.level⟩
  | ok x =>
    obtain ⟨r, -, hcall⟩ := call_of_ok hanswer
    rw [hcall]
    exact ⟨h.size, h.names, h.level⟩

theorem LinearSystem.Sound.after {s : LinearSystem} {n : Nat} (h : s.Sound n) (calls : List Call) :
    (s.after calls).Sound n :=
  List.foldlRecOn (motive := fun t : LinearSystem => t.Sound n) calls _ h fun _ ht c _ => ht.call c

namespace Keeps

variable {solved : Bool} {n : Nat} {s : LinearSystem}

theorem of_built (h : Built s) : Keeps false s.terms.size s := by
  have hfresh := h.fresh
  refine ⟨hfresh.sound, by rw [hfresh.result]; rfl, ?_⟩
  intro x hx
  rw [hfresh.result] at hx
  cases hx

theorem setUnknowns (h : Keeps solved n s) (names : List String) :
    Keeps solved n ((s.setUnknowns names).toOption.getD s) := by
  cases hrenamed : s.setUnknowns names with
  | error f => exact h
  | ok s' =>
    obtain ⟨hlength, rfl⟩ := LinearSystem.setUnknowns_eq_ok_iff.mp hrenamed
    have hnames : names.length = n := hlength.trans h.sound.size.terms
    exact ⟨⟨h.sound.size, hnames, h.sound.level⟩, h.solved_eq, h.result⟩

theorem solver (h : Keeps solved n s) (elapsed : Float) :
    Keeps (solved || (s.solver elapsed).outcome.isOk) n (s.solver elapsed).system := by
  rw [solver_eq_call]
  generalize hc : Call.mk s.config.method s.config.ignoreIdentities elapsed = c
  have hsound := h.sound.call c
  cases hanswer : answer s.coefficients s.terms c with
  | error f =>
    rw [call_of_error hanswer] at hsound ⊢
    exact ⟨hsound, h.solved_eq.trans (Bool.or_false solved).symm, h.result⟩
  | ok x =>
    obtain ⟨r, -, hcall⟩ := call_of_ok hanswer
    rw [hcall] at hsound ⊢
    refine ⟨hsound, (Bool.or_true solved).symm, ?_⟩
    intro y hy
    cases hy
    exact (hasSize_of_answer hanswer).terms.symm.trans h.sound.size.terms

theorem solve (h : Keeps solved n s) (elapsed : Float) :
    Keeps (solved || (s.solve elapsed).outcome.isOk) n (s.solve elapsed).system := by
  rw [h.sound.solve_eq]
  exact h.solver elapsed

end Keeps

theorem Reachable.keeps {solved : Bool} {s : LinearSystem} (h : Reachable solved s) :
    ∃ n, Keeps solved n s := by
  induction h with
  | built h => exact ⟨_, .of_built h⟩
  | setUnknowns _ names ih =>
    obtain ⟨n, hn⟩ := ih
    exact ⟨n, hn.setUnknowns names⟩
  | solver _ elapsed ih =>
    obtain ⟨n, hn⟩ := ih
    exact ⟨n, hn.solver elapsed⟩
  | solve _ elapsed ih =>
    obtain ⟨n, hn⟩ := ih
    exact ⟨n, hn.solve elapsed⟩

/-! ## What follows from it -/

/-- The outcome of a solve with `n` unknowns: `n` values, or a row below `n` without a pivot. -/
def IsOutcome (n : Nat) (outcome : Except Refusal (Array Complex)) : Prop :=
  (∃ x, outcome = .ok x ∧ x.size = n) ∨
    ∃ row, row < n ∧ outcome = .error (.unsolvable (.singular row))

theorem LinearSystem.Sound.isOutcome_solver {s : LinearSystem} {n : Nat} (h : s.Sound n)
    (elapsed : Float) : IsOutcome n (s.solver elapsed).outcome := by
  rw [solver_eq_call, outcome_call]
  rcases answer_cases h.size _ with ⟨x, hx⟩ | ⟨row, hrow, herror⟩
  · rw [hx]
    refine .inl ⟨x, rfl, ?_⟩
    exact (hasSize_of_answer hx).terms.symm.trans h.size.terms
  · rw [herror]
    exact .inr ⟨row, hrow, rfl⟩

theorem Keeps.report {solved : Bool} {n : Nat} {s : LinearSystem} (h : Keeps solved n s)
    (path : String) :
    if solved then ∃ text, s.report path = .ok text else s.report path = .error .notSolved := by
  unfold LinearSystem.report
  cases hresult : s.result with
  | none =>
    rw [← h.solved_eq, hresult]
    rfl
  | some x =>
    rw [← h.solved_eq, hresult]
    have hnames : s.unknowns.length = x.toList.length :=
      h.sound.names.trans (h.result x hresult).symm
    exact ⟨_, if_pos hnames⟩

/-- **What holds of a system in every state.** -/
theorem reachable_sound {solved : Bool} {s : LinearSystem} (h : Reachable solved s) :
    ∃ n, s.Sound n ∧
      (∀ elapsed, IsOutcome n (s.solver elapsed).outcome ∧ IsOutcome n (s.solve elapsed).outcome) ∧
      (∀ x : Array Complex, x.size = n → ∃ r, residualNorm? s.coefficients x s.terms = some r) ∧
      ∀ (m : Type → Type) [Monad m] (files : Files m) (path : String),
        if solved then
          ∃ text, save files path (s.report path) = do
            match ← files.write path text with
            | .error f => return .error (.file f)
            | .ok () => return .ok text
        else save files path (s.report path) = pure (.error (.report .notSolved)) := by
  obtain ⟨n, hkeeps⟩ := h.keeps
  have hsound := hkeeps.sound
  refine ⟨n, hsound, fun elapsed => ?_, fun x hx => ?_, fun m _ files path => ?_⟩
  · rw [hsound.solve_eq]
    exact ⟨hsound.isOutcome_solver elapsed, hsound.isOutcome_solver elapsed⟩
  · subst hx
    exact exists_residual hsound.size
  · have hreport := hkeeps.report path
    cases solved with
    | false =>
      have herror : s.report path = .error .notSolved := hreport
      rw [herror]
      rfl
    | true =>
      obtain ⟨text, htext⟩ : ∃ text, s.report path = .ok text := hreport
      refine ⟨text, ?_⟩
      rw [htext]
      rfl

/-- A zero where the first pivot should stand, an infinite coefficient and a free term that is no
number; a renaming is refused before the system is solved. -/
theorem reachable_sound_infinite :
    ∃ s, Reachable true s ∧ ∃ n, s.Sound n ∧
      (∀ elapsed, IsOutcome n (s.solver elapsed).outcome ∧ IsOutcome n (s.solve elapsed).outcome) ∧
      (∀ x : Array Complex, x.size = n → ∃ r, residualNorm? s.coefficients x s.terms = some r) ∧
      ∀ (m : Type → Type) [Monad m] (files : Files m) (path : String),
        ∃ text, save files path (s.report path) = do
          match ← files.write path text with
          | .error f => return .error (.file f)
          | .ok () => return .ok text := by
  let s : LinearSystem :=
    { coefficients := ⟨2, 2, #v[#v[0, ⟨1 / 0, 0⟩], #v[1, 0]]⟩
      terms := #[1, ⟨0 / 0, 2⟩]
      unknowns := ["x0", "x1"]
      config := { logLevel := none } }
  have hnew : LinearSystem.new s.coefficients s.terms s.config = .ok s := rfl
  have hrefused : (s.setUnknowns ["u"]).toOption.getD s = s := rfl
  have hsolved : (s.solver 0).outcome.isOk = true := by decide +kernel
  have hrenamed := (Reachable.built (.parts hnew)).setUnknowns ["u"]
  rw [hrefused] at hrenamed
  have hreachable := hrenamed.solver 0
  rw [hsolved, Bool.false_or] at hreachable
  exact ⟨_, hreachable, reachable_sound hreachable⟩

end Pivotal.Linear
