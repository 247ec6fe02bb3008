import Pivotal.Proofs.Task.Reading

/-!
# Readers of one line

`Repeats item cs xs rest` is a successful repetition as a relation: items are read, each taking
something off the text, until there is none to read.  Invariants of a repetition are inductions on it.

Words, marks and tokens end at a line feed, so a reader of them takes from a text what it takes from
the same text with another line behind it (`LineLocal`).  The ways to put readers together keep this:
one after the other, repeated, and with separators between the items.
-/

namespace Pivotal.Task

variable {α β : Type}

/-! ## Repetition -/

section Repetition

variable {item : Reader α} {cs rest : List Char} {xs : List α}

/-- The items are read one after the other, each taking something off the text, until there is none
to read. -/
inductive Repeats (item : Reader α) : List Char → List α → List Char → Prop
  | stop {cs : List Char} {f : Failure} (hf : item cs = .error f) : Repeats item cs [] cs
  | step {cs rest rest' : List Char} {x : α} {xs : List α} (hx : item cs = .ok (x, rest))
      (hlt : rest.length < cs.length) (hrest : Repeats item rest xs rest') :
      Repeats item cs (x :: xs) rest'

theorem many_eq_ok_iff : many item cs = .ok (xs, rest) ↔ Repeats item cs xs rest := by
  constructor
  · intro h
    fun_induction many item cs generalizing xs rest with
    | case1 cs f hf =>
      cases h
      exact .stop hf
    | case2 cs x rest' hx hlt f hf ih => cases h
    | case3 cs x rest' hx hlt ys rest'' hmany ih =>
      cases h
      exact .step hx hlt (ih hmany)
    | case4 cs x rest' hx hlt => cases h
  · intro h
    induction h with
    | stop hf => exact many_stop hf
    | step hx hlt _ ih => exact many_step hx hlt ih

/-- With items that take something off the text, asking for one is asking for a list that is not
empty. -/
theorem many1_eq_ok_iff
    (hitem : ∀ {cs rest : List Char} {x : α}, item cs = .ok (x, rest) → rest.length < cs.length) :
    many1 item cs = .ok (xs, rest) ↔ xs ≠ [] ∧ Repeats item cs xs rest := by
  constructor
  · intro h
    unfold many1 at h
    split at h
    · cases h
    · next x rest' hx =>
      split at h
      · cases h
      · next ys rest'' hmany =>
        cases h
        exact ⟨List.cons_ne_nil x ys, .step hx (hitem hx) (many_eq_ok_iff.mp hmany)⟩
  · rintro ⟨hne, h⟩
    obtain ⟨x, xs, rfl⟩ := List.exists_cons_of_ne_nil hne
    exact many1_of_many (many_eq_ok_iff.mpr h)

theorem Repeats.error (h : Repeats item cs xs rest) : ∃ f, item rest = .error f := by
  induction h with
  | stop hf => exact ⟨_, hf⟩
  | step _ _ _ ih => exact ih

theorem Repeats.length_le (h : Repeats item cs xs rest) : rest.length ≤ cs.length := by
  induction h with
  | stop _ => exact Nat.le_refl _
  | step _ hlt _ ih => exact Nat.le_trans ih (Nat.le_of_lt hlt)

end Repetition

/-! ## Scans that end with the line -/

theorem takeWhile_next {p : Char → Bool} (hp : p '\n' = false) (cs more : List Char) :
    (cs ++ '\n' :: more).takeWhile p = cs.takeWhile p := by
  induction cs with
  | nil => simp [hp]
  | cons c cs ih => rw [List.cons_append, List.takeWhile_cons, List.takeWhile_cons, ih]

theorem dropWhile_next {p : Char → Bool} (hp : p '\n' = false) (cs more : List Char) :
    (cs ++ '\n' :: more).dropWhile p = cs.dropWhile p ++ '\n' :: more := by
  induction cs with
  | nil => simp [hp]
  | cons c cs ih =>
    rw [List.cons_append, List.dropWhile_cons, List.dropWhile_cons, ih]
    split <;> rfl

theorem skipSpaces_next (cs more : List Char) :
    skipSpaces (cs ++ '\n' :: more) = skipSpaces cs ++ '\n' :: more :=
  dropWhile_next (by decide) cs more

/-! ## Local readers -/

/-- Another line behind the text makes no difference to the reader. -/
structure LineLocal (item : Reader α) : Prop where
  ok : ∀ {cs rest : List Char} {x : α}, item cs = .ok (x, rest) → ∀ more,
    item (cs ++ '\n' :: more) = .ok (x, rest ++ '\n' :: more)
  error : ∀ {cs : List Char} {f : Failure}, item cs = .error f → ∀ more,
    ∃ g, item (cs ++ '\n' :: more) = .error g

theorem lineLocal_readWord : LineLocal readWord where
  ok {cs rest w} h more := by
    cases cs with
    | nil => cases h
    | cons c cs =>
      rw [readWord] at h
      split at h
      · next hc =>
        cases h
        rw [List.cons_append, readWord, if_pos hc, takeWhile_next (by decide),
          dropWhile_next (by decide)]
      · cases h
  error {cs f} h more := by
    cases cs with
    | nil => exact ⟨⟨'\n' :: more, .mark⟩, rfl⟩
    | cons c cs =>
      rw [readWord] at h
      split at h
      · cases h
      · next hc =>
        rw [List.cons_append, readWord, if_neg hc]
        exact ⟨_, rfl⟩

theorem lineLocal_readMark {m : Char} (hm : m ≠ '\n') : LineLocal (readMark m) where
  ok {cs rest u} h more := by
    unfold readMark at h ⊢
    rw [skipSpaces_next]
    split at h
    · cases h
    · next c ds heq =>
      split at h
      · next hc =>
        cases h
        rw [heq, List.cons_append]
        simp only [if_pos hc, skipSpaces_next]
      · cases h
  error {cs f} h more := by
    unfold readMark at h ⊢
    rw [skipSpaces_next]
    split at h
    · next heq =>
      rw [heq, List.nil_append]
      exact ⟨_, if_neg hm.symm⟩
    · next c ds heq =>
      split at h
      · cases h
      · next hc =>
        rw [heq, List.cons_append]
        exact ⟨_, if_neg hc⟩

theorem lineLocal_readToken : LineLocal readToken where
  ok {cs rest t} h more := by
    unfold readToken at h ⊢
    rw [takeWhile_next (by decide), dropWhile_next (by decide)]
    split at h
    · cases h
    · next hne =>
      cases h
      rw [if_neg hne]
  error {cs f} h more := by
    unfold readToken at h ⊢
    rw [takeWhile_next (by decide), dropWhile_next (by decide)]
    split at h
    · next hnil => exact ⟨_, if_pos hnil⟩
    · cases h

section Combined

variable {item : Reader α} {cs rest : List Char}

theorem length_next_iff {more : List Char} :
    (rest ++ '\n' :: more).length < (cs ++ '\n' :: more).length ↔ rest.length < cs.length := by
  rw [List.length_append, List.length_append]
  omega

theorem LineLocal.many (hitem : LineLocal item) : LineLocal (many item) where
  ok {cs rest xs} h more := by
    rw [many_eq_ok_iff] at h ⊢
    induction h with
    | stop hf =>
      obtain ⟨g, hg⟩ := hitem.error hf more
      exact .stop hg
    | step hx hlt _ ih => exact .step (hitem.ok hx more) (length_next_iff.mpr hlt) ih
  error {cs f} h more := by
    fun_induction Task.many item cs generalizing f with
    | case1 cs f hf => cases h
    | case2 cs x rest hx hlt f hf ih =>
      obtain ⟨g, hg⟩ := ih hf
      refine ⟨g, ?_⟩
      rw [Task.many, hitem.ok hx more]
      simp only [if_pos (length_next_iff.mpr hlt), hg]
    | case3 cs x rest hx hlt ys rest' hmany ih => cases h
    | case4 cs x rest hx hlt =>
      refine ⟨⟨cs ++ '\n' :: more, .progress⟩, ?_⟩
      rw [Task.many, hitem.ok hx more]
      simp only [if_neg (mt length_next_iff.mp hlt)]

theorem LineLocal.andThen {first : Reader β} (hfirst : LineLocal first) (hitem : LineLocal item) :
    LineLocal (andThen first item) where
  ok {cs rest x} h more := by
    unfold Task.andThen at h ⊢
    split at h
    · cases h
    · next y rest' hy =>
      rw [hfirst.ok hy more]
      exact hitem.ok h more
  error {cs f} h more := by
    unfold Task.andThen at h ⊢
    split at h
    · next g hg =>
      obtain ⟨g', hg'⟩ := hfirst.error hg more
      exact ⟨g', by rw [hg']⟩
    · next y rest' hy =>
      rw [hfirst.ok hy more]
      exact hitem.error h more

theorem LineLocal.separated {separator : Reader Unit} (hseparator : LineLocal separator)
    (hitem : LineLocal item) : LineLocal (separated separator item) where
  ok {cs rest xs} h more := by
    unfold Task.separated at h ⊢
    split at h
    · next f hf =>
      cases h
      obtain ⟨g, hg⟩ := hitem.error hf more
      rw [hg]
    · next x rest' hx =>
      split at h
      · cases h
      · next ys rest'' hmany =>
        cases h
        rw [hitem.ok hx more]
        simp only [(hseparator.andThen hitem).many.ok hmany more]
  error {cs f} h more := by
    unfold Task.separated at h ⊢
    split at h
    · cases h
    · next x rest' hx =>
      split at h
      · next g hmany =>
        obtain ⟨g', hg'⟩ := (hseparator.andThen hitem).many.error hmany more
        rw [hitem.ok hx more]
        exact ⟨g', by simp only [hg']⟩
      · cases h

end Combined

end Pivotal.Task
