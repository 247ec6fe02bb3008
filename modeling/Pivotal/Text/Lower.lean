import Pivotal.Text.LetterCase

/-!
# Lower-case text

Each character is replaced by its lower-case letter.  Two characters need more: the dotted capital
I becomes an i with a combining dot, and a capital sigma at the end of a word becomes a final
sigma.  A sigma ends a word when the nearest character before it that is not passed over is a cased
letter, and the nearest one after it is not.
-/

namespace Pivotal.Text

/-- Whether the first character that is not passed over is a cased letter. -/
def startsCased (cs : List Char) : Bool :=
  match cs.dropWhile isPassedOver with
  | [] => false
  | c :: _ => isCased c

/-- Lower case of one character, given what stands before it (nearest first) and after it. -/
def lowerAt (before : List Char) (c : Char) (after : List Char) : List Char :=
  if c = 'Σ' then (if startsCased before && !startsCased after then ['ς'] else ['σ'])
  else if c = 'İ' then ['i', Char.ofNat 0x307]
  else [lowerChar c]

/-- Lower case of the characters that follow `before` (nearest first). -/
def lowerAfter (before : List Char) : List Char → List Char
  | [] => []
  | c :: cs => lowerAt before c cs ++ lowerAfter (c :: before) cs

/-- A text in lower case. -/
def lower (s : String) : String := String.ofList (lowerAfter [] s.toList)

/-! ## Text in lower case already -/

/-- The small letters of ASCII. -/
def isSmall (c : Char) : Bool := 97 ≤ c.toNat && c.toNat ≤ 122

theorem lowerChar_of_isSmall {c : Char} (hc : isSmall c = true) : lowerChar c = c := by
  have hruns : ∀ r ∈ caseRuns.toList, r.last < 97 ∨ 122 < r.first := by decide +kernel
  have hnone : caseRuns.find? (·.holds c.toNat) = none := by
    rw [Array.find?_eq_none]
    intro r hr hholds
    have hrun := hruns r (Array.mem_toList_iff.mpr hr)
    simp only [isSmall, Bool.and_eq_true, decide_eq_true_eq] at hc
    simp only [CaseRun.holds, Bool.and_eq_true, decide_eq_true_eq] at hholds
    omega
  unfold lowerChar
  rw [hnone]

theorem lowerAfter_of_isSmall {cs : List Char} (h : ∀ c ∈ cs, isSmall c = true)
    (before : List Char) : lowerAfter before cs = cs := by
  induction cs generalizing before with
  | nil => rfl
  | cons c cs ih =>
    have hc := h c List.mem_cons_self
    have hsigma : c ≠ 'Σ' := by
      rintro rfl
      exact absurd hc (by decide)
    have hdotted : c ≠ 'İ' := by
      rintro rfl
      exact absurd hc (by decide)
    rw [lowerAfter, ih fun d hd => h d (List.mem_cons_of_mem c hd), lowerAt, if_neg hsigma,
      if_neg hdotted, lowerChar_of_isSmall hc, List.singleton_append]

theorem lower_of_isSmall {s : String} (h : ∀ c ∈ s.toList, isSmall c = true) : lower s = s := by
  rw [lower, lowerAfter_of_isSmall h, String.ofList_toList]

end Pivotal.Text
