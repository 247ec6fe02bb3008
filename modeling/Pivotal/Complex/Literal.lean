import Pivotal.Complex.Basic
import Pivotal.Decimal.Literal
import Pivotal.Text.Blank

/-!
# Complex literals

`3`, `-2.5`, `1e-3`, `i`, `-i`, `4j`, `1+2i`, `2.5e-3-1e2i`.  Blanks anywhere are ignored.  A
literal that ends in `i` or `j` has an imaginary part, which starts at the last sign that is not the
first character and not the sign of an exponent; a bare sign stands for one.
-/

namespace Pivotal.Complex

def isSign (c : Char) : Bool := c = '+' || c = '-'

def isExponentMark (c : Char) : Bool := c = 'e' || c = 'E'

/-- Cuts before the last sign that follows a character other than an exponent mark. -/
def splitAtSign? : List Char → Option (List Char × List Char)
  | [] => none
  | c :: cs =>
    match splitAtSign? cs with
    | some (front, back) => some (c :: front, back)
    | none =>
      match cs with
      | [] => none
      | s :: _ => if isSign s && !isExponentMark c then some ([c], cs) else none

/-- The factor of the imaginary unit: nothing or a bare sign stands for one. -/
def readFactor? (cs : List Char) : Option Float :=
  if cs = [] ∨ cs = ['+'] then some 1
  else if cs = ['-'] then some (-1)
  else Decimal.readFloat? cs

/-- A literal from which the blanks and the imaginary unit have been taken. -/
def readParts? (body : List Char) : Option Complex :=
  match splitAtSign? body with
  | some (front, back) =>
    (Decimal.readFloat? front).bind fun re => (readFactor? back).map fun im => ⟨re, im⟩
  | none => (readFactor? body).map fun im => ⟨0, im⟩

/-- The complex number written by a literal. -/
def read? (text : List Char) : Option Complex :=
  let cs := text.filter fun c => !Text.isBlank c
  if cs.getLast? = some 'i' ∨ cs.getLast? = some 'j' then readParts? cs.dropLast
  else (Decimal.readFloat? cs).map ofReal

end Pivotal.Complex
