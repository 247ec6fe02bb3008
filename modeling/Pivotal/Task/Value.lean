import Pivotal.Complex.Literal
import Pivotal.Complex.Text

/-!
# Values of a task document

A token is a whole number, a real number, a truth value or a complex number, whichever reads it
first, and a text otherwise.  Every number is a complex number.
-/

namespace Pivotal.Task

/-- A value of a key. -/
inductive Value where
  | text (s : String)
  | real (x : Float)
  | whole (z : Int)
  | truth (b : Bool)
  | complex (z : Complex)

namespace Value

def asText? : Value → Option String
  | .text s => some s
  | _ => none

def asReal? : Value → Option Float
  | .real x => some x
  | .whole z => some (Decimal.ofInt z)
  | _ => none

def asWhole? : Value → Option Int
  | .whole z => some z
  | _ => none

def asTruth? : Value → Option Bool
  | .truth b => some b
  | _ => none

/-- Every numeric value is a complex number. -/
def asComplex? : Value → Option Complex
  | .complex z => some z
  | .real x => some (Complex.ofReal x)
  | .whole z => some (Complex.ofReal (Decimal.ofInt z))
  | _ => none

/-- A value as it is shown. -/
def render : Value → String
  | .text s => s
  | .real x => String.ofList (Complex.partText x)
  | .whole z => String.ofList (Decimal.intText z)
  | .truth b => if b then "true" else "false"
  | .complex z => String.ofList z.full

/-- The truth values, in lower case only. -/
def readTruth? (cs : List Char) : Option Bool :=
  if cs = "true".toList then some true
  else if cs = "false".toList then some false
  else none

/-- The value of a trimmed token. -/
def classifyTrimmed (cs : List Char) : Value :=
  match Decimal.readInt? cs with
  | some z => .whole z
  | none =>
    match Decimal.readFloat? cs with
    | some x => .real x
    | none =>
      match readTruth? cs with
      | some b => .truth b
      | none =>
        match Complex.read? cs with
        | some z => .complex z
        | none => .text (String.ofList cs)

/-- The value of a token. -/
def classify (token : List Char) : Value := classifyTrimmed (Text.trim token)

end Value

end Pivotal.Task
