/-!
# Plane rotations

A rotation is kept as its cosine and sine, together with what becomes of the vector it was made
for: the length, with the sign of the entry that stays.
-/

namespace Pivotal.Diagnostics

/-- A rotation and the entry that it leaves of the vector it was made for. -/
structure Rotation where
  cos : Float
  sin : Float
  kept : Float

namespace Rotation

/-- Clears the second entry of `(x, y)`; none when it is zero already. -/
def clearSecond? (x y : Float) : Option Rotation :=
  if y == 0 then none
  else
    let sign : Float := if 0 ≤ x then 1 else -1
    let length := Float.sqrt (x * x + y * y)
    some ⟨x * sign / length, -y / (sign * length), sign * length⟩

/-- Clears the first entry of `(x, y)`; none when it is zero already. -/
def clearFirst? (x y : Float) : Option Rotation :=
  if x == 0 then none
  else
    let sign : Float := if 0 ≤ y then 1 else -1
    let length := Float.sqrt (y * y + x * x)
    some ⟨y * sign / length, x * sign / length, sign * length⟩

end Rotation

end Pivotal.Diagnostics
