import Pivotal.Complex.Basic

/-!
# Reflections

A reflection has a unit axis `a` and a phase `s`, and sends a vector `x` to `s (x - 2 ⟨a, x⟩ a)`.
For every vector of some length there is one that leaves only its first entry, and it changes the
length of no vector.
-/

namespace Pivotal.Diagnostics

/-- The complex conjugate. -/
def conjugate (z : Complex) : Complex := ⟨z.re, -z.im⟩

/-- Both parts times a real number. -/
def scale (k : Float) (z : Complex) : Complex := ⟨k * z.re, k * z.im⟩

/-- Both parts over a real number. -/
def unscale (k : Float) (z : Complex) : Complex := ⟨z.re / k, z.im / k⟩

/-- Magnitude and direction of a number; the direction of zero is one. -/
def polar (z : Complex) : Float × Complex :=
  let m := z.magnitude
  if m == 0 then (0, 1) else (m, unscale m z)

/-- Squared length of a vector. -/
def lengthSq (v : List Complex) : Float := v.foldl (fun s z => s + z.normSq) 0

/-- A unit axis and the phase of the reflected vectors. -/
structure Reflection where
  axis : List Complex
  phase : Complex

namespace Reflection

/-- Reflects the entry `z` of a vector whose inner product with the axis is `w`, where `a` is the
axis's own entry there.  The three factors of the correction are multiplied in the order of the
axis or in that of the vector, which decides the last bit. -/
def entry (r : Reflection) (axisFirst : Bool) (w a z : Complex) : Complex :=
  let twice := scale (-2) r.phase
  (if axisFirst then twice * a * w else w * twice * a) + r.phase * z

/-- The reflected vector. -/
def along (r : Reflection) (axisFirst : Bool) (x : List Complex) : List Complex :=
  let w := (List.zipWith (fun a z => conjugate a * z) r.axis x).foldl (· + ·) 0
  List.zipWith (r.entry axisFirst w) r.axis x

/-- Reflects the vectors that run across the given lines, one entry in each line. -/
def across (r : Reflection) (axisFirst : Bool) (lines : List (List Complex)) :
    List (List Complex) :=
  let products := List.zipWith (fun a line => line.map (conjugate a * ·)) r.axis lines
  let ws := products.foldl (List.zipWith (· + ·)) ((lines.headD []).map fun _ => 0)
  List.zipWith (fun a line => List.zipWith (fun w z => r.entry axisFirst w a z) ws line) r.axis
    lines

theorem length_across_le (r : Reflection) (axisFirst : Bool) (lines : List (List Complex)) :
    (r.across axisFirst lines).length ≤ lines.length := by
  simp only [across, List.length_zipWith]
  exact Nat.min_le_right _ _

/-- What a vector's first entry becomes, and the reflection that leaves only this entry: none when
the vector has no length. -/
def clearing : List Complex → Complex × Option Reflection
  | [] => (0, none)
  | x :: rest =>
    let sq := lengthSq (x :: rest)
    let length := Float.sqrt sq
    let (m, direction) := polar x
    let head := scale length direction
    let factor := (sq + m * length) * 2
    if factor == 0 then (head, none)
    else
      let raw := ((x + head) :: rest).map (unscale (Float.sqrt factor))
      let axis := raw.map (unscale (Float.sqrt (lengthSq raw)))
      (-head, some ⟨axis, conjugate (polar (-head)).2⟩)

end Reflection

end Pivotal.Diagnostics
