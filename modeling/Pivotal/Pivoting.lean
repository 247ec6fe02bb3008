/-!
# What elimination asks of its scalars

The engines compute with the four operations of their scalars and ask two questions besides:
whether a value is exactly zero, and whether one value outweighs another.  No law is attached, so
floating-point numbers with NaN and infinities are scalars as much as the elements of a field.
-/

namespace Pivotal

/-- The two questions that choose a pivot. -/
class Pivoting (α : Type u) where
  /-- Whether a value is exactly zero. -/
  isZero : α → Bool
  /-- Whether the first value is strictly larger in magnitude than the second. -/
  outweighs : α → α → Bool

export Pivoting (isZero outweighs)

end Pivotal
