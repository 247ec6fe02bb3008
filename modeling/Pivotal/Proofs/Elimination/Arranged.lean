import Pivotal.Elimination.Numeric
import Pivotal.Proofs.Table

/-!
# Elimination with rows and columns moved physically

`Arranged` is the plain form of the elimination: equations and variables are moved, and each carries
along which of the caller's equations or variables it is.  No entry is looked up through an order,
and the loops run on the leading block as it stands.

* `retireIdentities` moves each equation `0 = 0` with its variable behind the active block;
* `step` moves the pivot row up, divides it, and subtracts it from the active rows below;
* `substituteBack` and `scatter` give each of the caller's variables its value;
* `restored` is the table with both arrangements undone.
-/

namespace Pivotal.Elimination

variable {α : Type u} {n : Nat}

/-- A system whose equations and variables stand in their places. -/
structure Arranged (α : Type u) (n : Nat) where
  coefficients : Table α n n
  terms : Vector α n
  /-- The caller's equation in each place. -/
  equations : Equiv.Perm (Fin n)
  /-- The caller's variable in each place. -/
  unknowns : Equiv.Perm (Fin n)
  /-- Size of the leading block that takes part in the elimination. -/
  active : Nat
  active_le : active ≤ n

namespace Arranged

/-- The system as the caller arranged it, all equations active. -/
def ofSystem (coefficients : Table α n n) (terms : Vector α n) : Arranged α n where
  coefficients
  terms
  equations := 1
  unknowns := 1
  active := n
  active_le := Nat.le_refl n

def entry (s : Arranged α n) (i j : Fin n) : α := (s.coefficients.get i).get j

def term (s : Arranged α n) (i : Fin n) : α := s.terms.get i

/-- The places of the leading block from `lo` on, in increasing order. -/
def places (s : Arranged α n) (lo : Nat) : List (Fin n) :=
  (List.finRange n).filter fun k => lo ≤ k.val && k.val < s.active

/-! ## Moving rows and columns -/

/-- Exchanges two equations: whole rows and free terms. -/
def swapRows (s : Arranged α n) (i j : Fin n) : Arranged α n :=
  { s with
    coefficients := s.coefficients.swap i j i.isLt j.isLt
    terms := s.terms.swap i j i.isLt j.isLt
    equations := (Equiv.swap i j).trans s.equations }

/-- Exchanges two variables: whole columns. -/
def swapColumns (s : Arranged α n) (i j : Fin n) : Arranged α n :=
  { s with
    coefficients := s.coefficients.map fun row => row.swap i j i.isLt j.isLt
    unknowns := (Equiv.swap i j).trans s.unknowns }

/-- Moves equation and variable in place `i` to the last active place, and shrinks the block. -/
def retire (s : Arranged α n) (i : Nat) (h : i < s.active) : Arranged α n :=
  have hle := s.active_le
  let place : Fin n := ⟨i, by omega⟩
  let last : Fin n := ⟨s.active - 1, by omega⟩
  { (s.swapRows place last).swapColumns place last with
    active := s.active - 1
    active_le := by omega }

/-- Retires every identity equation from place `i` on; what comes into place `i` is looked at
next. -/
def retireIdentities [Pivoting α] (s : Arranged α n) (i : Nat) : Arranged α n :=
  if h : i < s.active then
    let place : Fin n := ⟨i, Nat.lt_of_lt_of_le h s.active_le⟩
    if isIdentity s.coefficients (s.term place) place place then
      retireIdentities (s.retire i h) i
    else retireIdentities s (i + 1)
  else s
termination_by s.active - i
decreasing_by
  · simp only [retire]
    omega
  · omega

/-- The arrangement a run starts from. -/
def start [Pivoting α] (coefficients : Table α n n) (terms : Vector α n)
    (ignoreIdentities : Bool) : Arranged α n :=
  let s := ofSystem coefficients terms
  if ignoreIdentities then s.retireIdentities 0 else s

/-! ## The loops -/

/-- The first active row from place `i` on whose entry in column `i` no other outweighs. -/
def bestRow [Pivoting α] (s : Arranged α n) (i : Fin n) : Fin n :=
  (s.places (i.val + 1)).foldl
    (fun best j => if outweighs (s.entry j i) (s.entry best i) then j else best) i

/-- Divides row `i` by its diagonal entry, from the diagonal on. -/
def normalize [Div α] (s : Arranged α n) (i : Fin n) : Arranged α n :=
  let pivot := s.entry i i
  { s with
    coefficients := put s.coefficients i
      ((s.places i.val).foldl (fun row k => put row k (row.get k / pivot)) (s.coefficients.get i))
    terms := put s.terms i (s.term i / pivot) }

/-- Subtracts from row `j` the multiple of row `i` that clears column `i`, right of that column. -/
def reduceRow [Sub α] [Mul α] [Pivoting α] (s : Arranged α n) (i j : Fin n) : Arranged α n :=
  let factor := s.entry j i
  if isZero factor then s
  else
    { s with
      coefficients := put s.coefficients j
        ((s.places (i.val + 1)).foldl (fun row k => put row k (row.get k - factor * s.entry i k))
          (s.coefficients.get j))
      terms := put s.terms j (s.term j - factor * s.term i) }

def reduceBelow [Sub α] [Mul α] [Pivoting α] (s : Arranged α n) (i : Fin n) : Arranged α n :=
  (s.places (i.val + 1)).foldl (fun s j => s.reduceRow i j) s

/-- One step: moves the pivot row to place `i` and clears column `i` below it.  Without a pivot it
breaks off, with its place and the system as it stands. -/
def step [Sub α] [Mul α] [Div α] [Pivoting α] (s : Arranged α n) (i : Fin n) :
    Except (Nat × Arranged α n) (Arranged α n) :=
  let best := s.bestRow i
  if isZero (s.entry best i) then .error (i, s)
  else .ok (((s.swapRows i best).normalize i).reduceBelow i)

def eliminate [Sub α] [Mul α] [Div α] [Pivoting α] (s : Arranged α n) :
    Except (Nat × Arranged α n) (Arranged α n) :=
  (s.places 0).foldlM step s

/-- Takes the value in place `i` out of the free terms above it, from below upwards. -/
def dischargeAbove [Sub α] [Mul α] (s : Arranged α n) (i : Fin n) : Arranged α n :=
  let solved := s.term i
  ((List.finRange n).filter (· < i)).reverse.foldl
    (fun s j => { s with terms := put s.terms j (s.term j - s.entry j i * solved) }) s

def substituteBack [Sub α] [Mul α] (s : Arranged α n) : Arranged α n :=
  (s.places 0).reverse.foldl dischargeAbove s

/-- The value of each of the caller's variables, zero for a retired one. -/
def scatter [Zero α] (s : Arranged α n) : Vector α n :=
  (s.places 0).foldl (fun x k => put x (s.unknowns k) (s.term k)) (Vector.replicate n 0)

/-! ## The run -/

/-- The table with both arrangements undone. -/
def restored (s : Arranged α n) : Table α n n :=
  Vector.ofFn fun r => Vector.ofFn fun c => s.entry (s.equations.symm r) (s.unknowns.symm c)

/-- The values of the variables, or the step without a pivot; and the restored table at the end. -/
def solve [Zero α] [Sub α] [Mul α] [Div α] [Pivoting α] (coefficients : Table α n n)
    (terms : Vector α n) (ignoreIdentities : Bool) : Except Nat (Vector α n) × Table α n n :=
  match (start coefficients terms ignoreIdentities).eliminate with
  | .error (row, s) => (.error row, s.restored)
  | .ok s => (.ok s.substituteBack.scatter, s.substituteBack.restored)

/-! ## What each move leaves in each place -/

@[simp] theorem entry_swapRows (s : Arranged α n) (i j r c : Fin n) :
    (s.swapRows i j).entry r c = s.entry (Equiv.swap i j r) c := by
  show ((s.coefficients.swap i j i.isLt j.isLt).get r).get c = _
  rw [get_swap]
  rfl

@[simp] theorem term_swapRows (s : Arranged α n) (i j r : Fin n) :
    (s.swapRows i j).term r = s.term (Equiv.swap i j r) :=
  get_swap s.terms i j r

@[simp] theorem entry_swapColumns (s : Arranged α n) (i j r c : Fin n) :
    (s.swapColumns i j).entry r c = s.entry r (Equiv.swap i j c) := by
  show ((s.coefficients.map fun row : Vector α n => row.swap i j i.isLt j.isLt).get r).get c = _
  rw [Vector.get_map, get_swap]
  rfl

theorem mem_places (s : Arranged α n) (lo : Nat) (k : Fin n) :
    k ∈ s.places lo ↔ lo ≤ k.val ∧ k.val < s.active := by
  simp [places]

theorem nodup_places (s : Arranged α n) (lo : Nat) : (s.places lo).Nodup :=
  (List.nodup_finRange n).filter _

/-- The places of the leading block are the numbers below its size. -/
theorem places_zero (s : Arranged α n) :
    s.places 0 = (List.finRange s.active).map (Fin.castLE s.active_le) := by
  have hleft : (s.places 0).Pairwise (· < ·) := (List.pairwise_lt_finRange n).filter _
  have hright : ((List.finRange s.active).map (Fin.castLE s.active_le)).Pairwise (· < ·) :=
    List.pairwise_map.mpr ((List.pairwise_lt_finRange s.active).imp fun h => h)
  refine List.Perm.eq_of_pairwise (fun i j _ _ hij hji => absurd hij (lt_asymm hji)) hleft hright ?_
  refine (List.perm_ext_iff_of_nodup hleft.nodup hright.nodup).mpr fun k => ?_
  rw [mem_places, List.mem_map]
  constructor
  · rintro ⟨-, hk⟩
    exact ⟨⟨k, hk⟩, List.mem_finRange _, rfl⟩
  · rintro ⟨j, -, rfl⟩
    exact ⟨Nat.zero_le _, j.isLt⟩

theorem eliminate_eq [Sub α] [Mul α] [Div α] [Pivoting α] (s : Arranged α n) :
    s.eliminate =
      (List.finRange s.active).foldlM (fun s' i => s'.step (Fin.castLE s.active_le i)) s := by
  unfold eliminate
  rw [places_zero, List.foldlM_map]

theorem bestRow_mem [Pivoting α] (s : Arranged α n) (i : Fin n) (hi : i.val < s.active) :
    i ≤ s.bestRow i ∧ (s.bestRow i).val < s.active := by
  refine List.foldlRecOn (motive := fun best => i ≤ best ∧ best.val < s.active) _ _
    ⟨le_rfl, hi⟩ fun best hbest j hj => ?_
  obtain ⟨hlo, hact⟩ := (s.mem_places _ j).mp hj
  split
  · exact ⟨Nat.le_of_succ_le hlo, hact⟩
  · exact hbest

/-- A step that goes through moves a row of the block to place `i` and clears column `i`. -/
theorem step_ok [Sub α] [Mul α] [Div α] [Pivoting α] {s s' : Arranged α n} {i : Fin n}
    (h : s.step i = .ok s') : isZero (s.entry (s.bestRow i) i) = false ∧
      s' = ((s.swapRows i (s.bestRow i)).normalize i).reduceBelow i := by
  simp only [step] at h
  by_cases hz : isZero (s.entry (s.bestRow i) i) = true
  · rw [if_pos hz] at h
    cases h
  · rw [if_neg hz] at h
    exact ⟨Bool.eq_false_iff.mpr hz, (Except.ok.inj h).symm⟩

/-- A step that breaks off has found no pivot and changed nothing. -/
theorem step_error [Sub α] [Mul α] [Div α] [Pivoting α] {s : Arranged α n} {i : Fin n}
    {e : Nat × Arranged α n} (h : s.step i = .error e) :
    isZero (s.entry (s.bestRow i) i) = true ∧ e = (i.val, s) := by
  simp only [step] at h
  by_cases hz : isZero (s.entry (s.bestRow i) i) = true
  · rw [if_pos hz] at h
    exact ⟨hz, (Except.error.inj h).symm⟩
  · rw [if_neg hz] at h
    cases h

theorem get_restored (s : Arranged α n) (r c : Fin n) :
    (s.restored.get r).get c = s.entry (s.equations.symm r) (s.unknowns.symm c) := by
  unfold restored
  rw [Vector.get_ofFn, Vector.get_ofFn]

end Arranged

end Pivotal.Elimination
