import Pivotal.Elimination.Numeric

/-!
# Elimination with plain indices

`Buffers` holds what a run works on as plain arrays, the two orders as arrays of numbers: nothing in
the type keeps a number within an array.  Each access is checked when it is made, and one that is out
of range ends the run there and then (`Stop.outOfRange`).  The loops are written out entry by entry;
whatever is assigned leads to a new state, and a `Trail` keeps all of them.

* `Trail.retireIdentities`, `Trail.eliminate`, `Trail.substituteBack` and `Buffers.writeSolution?`
  are the four phases of a run;
* `Buffers.run` is the whole run, with the states before the elimination and those from its
  beginning on.
-/

namespace Pivotal.Elimination

variable {α : Type u}

/-! ## Checked access -/

section Arrays

variable {β : Type v}

/-- Replaces one entry. -/
def set? (xs : Array β) (i : Nat) (x : β) : Option (Array β) :=
  if h : i < xs.size then some (xs.set i x h) else none

/-- Exchanges two entries. -/
def swap? (xs : Array β) (i j : Nat) : Option (Array β) :=
  if h : i < xs.size ∧ j < xs.size then some (xs.swap i j h.1 h.2) else none

end Arrays

/-- The numbers from `lo` on, below `hi`. -/
def span (lo hi : Nat) : List Nat := List.range' lo (hi - lo)

/-- The caller's buffers and the two orders, as plain arrays. -/
structure Buffers (α : Type u) where
  coefficients : Array (Array α)
  terms : Array α
  rowOrder : Array Nat
  colOrder : Array Nat
  active : Nat
  notices : List Notice

namespace Buffers

def entry? (m : Buffers α) (i j : Nat) : Option α :=
  (m.rowOrder[i]?).bind fun r => (m.colOrder[j]?).bind fun c => (m.coefficients[r]?).bind (·[c]?)

def term? (m : Buffers α) (i : Nat) : Option α := (m.rowOrder[i]?).bind (m.terms[·]?)

def setEntry? (m : Buffers α) (i j : Nat) (x : α) : Option (Buffers α) :=
  (m.rowOrder[i]?).bind fun r => (m.colOrder[j]?).bind fun c =>
    (m.coefficients[r]?).bind fun row => (set? row c x).bind fun row =>
      (set? m.coefficients r row).map fun coefficients => { m with coefficients }

def setTerm? (m : Buffers α) (i : Nat) (x : α) : Option (Buffers α) :=
  (m.rowOrder[i]?).bind fun r => (set? m.terms r x).map fun terms => { m with terms }

def swapRows? (m : Buffers α) (i j : Nat) : Option (Buffers α) :=
  (swap? m.rowOrder i j).map fun rowOrder => { m with rowOrder }

def swapCols? (m : Buffers α) (i j : Nat) : Option (Buffers α) :=
  (swap? m.colOrder i j).map fun colOrder => { m with colOrder }

def report (m : Buffers α) (e : Notice) : Buffers α := { m with notices := m.notices ++ [e] }

/-- Whether row, column and free term are all exactly zero; what is not needed is not read. -/
def isIdentity? [Pivoting α] (m : Buffers α) (row col : Nat) : Option Bool :=
  (m.terms[row]?).bind fun b =>
    if isZero b then
      (m.coefficients[row]?).bind fun r =>
        if r.all isZero then (m.coefficients.toList.mapM (·[col]?)).map (·.all isZero)
        else some false
    else some false

/-- The caller's row in place `i`, and whether it is an identity equation with the variable there. -/
def identityAt? [Pivoting α] (m : Buffers α) (i : Nat) : Option (Nat × Bool) :=
  (m.rowOrder[i]?).bind fun row => (m.colOrder[i]?).bind fun col =>
    (m.isIdentity? row col).map fun identity => (row, identity)

/-- The first row from place `i` on whose entry in column `i` no other outweighs. -/
def bestRow? [Pivoting α] (m : Buffers α) (i : Nat) : Option Nat :=
  (m.entry? i i).bind fun x =>
    ((span (i + 1) m.active).foldlM (fun (best : Nat × α) j =>
      (m.entry? j i).map fun y => if outweighs y best.2 then (j, y) else best) (i, x)).map Prod.fst

/-- The free terms in the caller's variable order, zero where no active place has the variable. -/
def scattered? [Zero α] (m : Buffers α) : Option (Array α) :=
  (span 0 m.active).foldlM (fun x k =>
    (m.colOrder[k]?).bind fun c => (m.term? k).bind fun y => set? x c y)
    (Array.replicate m.rowOrder.size 0)

/-- Copies the solution over the free terms, which must be as many. -/
def writeSolution? [Zero α] (m : Buffers α) : Option (Buffers α) :=
  m.scattered?.bind fun x => if x.size = m.terms.size then some { m with terms := x } else none

end Buffers

/-! ## Trails -/

/-- The states that a run has gone through. -/
structure Trail (α : Type u) where
  /-- The states before the present one, oldest first. -/
  past : List (Buffers α)
  now : Buffers α

/-- Why a run does not go on. -/
inductive Stop (α : Type u) where
  /-- An index lies outside its array. -/
  | outOfRange
  /-- No pivot at the given step. -/
  | noPivot (row : Nat) (trail : Trail α)

/-- Goes on with what was read, unless an index was out of range. -/
def read {β : Type v} {γ : Type w} (x : Option β) (next : β → Except (Stop α) γ) :
    Except (Stop α) γ :=
  match x with
  | none => .error .outOfRange
  | some y => next y

namespace Trail

def states (t : Trail α) : List (Buffers α) := t.past ++ [t.now]

def push (t : Trail α) (m : Buffers α) : Trail α := ⟨t.past ++ [t.now], m⟩

/-- Goes on in the next state, unless an index was out of range. -/
def write (t : Trail α) (m : Option (Buffers α)) : Except (Stop α) (Trail α) :=
  read m fun m => .ok (t.push m)

/-! ## Identity equations -/

/-- Exchanges place `i` with the last active place, in both orders, and makes that place
inactive. -/
def retire (t : Trail α) (i row : Nat) : Except (Stop α) (Trail α) :=
  match t.now.active with
  | 0 => .error .outOfRange
  | last + 1 => do
    let t := t.push (t.now.report (.identityRetired row))
    let t ← t.write (t.now.swapRows? i last)
    let t ← t.write (t.now.swapCols? i last)
    return t.push { t.now with active := last }

theorem active_retire {t t' : Trail α} {i row : Nat} (h : t.retire i row = .ok t') :
    t'.now.active + 1 = t.now.active := by
  unfold retire at h
  split at h
  · cases h
  · next last hlast =>
    simp only [write, read] at h
    split at h
    · cases h
    · simp only [bind, Except.bind] at h
      split at h
      · cases h
      · cases h
        rw [hlast]
        rfl

/-- Retires every identity equation from place `i` on.  The equation that comes into place `i` is
looked at next. -/
def retireIdentities [Pivoting α] (t : Trail α) (i : Nat) : Except (Stop α) (Trail α) :=
  if i < t.now.active then
    match t.now.identityAt? i with
    | none => .error .outOfRange
    | some (row, true) =>
      match _hretire : t.retire i row with
      | .error e => .error e
      | .ok t' => retireIdentities t' i
    | some (_, false) => retireIdentities t (i + 1)
  else .ok t
termination_by t.now.active - i
decreasing_by
  · have hactive := active_retire _hretire
    omega
  · omega

section

variable [Pivoting α] {t t' : Trail α} {i row : Nat}

theorem retireIdentities_of_identity (hi : i < t.now.active)
    (hat : t.now.identityAt? i = some (row, true)) (hretire : t.retire i row = .ok t') :
    t.retireIdentities i = t'.retireIdentities i := by
  rw [retireIdentities, if_pos hi, hat]
  simp only
  split
  · next e he => rw [hretire] at he; cases he
  · next s hs => rw [hretire] at hs; cases hs; rfl

theorem retireIdentities_of_other (hi : i < t.now.active)
    (hat : t.now.identityAt? i = some (row, false)) :
    t.retireIdentities i = t.retireIdentities (i + 1) := by
  rw [retireIdentities, if_pos hi, hat]

theorem retireIdentities_of_end (hi : ¬i < t.now.active) : t.retireIdentities i = .ok t := by
  rw [retireIdentities, if_neg hi]

end

/-! ## Forward elimination -/

/-- Brings the best row to place `i`, or stops when its entry is zero. -/
def selectPivot [Pivoting α] (t : Trail α) (i : Nat) : Except (Stop α) (Trail α) :=
  read (t.now.bestRow? i) fun best =>
    read (t.now.entry? best i) fun pivot =>
      if isZero pivot then
        read t.now.colOrder[i]? fun col =>
          .error (.noPivot i (t.push (t.now.report (.noPivotForVariable col))))
      else if best = i then .ok t
      else
        read t.now.colOrder[i]? fun col =>
          read t.now.rowOrder[best]? fun chosen =>
            read t.now.rowOrder[i]? fun displaced =>
              let t := t.push (t.now.report (.pivotExchanged col chosen displaced))
              t.write (t.now.swapRows? i best)

/-- Divides row `i` by its pivot, from column `i` on. -/
def normalize [Div α] (t : Trail α) (i : Nat) : Except (Stop α) (Trail α) :=
  read (t.now.entry? i i) fun pivot => do
    let t ← (span i t.now.active).foldlM (fun t col =>
      read (t.now.entry? i col) fun x => t.write (t.now.setEntry? i col (x / pivot))) t
    read (t.now.term? i) fun x => t.write (t.now.setTerm? i (x / pivot))

/-- Subtracts from row `j` the multiple of row `i` that clears column `i`. -/
def reduceRow [Sub α] [Mul α] [Pivoting α] (i : Nat) (t : Trail α) (j : Nat) :
    Except (Stop α) (Trail α) :=
  read (t.now.entry? j i) fun factor =>
    if isZero factor then .ok t
    else do
      let t ← (span (i + 1) t.now.active).foldlM (fun t col =>
        read (t.now.entry? j col) fun x => read (t.now.entry? i col) fun y =>
          t.write (t.now.setEntry? j col (x - factor * y))) t
      read (t.now.term? j) fun x => read (t.now.term? i) fun y =>
        t.write (t.now.setTerm? j (x - factor * y))

/-- Clears column `i` below row `i`. -/
def reduceBelow [Sub α] [Mul α] [Pivoting α] (t : Trail α) (i : Nat) : Except (Stop α) (Trail α) :=
  (span (i + 1) t.now.active).foldlM (reduceRow i) t

def step [Sub α] [Mul α] [Div α] [Pivoting α] (t : Trail α) (i : Nat) :
    Except (Stop α) (Trail α) := do
  let t ← t.selectPivot i
  let t ← t.normalize i
  t.reduceBelow i

def eliminate [Sub α] [Mul α] [Div α] [Pivoting α] (t : Trail α) : Except (Stop α) (Trail α) :=
  (span 0 t.now.active).foldlM step t

/-! ## Back substitution -/

/-- Takes the solved value of place `i` out of the free terms above it, from below upwards. -/
def dischargeAbove [Sub α] [Mul α] (t : Trail α) (i : Nat) : Except (Stop α) (Trail α) :=
  read (t.now.term? i) fun solved =>
    (span 0 i).reverse.foldlM (fun t j =>
      read (t.now.term? j) fun x => read (t.now.entry? j i) fun y =>
        t.write (t.now.setTerm? j (x - y * solved))) t

def substituteBack [Sub α] [Mul α] (t : Trail α) : Except (Stop α) (Trail α) :=
  (span 0 t.now.active).reverse.foldlM dischargeAbove t

/-- Everything from the beginning of the elimination on. -/
def solve [Zero α] [Sub α] [Mul α] [Div α] [Pivoting α] (t : Trail α) :
    Except (Stop α) (Trail α) := do
  let t ← t.eliminate
  let t ← t.substituteBack
  t.write t.now.writeSolution?

end Trail

/-! ## The run -/

/-- A run that came to its end. -/
structure Course (α : Type u) where
  /-- Until the elimination begins. -/
  setup : Trail α
  /-- From the beginning of the elimination on. -/
  elimination : Trail α
  outcome : Except Fault Unit

/-- The run from a state; none if an index was out of range. -/
def Buffers.run [Zero α] [Sub α] [Mul α] [Div α] [Pivoting α] (m : Buffers α)
    (ignoreIdentities : Bool) : Option (Course α) :=
  match if ignoreIdentities then Trail.retireIdentities ⟨[], m⟩ 0 else .ok ⟨[], m⟩ with
  | .error _ => none
  | .ok setup =>
    match Trail.solve ⟨[], setup.now⟩ with
    | .error .outOfRange => none
    | .error (.noPivot row elimination) => some ⟨setup, elimination, .error (.singular row)⟩
    | .ok elimination => some ⟨setup, elimination, .ok ()⟩

/-- The caller's buffers before a run. -/
def Buffers.ofSystem {n : Nat} (coefficients : Table α n n) (terms : Vector α n) : Buffers α where
  coefficients := (coefficients.map Vector.toArray).toArray
  terms := terms.toArray
  rowOrder := Array.range n
  colOrder := Array.range n
  active := n
  notices := []

end Pivotal.Elimination
