import Mathlib
import Pivotal.Expr.Count
import Pivotal.Proofs.Expr.Construction

/-!
# Each shared list counted once

As a tree, an expression has a list of operands at every node; `occurrences` names them all, position
by position, and `lists` keeps their identities.  A list adds `weight` to a count: itself and its
leaves.  The tree counts every occurrence (`nodeCount_eq`), and `distinctCount` counts every identity
once, in whatever order the lists are met (`distinctCount_eq`).

While the lists are counted, the ones seen so far need not be counted completely: those above the
present position have only been entered.  `Settled` is what holds at every moment: a list that can
still be met below and was seen has everything under it seen.  A list never stands below itself
(`list_notMem_listsIn`), so the ones that are only entered are not met again.
-/

namespace Pivotal.Expr

/-! ## Lists at the nodes of a tree -/

def isLeaf : Expr → Bool
  | .leaf _ => true
  | .node _ _ _ _ => false

mutual

/-- The lists at the nodes of the tree, from left to right: identity and operands. -/
def occurrences : Expr → List (Nat × List Expr)
  | .leaf _ => []
  | .node _ list _ args => (list, args) :: occurrencesIn args

def occurrencesIn : List Expr → List (Nat × List Expr)
  | [] => []
  | e :: es => occurrences e ++ occurrencesIn es

end

/-- The identities of the lists at the nodes of the tree, one for each position. -/
def lists (e : Expr) : List Nat := e.occurrences.map Prod.fst

def listsIn (es : List Expr) : List Nat := (occurrencesIn es).map Prod.fst

/-- The operands that stand under an identity below `e`. -/
def operands (e : Expr) (list : Nat) : List Expr := (e.occurrences.lookup list).getD []

/-- What a list adds to a count: itself and its leaves. -/
def weight (args : List Expr) : Nat := 1 + args.countP isLeaf

theorem weight_pos (args : List Expr) : 0 < weight args :=
  Nat.lt_add_right _ Nat.one_pos

@[simp] theorem lists_leaf (l : Leaf) : lists (.leaf l) = [] := by
  rw [lists, occurrences, List.map_nil]

@[simp] theorem lists_node (op : Op) (list : Nat) (flag : Bool) (args : List Expr) :
    lists (.node op list flag args) = list :: listsIn args := by
  rw [lists, occurrences, List.map_cons, listsIn]

@[simp] theorem listsIn_nil : listsIn [] = [] := by
  rw [listsIn, occurrencesIn, List.map_nil]

@[simp] theorem listsIn_cons (e : Expr) (es : List Expr) :
    listsIn (e :: es) = lists e ++ listsIn es := by
  rw [listsIn, occurrencesIn, List.map_append, lists, listsIn]

theorem mem_listsIn {es : List Expr} {i : Nat} : i ∈ listsIn es ↔ ∃ e ∈ es, i ∈ lists e := by
  induction es with
  | nil => simp
  | cons e es ih => simp [ih]

theorem nodeCount_le_nodeCountList {e : Expr} {es : List Expr} (he : e ∈ es) :
    nodeCount e ≤ nodeCountList es := by
  induction es with
  | nil => cases he
  | cons e' es ih =>
    rw [nodeCountList]
    rcases List.mem_cons.mp he with rfl | he
    · exact Nat.le_add_right _ _
    · exact (ih he).trans (Nat.le_add_left _ _)

variable {h : Nat → Op × List Expr} {k : Nat} {e : Expr}

theorem Stored.lt_of_mem_lists (hs : Stored h k e) {i : Nat} (hi : i ∈ lists e) : i < k := by
  induction hs with
  | leaf l => simp at hi
  | node hlist _ _ ih =>
    rw [lists_node, List.mem_cons, mem_listsIn] at hi
    rcases hi with rfl | ⟨e, he, hi⟩
    · exact hlist
    · exact ih e he hi

/-- What stands below a list stands below every expression that holds the list. -/
theorem Stored.mem_lists_of_below (hs : Stored h k e) {i j : Nat} (hi : i ∈ lists e)
    (hj : j ∈ listsIn (h i).2) : j ∈ lists e := by
  induction hs with
  | leaf l => simp at hi
  | node _ hentry _ ih =>
    rw [lists_node, List.mem_cons, mem_listsIn] at hi ⊢
    right
    rcases hi with rfl | ⟨e, he, hi⟩
    · rw [hentry] at hj
      exact mem_listsIn.mp hj
    · exact ⟨e, he, ih e he hi⟩

theorem Stored.nodeCountList_lt (hs : Stored h k e) {i : Nat} (hi : i ∈ lists e) :
    nodeCountList (h i).2 < nodeCount e := by
  induction hs with
  | leaf l => simp at hi
  | node _ hentry _ ih =>
    rw [lists_node, List.mem_cons, mem_listsIn] at hi
    rw [nodeCount]
    rcases hi with rfl | ⟨e, he, hi⟩
    · rw [hentry]
      exact Nat.lt_add_of_pos_left Nat.one_pos
    · have hbelow := ih e he hi
      have hle := nodeCount_le_nodeCountList he
      omega

/-- No list stands below itself: it would be larger than it is. -/
theorem list_notMem_listsIn {op : Op} {list : Nat} {args : List Expr} (hentry : h list = (op, args))
    (hargs : ∀ e ∈ args, Stored h k e) : list ∉ listsIn args := by
  intro hmem
  obtain ⟨e, he, hi⟩ := mem_listsIn.mp hmem
  have hbelow : nodeCountList (h list).2 < nodeCount e := (hargs e he).nodeCountList_lt hi
  rw [hentry] at hbelow
  exact absurd (nodeCount_le_nodeCountList he) (Nat.not_le.mpr hbelow)

/-! ## Counting what is unseen -/

/-- Weight of the listed identities that were not seen, each once. -/
def unseenWeight (h : Nat → Op × List Expr) (seen : Std.HashSet Nat) (below : List Nat) : Nat :=
  ∑ i ∈ below.toFinset with i ∉ seen, weight (h i).2

/-- A list that can be met below and was seen has everything under it seen. -/
def Settled (h : Nat → Op × List Expr) (seen : Std.HashSet Nat) (below : List Nat) : Prop :=
  ∀ i ∈ seen, i ∈ below → ∀ j ∈ listsIn (h i).2, j ∈ seen

/-- Counting first what stands in one part, then what is left in the other. -/
theorem unseenWeight_append {seen seen' : Std.HashSet Nat} {l m : List Nat}
    (hseen : ∀ j, j ∈ seen' ↔ j ∈ seen ∨ j ∈ l) :
    unseenWeight h seen (l ++ m) = unseenWeight h seen l + unseenWeight h seen' m := by
  unfold unseenWeight
  rw [← Finset.sum_union]
  · refine Finset.sum_congr ?_ fun _ _ => rfl
    ext j
    simp only [Finset.mem_filter, Finset.mem_union, List.mem_toFinset, List.mem_append, hseen]
    tauto
  · refine Finset.disjoint_left.mpr fun j hj hj' => ?_
    simp only [Finset.mem_filter, List.mem_toFinset, hseen] at hj hj'
    exact hj'.2 (.inr hj.1)

theorem unseenWeight_singleton {seen : Std.HashSet Nat} {i : Nat} (hi : i ∉ seen) :
    unseenWeight h seen [i] = weight (h i).2 := by
  simp [unseenWeight, Finset.filter_singleton, hi]

theorem unseenWeight_of_subset {seen : Std.HashSet Nat} {l : List Nat} (hl : ∀ i ∈ l, i ∈ seen) :
    unseenWeight h seen l = 0 := by
  refine Finset.sum_eq_zero fun i hi => ?_
  simp only [Finset.mem_filter, List.mem_toFinset] at hi
  exact absurd (hl i hi.1) hi.2

/-- What one count adds to the lists seen so far, and what it returns. -/
def Counts (h : Nat → Op × List Expr) (e : Expr) : Prop :=
  ∀ seen, Settled h seen (lists e) →
    (∀ j, j ∈ (countUnseen e seen).2 ↔ j ∈ seen ∨ j ∈ lists e) ∧
    (countUnseen e seen).1 = [e].countP isLeaf + unseenWeight h seen (lists e)

theorem countUnseenList_counts {args : List Expr} (hs : ∀ e ∈ args, Stored h k e)
    (hargs : ∀ e ∈ args, Counts h e) (seen : Std.HashSet Nat)
    (hset : Settled h seen (listsIn args)) :
    (∀ j, j ∈ (countUnseenList args seen).2 ↔ j ∈ seen ∨ j ∈ listsIn args) ∧
      (countUnseenList args seen).1 =
        args.countP isLeaf + unseenWeight h seen (listsIn args) := by
  induction args generalizing seen with
  | nil =>
    rw [countUnseenList, listsIn_nil]
    exact ⟨by simp, rfl⟩
  | cons e es ih =>
    rw [listsIn_cons] at hset ⊢
    obtain ⟨hseen, hcount⟩ := hargs e List.mem_cons_self seen fun i hi hbelow =>
      hset i hi (List.mem_append_left _ hbelow)
    -- The lists of the first operand are seen completely now.
    have hset' : Settled h (countUnseen e seen).2 (listsIn es) := by
      intro i hi hbelow j hj
      rw [hseen] at hi ⊢
      rcases hi with hi | hi
      · exact .inl (hset i hi (List.mem_append_right _ hbelow) j hj)
      · exact .inr ((hs e List.mem_cons_self).mem_lists_of_below hi hj)
    obtain ⟨hseens, hcounts⟩ := ih (fun e' he' => hs e' (List.mem_cons_of_mem e he'))
      (fun e' he' => hargs e' (List.mem_cons_of_mem e he')) _ hset'
    rw [countUnseenList]
    refine ⟨fun j => ?_, ?_⟩
    · show j ∈ (countUnseenList es (countUnseen e seen).2).2 ↔ _
      rw [hseens, hseen, List.mem_append, or_assoc]
    · show (countUnseen e seen).1 + (countUnseenList es (countUnseen e seen).2).1 = _
      rw [hcount, hcounts, unseenWeight_append hseen]
      simp only [List.countP_cons, List.countP_nil]
      omega

theorem countUnseen_counts (hs : Stored h k e) : Counts h e := by
  induction hs with
  | leaf l =>
    intro seen _
    rw [countUnseen, lists_leaf]
    exact ⟨by simp, rfl⟩
  | @node op list flag args _ hentry hargs ih =>
    intro seen hset
    rw [lists_node] at hset ⊢
    rw [countUnseen, show [Expr.node op list flag args].countP isLeaf = 0 from rfl, zero_add]
    by_cases hmem : list ∈ seen
    · -- Seen before, and everything under it.
      have hbelow : ∀ j ∈ list :: listsIn args, j ∈ seen := by
        intro j hj
        rcases List.mem_cons.mp hj with rfl | hj
        · exact hmem
        · exact hset list hmem List.mem_cons_self j (by rw [hentry]; exact hj)
      rw [if_pos (Std.HashSet.contains_iff_mem.mpr hmem), unseenWeight_of_subset hbelow]
      exact ⟨fun j => ⟨.inl, fun hj => hj.elim id (hbelow j)⟩, rfl⟩
    · have hinsert : ∀ j, j ∈ seen.insert list ↔ j ∈ seen ∨ j ∈ [list] := by
        intro j
        rw [Std.HashSet.mem_insert, beq_iff_eq, List.mem_singleton, or_comm, eq_comm]
      -- The list itself is only entered, but it is not met again.
      have hset' : Settled h (seen.insert list) (listsIn args) := by
        intro i hi hbelow j hj
        rw [hinsert] at hi ⊢
        rcases hi with hi | hi
        · exact .inl (hset i hi (List.mem_cons_of_mem _ hbelow) j hj)
        · rw [List.mem_singleton.mp hi] at hbelow
          exact absurd hbelow (list_notMem_listsIn hentry hargs)
      obtain ⟨hseen, hcount⟩ := countUnseenList_counts hargs ih _ hset'
      rw [if_neg (fun hc => hmem (Std.HashSet.contains_iff_mem.mp hc))]
      refine ⟨fun j => ?_, ?_⟩
      · show j ∈ (countUnseenList args (seen.insert list)).2 ↔ _
        rw [hseen, hinsert, or_assoc, ← List.mem_append, List.singleton_append]
      · show 1 + (countUnseenList args (seen.insert list)).1 = _
        rw [hcount, ← List.singleton_append, unseenWeight_append hinsert,
          unseenWeight_singleton hmem, hentry, weight, Nat.add_assoc]

/-- Every list is counted once, with its leaves. -/
theorem Stored.distinctCount_eq (hs : Stored h k e) :
    e.distinctCount = [e].countP isLeaf + ∑ i ∈ e.lists.toFinset, weight (h i).2 := by
  have hempty : ∀ i : Nat, i ∉ (∅ : Std.HashSet Nat) := fun _ => Std.HashSet.not_mem_empty
  have hcount := (countUnseen_counts hs ∅ fun i hi => absurd hi (hempty i)).2
  rw [unseenWeight, Finset.filter_true_of_mem fun i _ => hempty i] at hcount
  exact hcount

/-! ## The tree -/

theorem nodeCountList_eq {args : List Expr} (f : Nat → Nat)
    (hargs : ∀ e ∈ args, e.nodeCount = [e].countP isLeaf + (e.lists.map f).sum) :
    nodeCountList args = args.countP isLeaf + ((listsIn args).map f).sum := by
  induction args with
  | nil => simp [nodeCountList]
  | cons e es ih =>
    rw [nodeCountList, hargs e List.mem_cons_self,
      ih fun e' he' => hargs e' (List.mem_cons_of_mem e he'), listsIn_cons, List.map_append,
      List.sum_append]
    simp only [List.countP_cons, List.countP_nil]
    omega

/-- The tree counts a list at every position. -/
theorem Stored.nodeCount_eq (hs : Stored h k e) :
    e.nodeCount = [e].countP isLeaf + (e.lists.map fun i => weight (h i).2).sum := by
  induction hs with
  | leaf l => simp [nodeCount, isLeaf]
  | @node op list flag args _ hentry _ ih =>
    rw [nodeCount, nodeCountList_eq _ ih, lists_node, List.map_cons, List.sum_cons, hentry, weight,
      show [Expr.node op list flag args].countP isLeaf = 0 from rfl, zero_add, Nat.add_assoc]

/-- Counting each member of a list once gives less than counting all of them, unless no member is
repeated. -/
theorem sum_toFinset_le {f : Nat → Nat} (hf : ∀ i, 0 < f i) (l : List Nat) :
    ∑ i ∈ l.toFinset, f i ≤ (l.map f).sum ∧
      (∑ i ∈ l.toFinset, f i = (l.map f).sum ↔ l.Nodup) := by
  induction l with
  | nil => simp
  | cons i l ih =>
    obtain ⟨hle, heq⟩ := ih
    rw [List.toFinset_cons, List.map_cons, List.sum_cons, List.nodup_cons]
    have hi := hf i
    by_cases hmem : i ∈ l
    · rw [Finset.insert_eq_of_mem (List.mem_toFinset.mpr hmem)]
      exact ⟨by omega, iff_of_false (by omega) fun hn => hn.1 hmem⟩
    · rw [Finset.sum_insert (fun hc => hmem (List.mem_toFinset.mp hc)), Nat.add_left_cancel_iff, heq]
      exact ⟨by omega, (and_iff_right hmem).symm⟩

theorem depthList_le_nodeCountList {args : List Expr}
    (hargs : ∀ e ∈ args, e.depth ≤ e.nodeCount) : depthList args ≤ nodeCountList args := by
  induction args with
  | nil => rfl
  | cons e es ih =>
    have hhead := hargs e List.mem_cons_self
    have htail := ih fun e' he' => hargs e' (List.mem_cons_of_mem e he')
    rw [depthList, nodeCountList]
    omega

theorem Stored.depth_le_nodeCount (hs : Stored h k e) : e.depth ≤ e.nodeCount := by
  induction hs with
  | leaf l => simp [depth, nodeCount]
  | node _ _ _ ih =>
    rw [depth, nodeCount]
    exact Nat.add_le_add_left (depthList_le_nodeCountList ih) 1

theorem mem_occurrencesIn {es : List Expr} {p : Nat × List Expr} :
    p ∈ occurrencesIn es ↔ ∃ e ∈ es, p ∈ occurrences e := by
  induction es with
  | nil => simp [occurrencesIn]
  | cons e es ih => simp [occurrencesIn, ih]

theorem Stored.entry_of_mem_occurrences (hs : Stored h k e) {p : Nat × List Expr}
    (hp : p ∈ e.occurrences) : (h p.1).2 = p.2 := by
  induction hs with
  | leaf l => simp [occurrences] at hp
  | node _ hentry _ ih =>
    rw [occurrences, List.mem_cons, mem_occurrencesIn] at hp
    rcases hp with rfl | ⟨e, he, hp⟩
    · rw [hentry]
    · exact ih e he hp

/-- An identity stands for the same operands wherever it occurs. -/
theorem Stored.operands_eq (hs : Stored h k e) {i : Nat} (hi : i ∈ e.lists) :
    e.operands i = (h i).2 := by
  unfold operands
  cases hlookup : e.occurrences.lookup i with
  | none =>
    obtain ⟨p, hp, rfl⟩ := List.mem_map.mp hi
    have hne := List.lookup_eq_none_iff.mp hlookup p hp
    simp at hne
  | some args =>
    obtain ⟨l, m, hsplit, -⟩ := List.lookup_eq_some_iff.mp hlookup
    have hmem : (i, args) ∈ e.occurrences := by
      rw [hsplit]
      exact List.mem_append_right _ List.mem_cons_self
    exact (hs.entry_of_mem_occurrences hmem).symm

/-! ## Every expression that can be made -/

/-- `distinctCount` counts exactly the shared structure: a leaf is one; otherwise every identity in
the tree counts once, with the leaves of the list it stands for.  So it is at most the count of the
tree, and the same only if no identity stands at two positions.  The depth is at most the count of
the tree. -/
theorem distinctCount_exact {S : Set Expr} (hm : Made k S) (he : e ∈ S) :
    (e.isLeaf = true → e.distinctCount = 1) ∧
      (e.isLeaf = false →
        e.distinctCount = ∑ i ∈ e.lists.toFinset, (1 + (e.operands i).countP isLeaf)) ∧
      (∀ p ∈ e.occurrences, e.operands p.1 = p.2) ∧
      e.distinctCount ≤ e.nodeCount ∧
      (e.distinctCount = e.nodeCount ↔ e.lists.Nodup) ∧
      e.depth ≤ e.nodeCount := by
  obtain ⟨h, hs⟩ := hm.pool
  have hse := hs e he
  have hcount := hse.distinctCount_eq
  have hrepeats := sum_toFinset_le (f := fun i => weight (h i).2) (fun _ => weight_pos _) e.lists
  refine ⟨fun hl => ?_, fun hl => ?_, fun p hp => ?_, ?_, ?_, hse.depth_le_nodeCount⟩
  · cases e with
    | leaf l => rfl
    | node => cases hl
  · rw [hcount, List.countP_singleton, hl, if_neg Bool.false_ne_true, zero_add]
    refine Finset.sum_congr rfl fun i hi => ?_
    rw [hse.operands_eq (List.mem_toFinset.mp hi), weight]
  · rw [hse.operands_eq (List.mem_map_of_mem hp), hse.entry_of_mem_occurrences hp]
  · rw [hcount, hse.nodeCount_eq]
    exact Nat.add_le_add_left hrepeats.1 _
  · rw [hcount, hse.nodeCount_eq, Nat.add_left_cancel_iff]
    exact hrepeats.2

/-- The product of `a + a` and its negative: both stand over one list, which the tree counts twice. -/
theorem distinctCount_exact_negative :
    let a : Expr := .leaf ⟨none, 0⟩
    let twice : Expr := .node .sum 0 false [a, a]
    let negative : Expr := .node .sum 0 true [a, a]
    let e : Expr := .node .product 1 false [twice, negative]
    Made 2 (insert e (insert negative (insert twice (insert a ∅)))) ∧
      e.distinctCount = 4 ∧ e.nodeCount = 7 ∧ ¬ e.lists.Nodup := by
  intro a twice negative e
  have hmade : Made 2 (insert e (insert negative (insert twice (insert a ∅)))) :=
    (((Made.nothing.leaf ⟨none, 0⟩).group .sum false [a, a] (by simp [a])).invert .sum
      (x := twice) (.inl rfl)).join .product (x := twice) (y := negative) (.inr (.inl rfl)) (.inl rfl)
  obtain ⟨-, hsum, -, -, hequal, -⟩ := distinctCount_exact hmade (e := e) (.inl rfl)
  have hcount : e.distinctCount = 4 := (hsum rfl).trans (by decide +kernel)
  have hnodes : e.nodeCount = 7 := by decide +kernel
  refine ⟨hmade, hcount, hnodes, fun hnodup => ?_⟩
  have h := hequal.mpr hnodup
  rw [hcount, hnodes] at h
  exact absurd h (by decide)

end Pivotal.Expr
