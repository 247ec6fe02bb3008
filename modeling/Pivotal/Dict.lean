/-!
# Entries by name

A dictionary keeps its entries in the order in which their names first came, and has each name once.
Putting an entry under a name that is already there replaces it in place, so neither `put` nor
`erase` can bring a name in twice.
-/

namespace Pivotal

/-- Entries by name. -/
@[ext]
structure Dict (β : Type u) where
  entries : List (String × β)
  /-- Each name stands once. -/
  nodup : (entries.map Prod.fst).Nodup := by decide
  deriving DecidableEq

namespace Dict

variable {β : Type u}

def empty : Dict β := ⟨[], List.nodup_nil⟩

instance : EmptyCollection (Dict β) := ⟨empty⟩

def get? (d : Dict β) (name : String) : Option β := d.entries.lookup name

def keys (d : Dict β) : List String := d.entries.map Prod.fst

theorem nodup_keys (d : Dict β) : d.keys.Nodup := d.nodup

/-! ## Putting and erasing -/

/-- Replaces the entry of a name, or adds one at the end. -/
def putEntry (name : String) (x : β) : List (String × β) → List (String × β)
  | [] => [(name, x)]
  | (k, y) :: rest => if k = name then (k, x) :: rest else (k, y) :: putEntry name x rest

theorem map_fst_putEntry (name : String) (x : β) (entries : List (String × β)) :
    (putEntry name x entries).map Prod.fst =
      if name ∈ entries.map Prod.fst then entries.map Prod.fst
      else entries.map Prod.fst ++ [name] := by
  induction entries with
  | nil => rfl
  | cons e entries ih =>
    obtain ⟨k, y⟩ := e
    by_cases hk : k = name
    · simp [putEntry, hk]
    · have hk' : ¬name = k := fun h => hk h.symm
      rw [putEntry, if_neg hk, List.map_cons, ih]
      by_cases hmem : name ∈ entries.map Prod.fst
      · simp [hmem]
      · simp only [List.map_cons, List.mem_cons, hk', hmem, or_self, if_false, List.cons_append]

theorem nodup_putEntry {entries : List (String × β)} (h : (entries.map Prod.fst).Nodup)
    (name : String) (x : β) : ((putEntry name x entries).map Prod.fst).Nodup := by
  rw [map_fst_putEntry]
  split
  · exact h
  · next hmem =>
    refine List.nodup_append.mpr ⟨h, List.nodup_cons.mpr ⟨List.not_mem_nil, List.nodup_nil⟩, ?_⟩
    intro a ha b hb hab
    rw [List.mem_singleton] at hb
    exact hmem (hb ▸ hab ▸ ha)

def put (d : Dict β) (name : String) (x : β) : Dict β :=
  ⟨putEntry name x d.entries, nodup_putEntry d.nodup name x⟩

/-- The entries put one after the other, so that the last of a name remains. -/
def putAll (d : Dict β) (entries : List (String × β)) : Dict β :=
  entries.foldl (fun d e => d.put e.1 e.2) d

/-- The dictionary without the entry of a name. -/
def erase (d : Dict β) (name : String) : Dict β :=
  ⟨d.entries.filter (·.1 ≠ name), (List.filter_sublist.map Prod.fst).nodup d.nodup⟩

/-! ## Looking up what was put -/

@[simp] theorem get?_empty (name : String) : (∅ : Dict β).get? name = none := rfl

theorem lookup_cons_if (name k : String) (y : β) (entries : List (String × β)) :
    ((k, y) :: entries).lookup name = if name = k then some y else entries.lookup name := by
  rw [List.lookup_cons]
  by_cases h : name = k
  · rw [if_pos h, beq_iff_eq.mpr h]
  · rw [if_neg h, beq_eq_false_iff_ne.mpr h]

theorem lookup_putEntry (name other : String) (x : β) (entries : List (String × β)) :
    (putEntry name x entries).lookup other =
      if other = name then some x else entries.lookup other := by
  induction entries with
  | nil => rw [putEntry, lookup_cons_if]
  | cons e entries ih =>
    obtain ⟨k, y⟩ := e
    by_cases hk : k = name
    · subst hk
      rw [putEntry, if_pos rfl, lookup_cons_if, lookup_cons_if]
      split <;> rfl
    · rw [putEntry, if_neg hk, lookup_cons_if, lookup_cons_if, ih]
      by_cases h : other = k
      · rw [if_pos h, if_neg fun hname => hk (h ▸ hname), if_pos h]
      · rw [if_neg h, if_neg h]

theorem get?_put (d : Dict β) (name other : String) (x : β) :
    (d.put name x).get? other = if other = name then some x else d.get? other :=
  lookup_putEntry name other x d.entries

/-- The last entry of a name that was put is found. -/
theorem get?_putAll (d : Dict β) (es : List (String × β)) (name : String) :
    (d.putAll es).get? name = (es.reverse.lookup name).or (d.get? name) := by
  induction es generalizing d with
  | nil => rfl
  | cons e es ih =>
    show ((d.put e.1 e.2).putAll es).get? name = _
    rw [ih, get?_put, List.reverse_cons, List.lookup_append, Option.or_assoc, lookup_cons_if]
    congr 1
    split <;> rfl

theorem mem_keys_iff (d : Dict β) (name : String) : name ∈ d.keys ↔ (d.get? name).isSome := by
  simp only [keys, get?, List.lookup_isSome_iff, List.mem_map, beq_iff_eq]
  constructor
  · rintro ⟨e, he, rfl⟩
    exact ⟨e, he, rfl⟩
  · rintro ⟨e, he, h⟩
    exact ⟨e, he, h.symm⟩

/-- Putting an entry adds its name at the end, unless it is there. -/
theorem keys_put (d : Dict β) (name : String) (x : β) :
    (d.put name x).keys = if name ∈ d.keys then d.keys else d.keys ++ [name] :=
  map_fst_putEntry name x d.entries

theorem lookup_of_mem {name : String} {x : β} {entries : List (String × β)}
    (hnodup : (entries.map Prod.fst).Nodup) (h : (name, x) ∈ entries) :
    entries.lookup name = some x := by
  induction entries with
  | nil => cases h
  | cons e entries ih =>
    obtain ⟨k, y⟩ := e
    rw [List.map_cons, List.nodup_cons] at hnodup
    rw [lookup_cons_if]
    rcases List.mem_cons.mp h with heq | hmem
    · cases heq
      rw [if_pos rfl]
    · have hne : name ≠ k := by
        rintro rfl
        exact hnodup.1 (List.mem_map.mpr ⟨_, hmem, rfl⟩)
      rw [if_neg hne, ih hnodup.2 hmem]

theorem get?_of_mem {d : Dict β} {name : String} {x : β} (h : (name, x) ∈ d.entries) :
    d.get? name = some x :=
  lookup_of_mem d.nodup h

/-! ## Entries after putting -/

theorem putEntry_of_lookup {name : String} {x : β} {entries : List (String × β)}
    (h : entries.lookup name = some x) : putEntry name x entries = entries := by
  induction entries with
  | nil => cases h
  | cons e entries ih =>
    obtain ⟨k, y⟩ := e
    rw [lookup_cons_if] at h
    by_cases hk : k = name
    · rw [if_pos hk.symm] at h
      cases h
      rw [putEntry, if_pos hk]
    · rw [if_neg fun hname => hk hname.symm] at h
      rw [putEntry, if_neg hk, ih h]

theorem putEntry_of_not_mem {name : String} (x : β) {entries : List (String × β)}
    (h : name ∉ entries.map Prod.fst) : putEntry name x entries = entries ++ [(name, x)] := by
  induction entries with
  | nil => rfl
  | cons e entries ih =>
    rw [List.map_cons, List.mem_cons, not_or] at h
    rw [putEntry, if_neg fun hname => h.1 hname.symm, ih h.2, List.cons_append]

/-- Putting back what a name has changes nothing. -/
theorem put_of_get? {d : Dict β} {name : String} {x : β} (h : d.get? name = some x) :
    d.put name x = d :=
  Dict.ext (putEntry_of_lookup h)

theorem entries_put_of_not_mem {d : Dict β} {name : String} (x : β) (h : name ∉ d.keys) :
    (d.put name x).entries = d.entries ++ [(name, x)] :=
  putEntry_of_not_mem x h

/-- Entries of new and different names come behind those that are there. -/
theorem entries_putAll_of_nodup {d : Dict β} {es : List (String × β)}
    (h : ((d.entries ++ es).map Prod.fst).Nodup) : (d.putAll es).entries = d.entries ++ es := by
  induction es generalizing d with
  | nil => exact (List.append_nil _).symm
  | cons e es ih =>
    have hnew : e.1 ∉ d.keys := by
      rw [List.map_append, List.nodup_append] at h
      exact fun hmem => h.2.2 e.1 hmem e.1 List.mem_cons_self rfl
    have hput : (d.put e.1 e.2).entries ++ es = d.entries ++ e :: es := by
      rw [entries_put_of_not_mem e.2 hnew, List.append_assoc, List.singleton_append]
    show ((d.put e.1 e.2).putAll es).entries = _
    rw [ih (hput ▸ h), hput]

end Dict

end Pivotal
