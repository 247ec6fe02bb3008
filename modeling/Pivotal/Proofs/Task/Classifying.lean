import Pivotal.Proofs.Task.Merging

/-!
# Values are classified tokens

What a token becomes has no influence on how far a text is read: reading with `f` of each value is
reading, and then taking `f` of the values (`many_map`, `separated_map`, and so on up to
`readSections_map`).  Merging sections does not look at values either (`Document.ofSections_map`).
So the document of the values of a text is that of its tokens, classified in place, and a text is
refused for both in the same way (`parseValues_eq`).
-/

namespace Pivotal

/-! ## Dictionaries -/

namespace Dict

variable {β γ : Type}

/-- The dictionary with `f` of its entries. -/
def map (f : β → γ) (d : Dict β) : Dict γ :=
  ⟨d.entries.map fun e => (e.1, f e.2), by rw [List.map_map]; exact d.nodup⟩

theorem get?_map (f : β → γ) (d : Dict β) (name : String) :
    (d.map f).get? name = (d.get? name).map f := by
  unfold map get?
  dsimp only
  induction d.entries with
  | nil => rfl
  | cons e entries ih =>
    rw [List.map_cons, lookup_cons_if, lookup_cons_if, ih]
    split <;> rfl

theorem put_map (f : β → γ) (d : Dict β) (name : String) (x : β) :
    (d.map f).put name (f x) = (d.put name x).map f := by
  refine Dict.ext ?_
  show putEntry name (f x) (d.entries.map fun e => (e.1, f e.2)) =
    (putEntry name x d.entries).map fun e => (e.1, f e.2)
  induction d.entries with
  | nil => rfl
  | cons e entries ih =>
    obtain ⟨k, y⟩ := e
    by_cases hk : k = name
    · simp [putEntry, hk]
    · simp [putEntry, hk, ih]

theorem putAll_map (f : β → γ) (d : Dict β) (es : List (String × β)) :
    (d.map f).putAll (es.map fun e => (e.1, f e.2)) = (d.putAll es).map f := by
  unfold putAll
  rw [List.foldl_map]
  exact List.foldl_hom (map f) fun d e => put_map f d e.1 e.2

end Dict

namespace Task

variable {α β V W : Type}

/-! ## Readers -/

/-- The reader with `f` of what it reads. -/
def Reader.map (f : α → β) (item : Reader α) : Reader β := fun cs =>
  (item cs).map fun (x, rest) => (f x, rest)

theorem Reader.map_of_error (f : α → β) {item : Reader α} {cs : List Char} {e : Failure}
    (h : item cs = .error e) : Reader.map f item cs = .error e := by
  rw [Reader.map, h]
  rfl

theorem Reader.map_of_ok (f : α → β) {item : Reader α} {cs rest : List Char} {x : α}
    (h : item cs = .ok (x, rest)) : Reader.map f item cs = .ok (f x, rest) := by
  rw [Reader.map, h]
  rfl

theorem readValue_eq : readValue = Reader.map tokenValue readToken := rfl

section Repetition

variable (f : α → β) (item : Reader α)

theorem many_map : many (Reader.map f item) = Reader.map (List.map f) (many item) := by
  funext cs
  fun_induction many item cs with
  | case1 cs e he =>
    rw [many_stop (Reader.map_of_error f he), Reader.map_of_ok _ (many_stop he)]
    rfl
  | case2 cs x rest hx hlt e he ih =>
    have hmany : many item cs = .error e := by
      rw [many, hx]
      simp only [if_pos hlt, he]
    rw [Reader.map_of_error _ hmany, many, Reader.map_of_ok f hx]
    simp only [if_pos hlt, ih, Reader.map_of_error _ he]
  | case3 cs x rest hx hlt ys rest' hmany ih =>
    rw [Reader.map_of_ok _ hmany] at ih
    rw [many_step (Reader.map_of_ok f hx) hlt ih, Reader.map_of_ok _ (many_step hx hlt hmany)]
    rfl
  | case4 cs x rest hx hlt =>
    have hmany : many item cs = .error ⟨cs, .progress⟩ := by
      rw [many, hx]
      simp only [if_neg hlt]
    rw [Reader.map_of_error _ hmany, many, Reader.map_of_ok f hx]
    simp only [if_neg hlt]

theorem many1_map : many1 (Reader.map f item) = Reader.map (List.map f) (many1 item) := by
  funext cs
  unfold many1
  rw [many_map]
  cases hx : item cs with
  | error e => rw [Reader.map_of_error f hx, Reader.map_of_error]; simp only [hx]
  | ok p =>
    obtain ⟨x, rest⟩ := p
    rw [Reader.map_of_ok f hx]
    cases hmany : many item rest with
    | error e => simp only [Reader.map, hx, hmany, Except.map]
    | ok q => simp only [Reader.map, hx, hmany, Except.map, List.map_cons]

theorem andThen_map (first : Reader V) :
    andThen first (Reader.map f item) = Reader.map f (andThen first item) := by
  funext cs
  unfold andThen
  cases hfirst : first cs with
  | error e => simp only [Reader.map, hfirst, Except.map]
  | ok p => simp only [Reader.map, hfirst]

theorem separated_map (separator : Reader Unit) :
    separated separator (Reader.map f item) =
      Reader.map (List.map f) (separated separator item) := by
  funext cs
  unfold separated
  rw [andThen_map, many_map]
  cases hx : item cs with
  | error e => simp only [Reader.map, hx, Except.map, List.map_nil]
  | ok p =>
    obtain ⟨x, rest⟩ := p
    cases hmany : many (andThen separator item) rest with
    | error e => simp only [Reader.map, hx, hmany, Except.map]
    | ok q => simp only [Reader.map, hx, hmany, Except.map, List.map_cons]

end Repetition

section Sections

variable (f : V → W) (value : Reader V)

theorem readValues_map :
    readValues (Reader.map f value) = Reader.map (List.map f) (readValues value) := by
  funext cs
  unfold readValues
  rw [separated_map]
  rfl

theorem readPair_map : readPair (Reader.map f value) =
    Reader.map (fun p => (p.1, p.2.map f)) (readPair value) := by
  funext cs
  unfold readPair
  rw [readValues_map]
  cases hkey : readWord cs with
  | error e => simp only [Reader.map, hkey, Except.map]
  | ok p =>
    obtain ⟨key, rest⟩ := p
    cases hcolon : readMark ':' rest with
    | error e => simp only [Reader.map, hkey, hcolon, Except.map]
    | ok q =>
      obtain ⟨u, rest'⟩ := q
      cases hvalues : readValues value rest' with
      | error e => simp only [Reader.map, hkey, hcolon, hvalues, Except.map]
      | ok r => simp only [Reader.map, hkey, hcolon, hvalues, Except.map]

theorem readPairSpaces_map : readPairSpaces (Reader.map f value) =
    Reader.map (fun p => (p.1, p.2.map f)) (readPairSpaces value) := by
  funext cs
  unfold readPairSpaces
  rw [readPair_map]
  cases hpair : readPair value cs with
  | error e => simp only [Reader.map, hpair, Except.map]
  | ok p => simp only [Reader.map, hpair, Except.map]

theorem readSection_eq (cs : List Char) : readSection value cs =
    (readTitle (skipSpaces cs)).bind fun title =>
      (many1 (readPairSpaces value) (skipGaps title.2)).map fun pairs =>
        (⟨title.1, pairs.1⟩, pairs.2) := by
  unfold readSection
  cases readTitle (skipSpaces cs) with
  | error e => rfl
  | ok p =>
    show _ = Except.map _ (many1 (readPairSpaces value) (skipGaps p.2))
    unfold readPairSpaces
    dsimp only
    split
    · next h => rw [h]; rfl
    · next h => rw [h]; rfl

theorem readSection_map : readSection (Reader.map f value) =
    Reader.map (WrittenSection.map f) (readSection value) := by
  funext cs
  rw [Reader.map, readSection_eq, readSection_eq, readPairSpaces_map, many1_map]
  cases readTitle (skipSpaces cs) with
  | error e => rfl
  | ok p =>
    simp only [Except.bind, Reader.map]
    cases many1 (readPairSpaces value) (skipGaps p.2) with
    | error e => rfl
    | ok q => rfl

theorem readSections_map : readSections (Reader.map f value) =
    Reader.map (List.map (WrittenSection.map f)) (readSections value) := by
  unfold readSections
  rw [readSection_map, ← many1_map]
  congr 1
  funext cs
  cases hsection : readSection value (skipGaps cs) with
  | error e => simp only [Reader.map, hsection, Except.map]
  | ok p => simp only [Reader.map, hsection, Except.map]

end Sections

/-! ## Documents -/

namespace Document

variable (f : V → W)

/-- The document with `f` of its values. -/
def mapValues (d : Document V) : Document W := Dict.map (Dict.map (Option.map (List.map f))) d

theorem sectionOf_mapValues (d : Document V) (title : String) :
    (d.mapValues f).sectionOf title = (d.sectionOf title).map (Option.map (List.map f)) := by
  unfold sectionOf mapValues
  rw [Dict.get?_map]
  cases d.get? title with
  | none => rfl
  | some s => rfl

theorem values?_mapValues (d : Document V) (title key : String) :
    (d.mapValues f).values? title key = (d.values? title key).map (List.map f) := by
  unfold values? mapValues
  rw [Dict.get?_map]
  cases d.get? title with
  | none => rfl
  | some s =>
    rw [Option.map_some, Option.bind_some, Option.bind_some, Dict.get?_map]
    cases s.get? key with
    | none => rfl
    | some values => rfl

theorem add_map (d : Document V) (s : WrittenSection V) :
    (d.mapValues f).add (s.map f) = (d.add s).mapValues f := by
  have hpairs : (s.map f).pairs.map (fun p => (p.1, some p.2)) =
      (s.pairs.map fun p => (p.1, some p.2)).map fun e => (e.1, e.2.map (List.map f)) := by
    unfold WrittenSection.map
    rw [List.map_map, List.map_map]
    rfl
  unfold add
  rw [hpairs, sectionOf_mapValues, Dict.putAll_map]
  exact Dict.put_map _ d s.title _

theorem ofSections_map (sections : List (WrittenSection V)) :
    ofSections (sections.map (·.map f)) = (ofSections sections).mapValues f := by
  unfold ofSections
  rw [List.foldl_map]
  show List.foldl _ (mapValues f ∅) _ = _
  exact List.foldl_hom (mapValues f) (add_map f)

theorem parse_map (value : Reader V) (text : List Char) :
    parse (Reader.map f value) text = (parse value text).map (mapValues f) := by
  unfold parse read
  rw [readSections_map]
  cases hread : readSections value (filterComments text) with
  | error e => simp only [Reader.map, hread, Except.map]
  | ok p =>
    obtain ⟨sections, rest⟩ := p
    simp only [Reader.map, hread, Except.map, ofSections_map]
    split <;> rfl

/-- The document of the values of a text is that of its tokens, classified in place. -/
theorem parseValues_eq (text : String) :
    parseValues text = (parseTokens text).map (mapValues tokenValue) := by
  unfold parseValues parseTokens
  rw [readValue_eq, parse_map]

end Document

end Task

end Pivotal
