import Pivotal.Complex.Literal
import Pivotal.Proofs.Text.Trim

/-!
# Where a complex literal is cut

A cut stands before a sign and behind a character that is not an exponent mark (`cuts`).
`splitAtSign?` finds the last cut of a text (`splitAtSign?_eq_some_iff`), and none exactly if there
is none (`splitAtSign?_eq_none_iff`).

The cut can as well be found in the bytes of the text, from the back: `scanCut` looks at two bytes at
a time and knows nothing of characters.  A byte below 128 is always a whole character
(`utf8EncodeChar_of_mem`), so the scan stops between two characters, and it stops at the cut of
`splitAtSign?` (`lastCut?_utf8`).
-/

namespace Pivotal.Complex

/-! ## Cuts between characters -/

/-- Whether a text may be cut into `front` and `back`. -/
def cuts (front back : List Char) : Bool :=
  back.head?.any isSign && front.getLast?.any (fun c => !isExponentMark c)

theorem cuts_append {xs : List Char} (hne : xs ≠ []) (front back : List Char) :
    cuts (front ++ xs) back = cuts xs back := by
  have hlast : (front ++ xs).getLast? = xs.getLast? := by
    rw [List.getLast?_append, List.getLast?_eq_some_getLast hne, Option.some_or]
  rw [cuts, cuts, hlast]

theorem cuts_of_head {ys : List Char} (hne : ys ≠ []) (front back : List Char) :
    cuts front (ys ++ back) = cuts front ys := by
  obtain ⟨y, ys, rfl⟩ := List.exists_cons_of_ne_nil hne
  rfl

theorem cuts_of_stops {back : List Char} (h : Text.Stops isSign back) (front : List Char) :
    cuts front back = false := by
  have hhead : back.head?.any isSign = false := by
    cases back with
    | nil => rfl
    | cons c back => exact h c rfl
  rw [cuts, hhead, Bool.false_and]

/-- Only a sign can stand behind a cut. -/
theorem exists_sign_of_cuts {front back : List Char} (h : cuts front back = true) :
    ∃ s rest, back = s :: rest ∧ isSign s = true := by
  rw [cuts, Bool.and_eq_true] at h
  cases back with
  | nil => cases h.1
  | cons s rest => exact ⟨s, rest, rfl, h.1⟩

theorem ne_nil_of_cuts {front back : List Char} (h : cuts front back = true) : front ≠ [] := by
  rintro rfl
  rw [cuts, Bool.and_eq_true] at h
  cases h.2

/-! ## The last cut -/

theorem splitAtSign?_cons (c : Char) (cs : List Char) :
    splitAtSign? (c :: cs) = match splitAtSign? cs with
      | some (front, back) => some (c :: front, back)
      | none => if cuts [c] cs then some ([c], cs) else none := by
  rw [splitAtSign?.eq_def]
  dsimp only
  cases splitAtSign? cs with
  | some p => rfl
  | none =>
    cases cs with
    | nil => rfl
    | cons s rest => rfl

theorem splitAtSign?_cons_eq_none_iff {c : Char} {cs : List Char} :
    splitAtSign? (c :: cs) = none ↔ splitAtSign? cs = none ∧ cuts [c] cs = false := by
  rw [splitAtSign?_cons]
  cases splitAtSign? cs with
  | some p => simp
  | none => simp

theorem splitAtSign?_eq_none_iff {cs : List Char} :
    splitAtSign? cs = none ↔ ∀ front back, cs = front ++ back → cuts front back = false := by
  induction cs with
  | nil =>
    refine ⟨fun _ front back h => ?_, fun _ => rfl⟩
    rw [(List.append_eq_nil_iff.mp h.symm).2]
    rfl
  | cons c cs ih =>
    rw [splitAtSign?_cons_eq_none_iff, ih]
    constructor
    · rintro ⟨hrest, hfirst⟩ front back h
      -- a cut of the whole text is the first one, or one of the rest
      rcases List.cons_eq_append_iff.mp h with ⟨rfl, -⟩ | ⟨front, rfl, rfl⟩
      · exact Bool.and_false _
      · by_cases hne : front = []
        · rw [hne] at hfirst ⊢
          exact hfirst
        · rw [← List.singleton_append, cuts_append hne]
          exact hrest front back rfl
    · intro h
      refine ⟨fun front back hcs => ?_, h [c] cs rfl⟩
      by_cases hne : front = []
      · rw [hne]
        exact Bool.and_false _
      · rw [← cuts_append hne [c]]
        exact h ([c] ++ front) back (by rw [hcs]; rfl)

/-- The cut that is found is the last one. -/
theorem splitAtSign?_eq_some_iff {cs front back : List Char} :
    splitAtSign? cs = some (front, back) ↔
      cs = front ++ back ∧ cuts front back = true ∧ splitAtSign? back = none := by
  constructor
  · intro h
    induction cs generalizing front with
    | nil => cases h
    | cons c cs ih =>
      rw [splitAtSign?_cons] at h
      split at h
      · next hrest =>
        cases h
        obtain ⟨rfl, hcut, hback⟩ := ih hrest
        refine ⟨rfl, ?_, hback⟩
        rw [← List.singleton_append, cuts_append (ne_nil_of_cuts hcut)]
        exact hcut
      · next hrest =>
        split at h
        · next hcut =>
          cases h
          exact ⟨rfl, hcut, hrest⟩
        · cases h
  · rintro ⟨rfl, hcut, hback⟩
    induction front with
    | nil => exact absurd rfl (ne_nil_of_cuts hcut)
    | cons c front ih =>
      rw [List.cons_append, splitAtSign?_cons]
      by_cases hne : front = []
      · rw [hne] at hcut ⊢
        rw [List.nil_append, hback, if_pos hcut]
      · rw [← List.singleton_append, cuts_append hne] at hcut
        rw [ih hcut]

/-- Nothing is cut where two texts without a cut meet, unless they meet in one. -/
theorem splitAtSign?_append_eq_none {xs ys : List Char} (hxs : splitAtSign? xs = none)
    (hys : splitAtSign? ys = none) (hcut : cuts xs ys = false) : splitAtSign? (xs ++ ys) = none := by
  induction xs with
  | nil => exact hys
  | cons c xs ih =>
    obtain ⟨hrest, hfirst⟩ := splitAtSign?_cons_eq_none_iff.mp hxs
    rw [List.cons_append, splitAtSign?_cons_eq_none_iff]
    by_cases hne : xs = []
    · rw [hne] at hcut ⊢
      exact ⟨hys, hcut⟩
    · rw [← List.singleton_append, cuts_append hne] at hcut
      rw [cuts_of_head hne]
      exact ⟨ih hrest hcut, hfirst⟩

/-- A sign in front is no cut. -/
theorem splitAtSign?_none {cs : List Char} (h : ∀ c ∈ cs.tail, isSign c = false) :
    splitAtSign? cs = none := by
  induction cs with
  | nil => rfl
  | cons c cs ih =>
    refine splitAtSign?_cons_eq_none_iff.mpr ⟨ih fun x hx => h x (List.mem_of_mem_tail hx), ?_⟩
    exact cuts_of_stops (fun x hx => h x (List.mem_of_mem_head? hx)) [c]

/-! ## Cuts between bytes -/

/-- The bytes of a text. -/
def utf8 (cs : List Char) : List UInt8 := cs.flatMap String.utf8EncodeChar

def isSignByte (b : UInt8) : Bool := b = 43 || b = 45

def isExponentByte (b : UInt8) : Bool := b = 101 || b = 69

/-- Whether the bytes may be cut at the offset `k`. -/
def cutsByte (bs : List UInt8) (k : Nat) : Bool :=
  bs[k]?.any isSignByte && bs[k - 1]?.any (fun b => !isExponentByte b)

/-- The last offset from `k` downwards, zero apart, where the bytes may be cut. -/
def scanCut (bs : List UInt8) : Nat → Option Nat
  | 0 => none
  | k + 1 => if cutsByte bs (k + 1) then some (k + 1) else scanCut bs k

/-- The last offset where the bytes may be cut. -/
def lastCut? (bs : List UInt8) : Option Nat := scanCut bs (bs.length - 1)

theorem utf8_append (xs ys : List Char) : utf8 (xs ++ ys) = utf8 xs ++ utf8 ys :=
  List.flatMap_append

theorem utf8_cons (c : Char) (cs : List Char) :
    utf8 (c :: cs) = String.utf8EncodeChar c ++ utf8 cs := List.flatMap_cons

theorem utf8EncodeChar_of_lt {c : Char} (hc : c.toNat < 128) :
    String.utf8EncodeChar c = [UInt8.ofNat c.toNat] := if_pos (Nat.le_of_lt_succ hc)

theorem le_of_mem_utf8EncodeChar {c : Char} {b : UInt8} (hc : 128 ≤ c.toNat)
    (hb : b ∈ String.utf8EncodeChar c) : 128 ≤ b.toNat := by
  have hlarge : ∀ n, 128 ≤ n → n < 256 → 128 ≤ (UInt8.ofNat n).toNat := by
    intro n hle hlt
    rwa [UInt8.toNat_ofNat', Nat.mod_eq_of_lt hlt]
  change 128 ≤ c.val.toNat at hc
  unfold String.utf8EncodeChar at hb
  dsimp only at hb
  rw [if_neg (Nat.not_le.mpr hc)] at hb
  split at hb
  · simp only [List.mem_cons, List.not_mem_nil, or_false] at hb
    rcases hb with rfl | rfl
    all_goals exact hlarge _ (by omega) (by omega)
  · split at hb
    · simp only [List.mem_cons, List.not_mem_nil, or_false] at hb
      rcases hb with rfl | rfl | rfl
      all_goals exact hlarge _ (by omega) (by omega)
    · simp only [List.mem_cons, List.not_mem_nil, or_false] at hb
      rcases hb with rfl | rfl | rfl | rfl
      all_goals exact hlarge _ (by omega) (by omega)

/-- A byte below 128 is a whole character. -/
theorem utf8EncodeChar_of_mem {c : Char} {b : UInt8} (hmem : b ∈ String.utf8EncodeChar c)
    (hb : b.toNat < 128) : c.toNat < 128 ∧ b = UInt8.ofNat c.toNat := by
  have hc : c.toNat < 128 := by
    refine Nat.lt_of_not_le fun hle => ?_
    exact absurd (le_of_mem_utf8EncodeChar hle hmem) (Nat.not_le.mpr hb)
  rw [utf8EncodeChar_of_lt hc] at hmem
  exact ⟨hc, List.mem_singleton.mp hmem⟩

/-- A character below 128 is found by its byte. -/
theorem byte_eq_iff {c : Char} {b : UInt8} (hmem : b ∈ String.utf8EncodeChar c) (a : Char)
    (ha : a.toNat < 128) : b = UInt8.ofNat a.toNat ↔ c = a := by
  have htoNat : ∀ n, n < 128 → (UInt8.ofNat n).toNat = n := by
    intro n hn
    rw [UInt8.toNat_ofNat', Nat.mod_eq_of_lt (by omega)]
  constructor
  · rintro rfl
    obtain ⟨hc, hbyte⟩ := utf8EncodeChar_of_mem hmem (by rwa [htoNat _ ha])
    have hsame : a.toNat = c.toNat := by
      rw [← htoNat _ ha, hbyte, htoNat _ hc]
    exact Char.toNat_inj.mp hsame.symm
  · rintro rfl
    rw [utf8EncodeChar_of_lt ha] at hmem
    exact List.mem_singleton.mp hmem

section Bytes

variable {c : Char} {b : UInt8} (hmem : b ∈ String.utf8EncodeChar c)

include hmem

theorem isSignByte_of_mem : isSignByte b = isSign c := by
  have hplus : b = 43 ↔ c = '+' := byte_eq_iff hmem '+' (by decide)
  have hminus : b = 45 ↔ c = '-' := byte_eq_iff hmem '-' (by decide)
  simp only [isSignByte, isSign, hplus, hminus]

theorem isExponentByte_of_mem : isExponentByte b = isExponentMark c := by
  have hlower : b = 101 ↔ c = 'e' := byte_eq_iff hmem 'e' (by decide)
  have hupper : b = 69 ↔ c = 'E' := byte_eq_iff hmem 'E' (by decide)
  simp only [isExponentByte, isExponentMark, hlower, hupper]

end Bytes

theorem head?_utf8 (cs : List Char) : (utf8 cs).head?.any isSignByte = cs.head?.any isSign := by
  cases cs with
  | nil => rfl
  | cons c cs =>
    obtain ⟨b, bs, hb⟩ := List.exists_cons_of_ne_nil (String.utf8EncodeChar_ne_nil (c := c))
    rw [utf8_cons, hb]
    exact isSignByte_of_mem (hb ▸ List.mem_cons_self)

theorem getLast?_utf8 (cs : List Char) :
    (utf8 cs).getLast?.any (fun b => !isExponentByte b) =
      cs.getLast?.any (fun c => !isExponentMark c) := by
  rcases List.eq_nil_or_concat cs with rfl | ⟨front, c, rfl⟩
  · rfl
  · have hne : String.utf8EncodeChar c ≠ [] := String.utf8EncodeChar_ne_nil
    have hsingle : utf8 [c] = String.utf8EncodeChar c := List.flatMap_singleton ..
    rw [List.concat_eq_append, utf8_append, hsingle, List.getLast?_append,
      List.getLast?_eq_some_getLast hne, Option.some_or, List.getLast?_concat, Option.any_some,
      Option.any_some, isExponentByte_of_mem (List.getLast_mem hne)]

theorem utf8_ne_nil {cs : List Char} (hne : cs ≠ []) : utf8 cs ≠ [] := by
  obtain ⟨c, cs, rfl⟩ := List.exists_cons_of_ne_nil hne
  rw [utf8_cons]
  exact List.append_ne_nil_of_left_ne_nil String.utf8EncodeChar_ne_nil _

/-- Between two characters the bytes tell a cut. -/
theorem cutsByte_utf8 {front : List Char} (hne : front ≠ []) (back : List Char) :
    cutsByte (utf8 (front ++ back)) (utf8 front).length = cuts front back := by
  have hpos : 0 < (utf8 front).length := List.length_pos_iff.mpr (utf8_ne_nil hne)
  have hnext : (utf8 front ++ utf8 back)[(utf8 front).length]? = (utf8 back).head? := by
    rw [List.getElem?_append_right (Nat.le_refl _), Nat.sub_self, List.head?_eq_getElem?]
  have hlast : (utf8 front ++ utf8 back)[(utf8 front).length - 1]? = (utf8 front).getLast? := by
    rw [List.getElem?_append_left (by omega), List.getLast?_eq_getElem?]
  rw [cutsByte, cuts, utf8_append, hnext, hlast, head?_utf8, getLast?_utf8]

/-- A byte below 128 starts a character. -/
theorem exists_append_of_byte {cs : List Char} {k : Nat} {b : UInt8} (hk : (utf8 cs)[k]? = some b)
    (hb : b.toNat < 128) : ∃ front back, cs = front ++ back ∧ (utf8 front).length = k := by
  induction cs generalizing k with
  | nil => cases hk
  | cons c cs ih =>
    rw [utf8_cons] at hk
    by_cases hlt : k < (String.utf8EncodeChar c).length
    · rw [List.getElem?_append_left hlt] at hk
      obtain ⟨hc, -⟩ := utf8EncodeChar_of_mem (List.mem_of_getElem? hk) hb
      rw [utf8EncodeChar_of_lt hc, List.length_singleton] at hlt
      exact ⟨[], c :: cs, rfl, (Nat.lt_one_iff.mp hlt).symm⟩
    · have hle := Nat.le_of_not_lt hlt
      rw [List.getElem?_append_right hle] at hk
      obtain ⟨front, back, rfl, hlength⟩ := ih hk
      refine ⟨c :: front, back, rfl, ?_⟩
      rw [utf8_cons, List.length_append, hlength, Nat.add_sub_cancel' hle]

/-- The bytes of a text are cut between characters only. -/
theorem exists_cuts_of_cutsByte {cs : List Char} {k : Nat} (hk : 0 < k)
    (hcut : cutsByte (utf8 cs) k = true) :
    ∃ front back, cs = front ++ back ∧ cuts front back = true ∧ (utf8 front).length = k := by
  obtain ⟨hsign, -⟩ := (Bool.and_eq_true _ _).mp hcut
  obtain ⟨b, hb, hsign⟩ := (Option.any_eq_true _ _).mp hsign
  have hsmall : b.toNat < 128 := by
    simp only [isSignByte, Bool.or_eq_true, decide_eq_true_eq] at hsign
    rcases hsign with rfl | rfl
    · decide
    · decide
  obtain ⟨front, back, rfl, rfl⟩ := exists_append_of_byte hb hsmall
  have hne : front ≠ [] := by
    rintro rfl
    exact absurd hk (Nat.lt_irrefl 0)
  exact ⟨front, back, rfl, cutsByte_utf8 hne back ▸ hcut, rfl⟩

/-! ## The last cut in the bytes -/

theorem scanCut_eq_some_iff {bs : List UInt8} {n k : Nat} :
    scanCut bs n = some k ↔
      0 < k ∧ k ≤ n ∧ cutsByte bs k = true ∧ ∀ j, k < j → j ≤ n → cutsByte bs j = false := by
  induction n with
  | zero =>
    refine ⟨fun h => (nomatch h), ?_⟩
    rintro ⟨hpos, hle, -⟩
    omega
  | succ n ih =>
    rw [scanCut]
    by_cases hcut : cutsByte bs (n + 1) = true
    · rw [if_pos hcut, Option.some.injEq]
      constructor
      · rintro rfl
        exact ⟨Nat.succ_pos n, Nat.le_refl _, hcut, fun j hlt hle => by omega⟩
      · rintro ⟨-, hle, -, hlast⟩
        by_cases hk : n + 1 = k
        · exact hk
        · rw [hlast (n + 1) (by omega) (Nat.le_refl _)] at hcut
          cases hcut
    · rw [if_neg hcut, ih]
      constructor
      · rintro ⟨hpos, hle, hk, hlast⟩
        refine ⟨hpos, by omega, hk, fun j hlt hj => ?_⟩
        by_cases hjn : j = n + 1
        · rw [hjn]
          exact Bool.eq_false_iff.mpr hcut
        · exact hlast j hlt (by omega)
      · rintro ⟨hpos, hle, hk, hlast⟩
        have hne : k ≠ n + 1 := by
          rintro rfl
          exact hcut hk
        exact ⟨hpos, by omega, hk, fun j hlt hj => hlast j hlt (by omega)⟩

/-- **The bytes are cut where the text is.** -/
theorem lastCut?_utf8 (cs : List Char) :
    lastCut? (utf8 cs) = (splitAtSign? cs).map fun p => (utf8 p.1).length := by
  cases hsplit : splitAtSign? cs with
  | none =>
    have hnone := splitAtSign?_eq_none_iff.mp hsplit
    cases hlast : lastCut? (utf8 cs) with
    | none => rfl
    | some k =>
      obtain ⟨hpos, -, hcut, -⟩ := scanCut_eq_some_iff.mp hlast
      obtain ⟨front, back, rfl, hchars, -⟩ := exists_cuts_of_cutsByte hpos hcut
      rw [hnone front back rfl] at hchars
      cases hchars
  | some p =>
    obtain ⟨front, back⟩ := p
    obtain ⟨rfl, hcut, hback⟩ := splitAtSign?_eq_some_iff.mp hsplit
    have hne := ne_nil_of_cuts hcut
    obtain ⟨s, rest, hs, -⟩ := exists_sign_of_cuts hcut
    have hbytes : 0 < (utf8 back).length :=
      List.length_pos_iff.mpr (utf8_ne_nil (hs ▸ List.cons_ne_nil s rest))
    show scanCut _ _ = some (utf8 front).length
    refine scanCut_eq_some_iff.mpr ⟨List.length_pos_iff.mpr (utf8_ne_nil hne), ?_, ?_, ?_⟩
    · rw [utf8_append, List.length_append]
      omega
    · rw [cutsByte_utf8 hne]
      exact hcut
    · -- a later cut would be one of the rest
      intro j hlt _
      refine Bool.eq_false_iff.mpr fun hj => ?_
      obtain ⟨front', back', happend, hcut', rfl⟩ := exists_cuts_of_cutsByte (by omega) hj
      rcases List.append_eq_append_iff.mp happend with ⟨more, rfl, hmore⟩ | ⟨more, hfront, -⟩
      · have hmore_ne : more ≠ [] := by
          rintro rfl
          rw [List.append_nil] at hlt
          exact Nat.lt_irrefl _ hlt
        rw [cuts_append hmore_ne, splitAtSign?_eq_none_iff.mp hback more back' hmore] at hcut'
        cases hcut'
      · rw [hfront, utf8_append, List.length_append] at hlt
        omega

theorem rawEndPos_ofList (cs : List Char) :
    (String.ofList cs).rawEndPos = ⟨(utf8 cs).length⟩ := by
  apply String.Pos.Raw.ext
  rw [String.byteIdx_rawEndPos, ← String.size_toByteArray, String.toByteArray_ofList,
    List.utf8Encode, List.size_toByteArray]
  rfl

/-- The cut of the bytes is a position of the text. -/
theorem isValid_of_lastCut? {cs : List Char} {k : Nat} (h : lastCut? (utf8 cs) = some k) :
    String.Pos.Raw.IsValid (String.ofList cs) ⟨k⟩ := by
  obtain ⟨hpos, -, hcut, -⟩ := scanCut_eq_some_iff.mp h
  obtain ⟨front, back, rfl, -, rfl⟩ := exists_cuts_of_cutsByte hpos hcut
  rw [String.Pos.Raw.isValid_iff_exists_append]
  refine ⟨String.ofList front, String.ofList back, String.ofList_append, ?_⟩
  rw [rawEndPos_ofList]

end Pivotal.Complex
