import AdvLigoRts.Drv.DaqAnnounced
import AdvLigoRts.Drv.DaqRequests

/-!
# The slots follow the requests

`Follows` is what a look at the GDS tables leaves: the slots hold distinct requested numbers, all of
the valid ones if there is room, each with an entry for it. The numbers that stay do so in their
slots (`KeepsSlots`).
-/

namespace AdvLigoRts.Drv

open PvLib

/-! ## Kinds of numbers -/

/-- The range of a source holds the number. -/
def DaqRange.has (r : DaqRange) (n : ℕ) : DaqSrc → Prop
  | .fmTp => r.filtTpMin ≤ n ∧ n < r.filtTpMax
  | .nfmTp => r.xTpMin ≤ n ∧ n < r.xTpMax
  | .fmExc => r.filtExMin ≤ n ∧ n < r.filtExMax
  | .nfmExc => r.xExMin ≤ n ∧ n < r.xExMax

instance (r : DaqRange) (n : ℕ) : (src : DaqSrc) → Decidable (r.has n src)
  | .fmTp | .nfmTp | .fmExc | .nfmExc => inferInstanceAs (Decidable (_ ∧ _))

/-- The number denotes a test point. -/
abbrev DaqRange.isTp (r : DaqRange) (n : ℕ) : Prop := r.has n .fmTp ∨ r.has n .nfmTp

/-- The number denotes an excitation. -/
abbrev DaqRange.isExc (r : DaqRange) (n : ℕ) : Prop := r.has n .fmExc ∨ r.has n .nfmExc

/-- The number is in one range at most. -/
def OneKind (r : DaqRange) (n : ℕ) : Prop := ∀ src src', r.has n src → r.has n src' → src = src'

theorem OneKind.not_isTp {r : DaqRange} {n : ℕ} {src : DaqSrc} (h : OneKind r n)
    (hsrc : r.has n src) (hexc : src.isExc) : ¬ r.isTp n := by
  rintro (htp | htp)
  · rw [h _ _ hsrc htp] at hexc
    cases hexc
  · rw [h _ _ hsrc htp] at hexc
    cases hexc

theorem OneKind.not_isExc {r : DaqRange} {n : ℕ} {src : DaqSrc} (h : OneKind r n)
    (hsrc : r.has n src) (htp : src.isExc = false) : ¬ r.isExc n := by
  rintro (hexc | hexc)
  · rw [h _ _ hsrc hexc] at htp
    cases htp
  · rw [h _ _ hsrc hexc] at htp
    cases htp

/-- The ranges of the controllers do not meet. -/
theorem RangesOk.oneKind {r : DaqRange} (h : RangesOk r) (n : ℕ) : OneKind r n := by
  obtain ⟨htp, hex, hxtp, hxex, hle, hapart⟩ := h
  intro src src' hsrc hsrc'
  cases src
  all_goals cases src'
  all_goals first
    | rfl
    | (unfold DaqRange.has at hsrc hsrc'; omega)

/-- The place holds a number of the kind of its list. -/
def ValidAt (r : DaqRange) (l : GdsLists) (p : ℕ) : Prop :=
  l.place p ≠ 0 ∧ if p ≥ daqGdsMaxTpAllowed then r.isExc (l.place p) else r.isTp (l.place p)

instance (r : DaqRange) (l : GdsLists) (p : ℕ) : Decidable (ValidAt r l p) :=
  inferInstanceAs (Decidable (_ ∧ _))

def validRequests (r : DaqRange) (l : GdsLists) : List ℕ :=
  ((List.range (2 * daqGdsMaxTpAllowed)).filter fun p => ValidAt r l p).map l.place

theorem mem_validRequests {r : DaqRange} {l : GdsLists} {n : ℕ} :
    n ∈ validRequests r l ↔ ∃ p < 2 * daqGdsMaxTpAllowed, ValidAt r l p ∧ l.place p = n := by
  simp [validRequests, and_assoc]

/-- The lists are as `in_the_lists` needs them: no number is in them twice, and none denotes two
kinds. -/
structure RequestsOk (r : DaqRange) (l : GdsLists) : Prop where
  distinct : l.Distinct
  oneKind : ∀ p < 2 * daqGdsMaxTpAllowed, l.place p ≠ 0 → OneKind r (l.place p)

/-- The entry has the source of the number, its filter module and its signal. -/
def Denotes (r : DaqRange) (n : ℕ) (lt : DaqLkupTable) : Prop :=
  r.has n lt.type ∧ match lt.type with
    | .fmTp =>
      n = r.filtTpMin + lt.sysNum * r.filtTpSize + lt.fmNum * daqNumFmTp + lt.sigNum ∧
        lt.fmNum * daqNumFmTp + lt.sigNum < r.filtTpSize ∧ lt.sigNum < daqNumFmTp
    | .nfmTp => n = r.xTpMin + lt.sigNum
    | .fmExc => n = r.filtExMin + lt.sysNum * r.filtExSize + lt.fmNum ∧ lt.fmNum < r.filtExSize
    | .nfmExc => n = r.xExMin + lt.fmNum

section Slots

variable {K : Type} {B : DaqBuild K} {sysRate : ℕ} {daqRange : DaqRange}
variable {s t : DaqState K} {inp : DaqCall K} {l l' m : GdsLists} {i p slot n : ℕ}

/-- If the entry of the slot is one of an excitation, it has the index at which the number is in
the list, and so has `excTable`. -/
def ListIndex (l : GdsLists) (s : DaqState K) (i n : ℕ) : Prop :=
  (slotEntry s i).type.isExc → (slotEntry s i).sigNum < daqGdsMaxTpAllowed ∧
    l.excnum (slotEntry s i).sigNum = n ∧ (s.excTable i).offset = (slotEntry s i).sigNum

/-- The slots hold distinct valid requests, each with an entry for it. -/
structure Placed (daqRange : DaqRange) (l : GdsLists) (s : DaqState K) : Prop where
  distinct : ∀ i < daqGdsMaxTpAllowed, ∀ j < daqGdsMaxTpAllowed,
    s.tpNum i ≠ 0 → s.tpNum i = s.tpNum j → i = j
  requested : ∀ i < daqGdsMaxTpAllowed, s.tpNum i ≠ 0 → s.tpNum i ∈ validRequests daqRange l
  denotes : ∀ i < daqGdsMaxTpAllowed, s.tpNum i ≠ 0 →
    Denotes daqRange (s.tpNum i) (slotEntry s i)
  listIndex : ∀ i < daqGdsMaxTpAllowed, s.tpNum i ≠ 0 → ListIndex l s i (s.tpNum i)

/-- What a look at the lists leaves: all valid requests are in the slots if there is room for
them, and the slots have their offsets, in the table. -/
structure Follows (sysRate : ℕ) (daqRange : DaqRange) (l : GdsLists) (s : DaqState K) : Prop where
  placed : Placed daqRange l s
  complete : (validRequests daqRange l).length ≤ daqGdsMaxTpAllowed →
    ∀ n ∈ validRequests daqRange l, ∃ i < daqGdsMaxTpAllowed, s.tpNum i = n
  offset : ∀ i < daqGdsMaxTpAllowed, s.tpNum i ≠ 0 →
    (slotEntry s i).offset = s.tpStart + 4 * sysRate * i
  room : ∀ i < daqGdsMaxTpAllowed, s.dataInfo.numChans + i < dcuMaxChannels

/-- A number that is requested again stays in its slot: a test point at any place, an excitation
at its index. -/
def KeepsSlots (l l' : GdsLists) (s t : DaqState K) : Prop :=
  ∀ i < daqGdsMaxTpAllowed, s.tpNum i ≠ 0 →
    (∃ j < daqGdsMaxTpAllowed, l'.tpnum j = s.tpNum i ∨
      (l.excnum j = s.tpNum i ∧ l'.excnum j = s.tpNum i)) → t.tpNum i = s.tpNum i

/-- No number that is in a slot is requested in the list of the other kind. -/
def HeldInKind (daqRange : DaqRange) (s : DaqState K) (l : GdsLists) : Prop :=
  ∀ i < daqGdsMaxTpAllowed, s.tpNum i ≠ 0 → ∀ p < 2 * daqGdsMaxTpAllowed,
    l.place p = s.tpNum i → ValidAt daqRange l p

/-! ## A new number -/

/-- The step has put test point `n` into an empty slot. -/
structure Filled (daqRange : DaqRange) (l : GdsLists) (s t : DaqState K) (slot n : ℕ) : Prop where
  tpNum : t.tpNum = Function.update s.tpNum slot n
  entry : ∀ j, j ≠ slot → slotEntry t j = slotEntry s j
  excTable : ∀ j, j ≠ slot → t.excTable j = s.excTable j
  denotes : Denotes daqRange n (slotEntry t slot)
  listIndex : ListIndex l t slot n

theorem Placed.fill (h : Placed daqRange l s) (hp : p < 2 * daqGdsMaxTpAllowed)
    (hvalid : ValidAt daqRange l p) (hnew : ∀ i < daqGdsMaxTpAllowed, s.tpNum i ≠ l.place p)
    (hfill : Filled daqRange l s t slot (l.place p)) : Placed daqRange l t := by
  have hother : ∀ i, i ≠ slot → t.tpNum i = s.tpNum i := by
    intro i hi
    rw [hfill.tpNum, Function.update_of_ne hi]
  have hslot : t.tpNum slot = l.place p := by rw [hfill.tpNum, Function.update_self]
  constructor
  case distinct =>
    intro i hi j hj hne heq
    by_cases his : i = slot
    · by_cases hjs : j = slot
      · rw [his, hjs]
      · rw [his, hslot, hother j hjs] at heq
        exact absurd heq.symm (hnew j hj)
    · rw [hother i his] at hne heq
      by_cases hjs : j = slot
      · rw [hjs, hslot] at heq
        exact absurd heq (hnew i hi)
      · rw [hother j hjs] at heq
        exact h.distinct i hi j hj hne heq
  case requested =>
    intro i hi hne
    by_cases his : i = slot
    · rw [his, hslot]
      exact mem_validRequests.mpr ⟨p, hp, hvalid, rfl⟩
    · rw [hother i his] at hne ⊢
      exact h.requested i hi hne
  case denotes =>
    intro i hi hne
    by_cases his : i = slot
    · rw [his, hslot]
      exact hfill.denotes
    · rw [hother i his] at hne ⊢
      rw [hfill.entry i his]
      exact h.denotes i hi hne
  case listIndex =>
    intro i hi hne
    by_cases his : i = slot
    · rw [his, hslot]
      exact hfill.listIndex
    · rw [hother i his] at hne ⊢
      unfold ListIndex
      rw [hfill.entry i his, hfill.excTable i his]
      exact h.listIndex i hi hne

/-- The pass that inserts, at one place of the lists and with an empty slot. -/
def selectAt (daqRange : DaqRange) (m : GdsLists) (s : DaqState K) (slot p : ℕ) : DaqState K :=
  if p ≥ daqGdsMaxTpAllowed then selectExc daqRange s slot (m.place p) (p - daqGdsMaxTpAllowed)
  else selectTp daqRange s slot (m.place p)

theorem selectNew_cons (is : List ℕ) : selectNew daqRange m s (p :: is) =
    if m.place p = 0 then selectNew daqRange m s is
    else match emptySlot s.tpNum with
      | none => s
      | some slot => selectNew daqRange m (selectAt daqRange m s slot p) is := rfl

/-- The slot gets the number with this entry. -/
theorem filled_putSlot {e : ℕ → DaqExc} {lt : DaqLkupTable → DaqLkupTable}
    (he : ∀ j, j ≠ slot → e j = s.excTable j) (hlt : ∀ old, Denotes daqRange n (lt old))
    (hindex : ∀ old, (lt old).type.isExc → (lt old).sigNum < daqGdsMaxTpAllowed ∧
      l.excnum (lt old).sigNum = n ∧ (e slot).offset = (lt old).sigNum) :
    Filled daqRange l s (({ s with excTable := e } : DaqState K).putSlot slot n lt) slot n := by
  have hentry := slotEntry_putSlot ({ s with excTable := e } : DaqState K) slot n lt
  constructor
  case tpNum => rfl
  case entry => exact fun j hj => (hentry j).trans (if_neg hj)
  case excTable => exact he
  case denotes =>
    rw [hentry, if_pos rfl]
    exact hlt _
  case listIndex =>
    unfold ListIndex
    rw [hentry, if_pos rfl]
    exact hindex _

theorem filled_selectTp (hsize : 0 < daqRange.filtTpSize) (htp : daqRange.isTp n) :
    Filled daqRange l s (selectTp daqRange s slot n) slot n := by
  unfold selectTp
  dsimp only
  split
  · rename_i hfm
    refine filled_putSlot (e := s.excTable) (fun _ _ => rfl) (fun old => ⟨hfm, ?_⟩) fun old => nofun
    -- the system, the module and the signal are digits of the number
    have hsys := Nat.div_add_mod (n - daqRange.filtTpMin) daqRange.filtTpSize
    have hlt := Nat.mod_lt (n - daqRange.filtTpMin) hsize
    rw [Nat.mul_comm] at hsys
    dsimp only
    generalize (n - daqRange.filtTpMin) / daqRange.filtTpSize * daqRange.filtTpSize = a at hsys ⊢
    unfold daqNumFmTp
    omega
  · rename_i hfm
    have hx : daqRange.xTpMin ≤ n ∧ n < daqRange.xTpMax := htp.resolve_left hfm
    rw [if_pos hx]
    refine filled_putSlot (e := s.excTable) (fun _ _ => rfl) (fun old => ⟨hx, ?_⟩) fun old => nofun
    exact (Nat.add_sub_cancel' hx.1).symm

theorem filled_selectExc (hsize : 0 < daqRange.filtExSize) (hexc : daqRange.isExc n) {j : ℕ}
    (hj : j < daqGdsMaxTpAllowed) (hlist : l.excnum j = n) :
    Filled daqRange l s (selectExc daqRange s slot n j) slot n := by
  unfold selectExc
  dsimp only
  split
  · rename_i hfm
    refine filled_putSlot (fun k hk => Function.update_of_ne hk _ _) (fun old => ⟨hfm, ?_⟩)
      fun old _ => ⟨hj, hlist, by rw [Function.update_self]⟩
    have hsys := Nat.div_add_mod (n - daqRange.filtExMin) daqRange.filtExSize
    rw [Nat.mul_comm] at hsys
    refine ⟨?_, Nat.mod_lt _ hsize⟩
    rw [Nat.add_assoc, hsys]
    exact (Nat.add_sub_cancel' hfm.1).symm
  · rename_i hfm
    have hx : daqRange.xExMin ≤ n ∧ n < daqRange.xExMax := hexc.resolve_left hfm
    rw [if_pos hx]
    refine filled_putSlot (fun k hk => Function.update_of_ne hk _ _) (fun old => ⟨hx, ?_⟩)
      fun old _ => ⟨hj, hlist, by rw [Function.update_self]⟩
    exact (Nat.add_sub_cancel' hx.1).symm

/-- The place holds a number that is at the same place of the full list. -/
theorem filled_selectAt (hfilt : 0 < daqRange.filtTpSize) (hex : 0 < daqRange.filtExSize)
    (hp : p < 2 * daqGdsMaxTpAllowed) (hvalid : ValidAt daqRange m p)
    (hsame : m.place p = l.place p) :
    Filled daqRange l s (selectAt daqRange m s slot p) slot (l.place p) := by
  obtain ⟨-, hkind⟩ := hvalid
  unfold selectAt
  rw [hsame] at hkind ⊢
  split
  · rename_i hexc
    rw [if_pos hexc] at hkind
    refine filled_selectExc hex hkind (by omega) ?_
    rw [GdsLists.place, if_pos hexc]
  · rename_i htp
    rw [if_neg htp] at hkind
    exact filled_selectTp hfilt hkind

/-- A number that is not of the kind of its list is left out. -/
theorem selectAt_of_not_valid (hne : m.place p ≠ 0) (hnot : ¬ ValidAt daqRange m p) :
    selectAt daqRange m s slot p = s := by
  have hkind := fun h => hnot ⟨hne, h⟩
  unfold selectAt
  split
  · rename_i hexc
    rw [if_pos hexc] at hkind
    unfold selectExc
    dsimp only
    exact (if_neg fun h => hkind (Or.inl h)).trans (if_neg fun h => hkind (Or.inr h))
  · rename_i htp
    rw [if_neg htp] at hkind
    unfold selectTp
    dsimp only
    exact (if_neg fun h => hkind (Or.inl h)).trans (if_neg fun h => hkind (Or.inr h))

/-! ## The second pass -/

/-- The numbers left at these places have been put into empty slots, until there were no more
valid ones, or no more slots. -/
structure Inserted (daqRange : DaqRange) (l m : GdsLists) (s : DaqState K) (is : List ℕ)
    (t : DaqState K) : Prop where
  placed : Placed daqRange l t
  kept : ∀ i < daqGdsMaxTpAllowed, s.tpNum i ≠ 0 → t.tpNum i = s.tpNum i
  full_or_present : (∀ i < daqGdsMaxTpAllowed, t.tpNum i ≠ 0) ∨
    ∀ p ∈ is, ValidAt daqRange m p → ∃ i < daqGdsMaxTpAllowed, t.tpNum i = m.place p

theorem Inserted.skip {is : List ℕ} (h : Inserted daqRange l m s is t)
    (hnot : ¬ ValidAt daqRange m p) : Inserted daqRange l m s (p :: is) t := by
  refine ⟨h.placed, h.kept, h.full_or_present.imp id fun hpresent => ?_⟩
  intro q hq hvalid
  rcases List.mem_cons.mp hq with rfl | hq
  · exact absurd hvalid hnot
  · exact hpresent q hq hvalid

theorem Inserted.cons {is : List ℕ} {u : DaqState K} (h : Inserted daqRange l m t is u)
    (hslot : emptySlot s.tpNum = some slot) (hnum : t.tpNum = Function.update s.tpNum slot n)
    (hne : n ≠ 0) (hplace : m.place p = n) : Inserted daqRange l m s (p :: is) u := by
  obtain ⟨hbound, hempty, -⟩ := emptySlot_eq_some.mp hslot
  have hgot : u.tpNum slot = n := by
    have htslot : t.tpNum slot = n := by rw [hnum, Function.update_self]
    rw [h.kept slot hbound (htslot ▸ hne), htslot]
  refine ⟨h.placed, fun i hi hused => ?_, h.full_or_present.imp id fun hpresent => ?_⟩
  · have his : i ≠ slot := fun heq => hused (heq ▸ hempty)
    have hsame : t.tpNum i = s.tpNum i := by rw [hnum, Function.update_of_ne his]
    rw [h.kept i hi (hsame ▸ hused), hsame]
  · intro q hq hvalid
    rcases List.mem_cons.mp hq with rfl | hq
    · exact ⟨slot, hbound, hgot.trans hplace.symm⟩
    · exact hpresent q hq hvalid

/-- The second pass over these places, whose numbers are in no slot. -/
theorem Placed.selectNew (hfilt : 0 < daqRange.filtTpSize) (hex : 0 < daqRange.filtExSize)
    (h : Placed daqRange l s) (hm : m.Distinct) {is : List ℕ} (hnodup : is.Nodup)
    (his : ∀ p ∈ is, p < 2 * daqGdsMaxTpAllowed)
    (hrest : ∀ p ∈ is, m.place p ≠ 0 → m.place p = l.place p ∧
      ∀ i < daqGdsMaxTpAllowed, s.tpNum i ≠ m.place p) :
    Inserted daqRange l m s is (selectNew daqRange m s is) := by
  induction is generalizing s with
  | nil => exact ⟨h, fun _ _ _ => rfl, Or.inr fun p hp => absurd hp List.not_mem_nil⟩
  | cons p is ih =>
    obtain ⟨hpis, hnodup'⟩ := List.nodup_cons.mp hnodup
    have hp := his p List.mem_cons_self
    have his' := fun q hq => his q (List.mem_cons_of_mem p hq)
    have hrest' := fun q hq => hrest q (List.mem_cons_of_mem p hq)
    rw [selectNew_cons]
    by_cases hzero : m.place p = 0
    · rw [if_pos hzero]
      exact (ih h hnodup' his' hrest').skip fun hvalid => hvalid.1 hzero
    rw [if_neg hzero]
    obtain ⟨hsame, hnew⟩ := hrest p List.mem_cons_self hzero
    cases hslot : emptySlot s.tpNum with
    | none =>
      refine ⟨h, fun _ _ _ => rfl, Or.inl fun i hi => ?_⟩
      have hnone := List.find?_eq_none.mp hslot i (List.mem_range.mpr hi)
      simpa using hnone
    | some slot =>
      dsimp only
      by_cases hvalid : ValidAt daqRange m p
      · have hfill : Filled daqRange l s (selectAt daqRange m s slot p) slot (l.place p) :=
          filled_selectAt hfilt hex hp hvalid hsame
        have hvalid' : ValidAt daqRange l p := by
          unfold ValidAt at hvalid ⊢
          rw [← hsame]
          exact hvalid
        refine (ih (h.fill hp hvalid' (hsame ▸ hnew) hfill) hnodup' his' fun q hq hne => ?_).cons
          hslot hfill.tpNum (hsame ▸ hzero) hsame
        -- the number that has come to the slot is at no other place
        obtain ⟨hsameq, hnewq⟩ := hrest' q hq hne
        refine ⟨hsameq, fun i hi heq => ?_⟩
        rw [hfill.tpNum] at heq
        by_cases hislot : i = slot
        · rw [hislot, Function.update_self, ← hsame] at heq
          exact hpis (hm p hp q (his' q hq) hzero heq ▸ hq)
        · rw [Function.update_of_ne hislot] at heq
          exact hnewq i hi heq
      · rw [selectAt_of_not_valid hzero hvalid]
        exact (ih h hnodup' his' hrest').skip hvalid

/-! ## A look at the lists -/

/-- The numbers that stay, with the lists that are looked at now. -/
theorem Placed.searched (h : Placed daqRange l s) (hl' : RequestsOk daqRange l')
    (hheld : HeldInKind daqRange s l') {r : DaqState K × GdsLists}
    (hr : Searched s l' daqGdsMaxTpAllowed r) : Placed daqRange l' r.1 := by
  have hstays : ∀ i < daqGdsMaxTpAllowed, r.1.tpNum i ≠ 0 → Stays s l' i := by
    intro i hi hne
    by_contra hnot
    exact hne (hr.cleared i hi hnot)
  have hnum : ∀ i < daqGdsMaxTpAllowed, r.1.tpNum i ≠ 0 → r.1.tpNum i = s.tpNum i :=
    fun i hi hne => hr.kept i fun _ => hstays i hi hne
  constructor
  case distinct =>
    intro i hi j hj hne heq
    rw [hnum j hj (heq ▸ hne), hnum i hi hne] at heq
    rw [hnum i hi hne] at hne
    exact h.distinct i hi j hj hne heq
  case requested =>
    intro i hi hne
    obtain ⟨p, hp, hplace, -⟩ := hstays i hi hne
    have hsame := hnum i hi hne
    rw [hsame] at hne ⊢
    exact mem_validRequests.mpr ⟨p, hp, hheld i hi hne p hp hplace, hplace⟩
  case denotes =>
    intro i hi hne
    rw [hr.entry i fun _ => hstays i hi hne]
    have hsame := hnum i hi hne
    rw [hsame] at hne ⊢
    exact h.denotes i hi hne
  case listIndex =>
    intro i hi hne hexc
    obtain ⟨p, hp, hplace, hcounts⟩ := hstays i hi hne
    rw [hr.offset i]
    rw [hr.entry i fun _ => hstays i hi hne] at hexc ⊢
    have hsame := hnum i hi hne
    rw [hsame] at hne ⊢
    obtain ⟨hlt, -, hoffset⟩ := h.listIndex i hi hne hexc
    have hone : OneKind daqRange (s.tpNum i) := hplace ▸ hl'.oneKind p hp (hplace ▸ hne)
    have hkind := (hheld i hi hne p hp hplace).2
    rw [hplace] at hkind
    split at hkind
    · rename_i hge
      refine ⟨hlt, ?_, hoffset⟩
      rw [← hoffset, ← hcounts hge, ← hplace, GdsLists.place, if_pos hge]
    · exact absurd hkind (hone.not_isTp (h.denotes i hi hne).1 hexc)

/-- A number that is requested again is found. -/
theorem Placed.stays (h : Placed daqRange l s) (hl : l.Distinct) (hl' : RequestsOk daqRange l')
    (hheld : HeldInKind daqRange s l') (hi : i < daqGdsMaxTpAllowed) (hne : s.tpNum i ≠ 0)
    (hagain : ∃ j < daqGdsMaxTpAllowed, l'.tpnum j = s.tpNum i ∨
      (l.excnum j = s.tpNum i ∧ l'.excnum j = s.tpNum i)) : Stays s l' i := by
  obtain ⟨j, hj, htp | ⟨hold, hnew⟩⟩ := hagain
  · exact ⟨j, by omega, (l'.place_tpnum hj).trans htp, fun hge => absurd hge (not_le.mpr hj)⟩
  -- the number denotes an excitation, so that the entry has its index of the last lists
  have hplace : l'.place (daqGdsMaxTpAllowed + j) = s.tpNum i := (l'.place_excnum j).trans hnew
  have hp : daqGdsMaxTpAllowed + j < 2 * daqGdsMaxTpAllowed := by omega
  have hkind := (hheld i hi hne _ hp hplace).2
  rw [if_pos (Nat.le_add_right _ _), hplace] at hkind
  have hone : OneKind daqRange (s.tpNum i) := hplace ▸ hl'.oneKind _ hp (hplace ▸ hne)
  have hexc : (slotEntry s i).type.isExc := by
    by_contra hnot
    exact hone.not_isExc (h.denotes i hi hne).1 (by simpa using hnot) hkind
  obtain ⟨hlt, hlist, hoffset⟩ := h.listIndex i hi hne hexc
  have hindex : daqGdsMaxTpAllowed + (slotEntry s i).sigNum = daqGdsMaxTpAllowed + j := by
    refine hl _ (by omega) _ hp ?_ ?_
    · rw [l.place_excnum, hlist]
      exact hne
    · rw [l.place_excnum, l.place_excnum, hlist, hold]
  exact ⟨_, hp, hplace, fun _ => by omega⟩

/-- Distinct valid requests that fill all slots are all of them, if there are not more. -/
theorem Placed.all_of_full (h : Placed daqRange l s)
    (hlen : (validRequests daqRange l).length ≤ daqGdsMaxTpAllowed)
    (hfull : ∀ i < daqGdsMaxTpAllowed, s.tpNum i ≠ 0) :
    ∀ n ∈ validRequests daqRange l, ∃ i < daqGdsMaxTpAllowed, s.tpNum i = n := by
  have hnodup : ((List.range daqGdsMaxTpAllowed).map s.tpNum).Nodup := by
    refine List.Nodup.map_on (fun i hi j hj heq => ?_) List.nodup_range
    rw [List.mem_range] at hi hj
    exact h.distinct i hi j hj (hfull i hi) heq
  have hsub : (List.range daqGdsMaxTpAllowed).map s.tpNum ⊆ validRequests daqRange l := by
    intro n hn
    obtain ⟨i, hi, rfl⟩ := List.mem_map.mp hn
    rw [List.mem_range] at hi
    exact h.requested i hi (hfull i hi)
  have hperm := (List.subperm_of_subset hnodup hsub).perm_of_length_le (by simpa using hlen)
  intro n hn
  obtain ⟨i, hi, heq⟩ := List.mem_map.mp (hperm.mem_iff.mpr hn)
  exact ⟨i, List.mem_range.mp hi, heq⟩

theorem slotEntry_countTps (u : DaqState K) (hi : i < daqGdsMaxTpAllowed) (hne : u.tpNum i ≠ 0) :
    slotEntry (countTps sysRate u) i =
      { slotEntry u i with offset := u.tpStart + 4 * sysRate * i } := by
  have hlt := lt_numTps hi hne
  have hsize : sysRate * 4 * i = 4 * sysRate * i := by rw [Nat.mul_comm sysRate]
  rw [countTps_eq]
  unfold slotEntry withOffsets
  dsimp only
  rw [if_pos (by omega), Nat.add_sub_cancel_left, hsize]

variable [Zero K]

/-- Both passes over the slots. -/
theorem Placed.updateSlots (hfilt : 0 < daqRange.filtTpSize) (hex : 0 < daqRange.filtExSize)
    (h : Placed daqRange l s) (hl : l.Distinct)
    (hl' : RequestsOk daqRange (gdsLists sysRate inp))
    (hheld : HeldInKind daqRange s (gdsLists sysRate inp)) :
    Placed daqRange (gdsLists sysRate inp) (updateSlots sysRate daqRange s inp) ∧
      ((validRequests daqRange (gdsLists sysRate inp)).length ≤ daqGdsMaxTpAllowed →
        ∀ n ∈ validRequests daqRange (gdsLists sysRate inp),
          ∃ i < daqGdsMaxTpAllowed, (updateSlots sysRate daqRange s inp).tpNum i = n) ∧
      KeepsSlots l (gdsLists sysRate inp) s (updateSlots sysRate daqRange s inp) := by
  unfold Drv.updateSlots
  generalize gdsLists sysRate inp = l' at hl' hheld ⊢
  dsimp only
  have hr := searched_foldl (k := daqGdsMaxTpAllowed) hl'.distinct h.distinct le_rfl
  generalize (List.range daqGdsMaxTpAllowed).foldl deselect (s, l') = r at hr ⊢
  have hrest : ∀ p ∈ List.range (2 * daqGdsMaxTpAllowed), r.2.place p ≠ 0 →
      r.2.place p = l'.place p ∧ ∀ i < daqGdsMaxTpAllowed, r.1.tpNum i ≠ r.2.place p := by
    intro p hp hne
    rw [List.mem_range] at hp
    obtain ⟨hplace, hnone⟩ := hr.place_of_ne_zero hp hne
    refine ⟨hplace, fun i hi heq => ?_⟩
    -- the number of a slot has been taken from its place
    have hstays : Stays s l' i := by
      by_contra hnot
      exact hne (heq ▸ hr.cleared i hi hnot)
    obtain ⟨q, hq, htaken⟩ := hstays
    have hnum : l'.place p = l'.place q := by
      rw [htaken.1, ← hr.kept i fun _ => ⟨q, hq, htaken⟩, heq, hplace]
    exact hnone i hi (hl'.distinct p hp q hq (hplace ▸ hne) hnum ▸ htaken)
  have hins := (h.searched hl' hheld hr).selectNew hfilt hex (hr.distinct hl'.distinct)
    List.nodup_range (fun p hp => List.mem_range.mp hp) hrest
  have hstay : ∀ i < daqGdsMaxTpAllowed, s.tpNum i ≠ 0 → Stays s l' i →
      (Drv.selectNew daqRange r.2 r.1 (List.range (2 * daqGdsMaxTpAllowed))).tpNum i =
        s.tpNum i := by
    intro i hi hne hstays
    have hkept : r.1.tpNum i = s.tpNum i := hr.kept i fun _ => hstays
    rw [hins.kept i hi (hkept ▸ hne), hkept]
  refine ⟨hins.placed, fun hlen n hn => ?_, fun i hi hne hagain => ?_⟩
  · rcases hins.full_or_present with hfull | hpresent
    · exact hins.placed.all_of_full hlen hfull n hn
    · obtain ⟨p, hp, hvalid, rfl⟩ := mem_validRequests.mp hn
      by_cases hzero : r.2.place p = 0
      · -- the number has been taken from the place, by its slot
        have htaken : ∃ i < daqGdsMaxTpAllowed, Taken s l' i p := by
          by_contra hnone
          push Not at hnone
          exact hvalid.1 ((hr.rest p hp hnone).symm.trans hzero)
        obtain ⟨i, hi, htaken⟩ := htaken
        refine ⟨i, hi, ?_⟩
        rw [htaken.1]
        exact hstay i hi (htaken.1 ▸ hvalid.1) ⟨p, hp, htaken⟩
      · have hplace := (hr.place_of_ne_zero hp hzero).1
        rw [← hplace]
        refine hpresent p (List.mem_range.mpr hp) ?_
        unfold ValidAt at hvalid ⊢
        rw [hplace]
        exact hvalid
  · exact hstay i hi hne (h.stays hl hl' hheld hi hne hagain)

theorem Follows.checkTps (hfilt : 0 < daqRange.filtTpSize) (hex : 0 < daqRange.filtExSize)
    (h : Follows sysRate daqRange l s) (hl : l.Distinct)
    (hl' : RequestsOk daqRange (gdsLists sysRate inp))
    (hheld : HeldInKind daqRange s (gdsLists sysRate inp)) :
    Follows sysRate daqRange (gdsLists sysRate inp) (checkTps sysRate daqRange s inp) ∧
      KeepsSlots l (gdsLists sysRate inp) s (checkTps sysRate daqRange s inp) := by
  obtain ⟨hplaced, hcomplete, hkeeps⟩ := h.placed.updateSlots hfilt hex hl hl' hheld
  obtain ⟨_, _, _, _, _, _, hupdate, -⟩ := slotChange_updateSlots sysRate daqRange s inp
  have hchans : (Drv.updateSlots sysRate daqRange s inp).dataInfo.numChans =
      s.dataInfo.numChans := by rw [hupdate]
  unfold Drv.checkTps
  generalize Drv.updateSlots sysRate daqRange s inp = u at *
  have hentry : ∀ i < daqGdsMaxTpAllowed, u.tpNum i ≠ 0 → slotEntry (countTps sysRate u) i =
      { slotEntry u i with offset := u.tpStart + 4 * sysRate * i } :=
    fun i => slotEntry_countTps u
  have htpNum : (countTps sysRate u).tpNum = u.tpNum := by rw [countTps_eq]
  have hexcTable : (countTps sysRate u).excTable = u.excTable := by rw [countTps_eq]
  have hstart : (countTps sysRate u).tpStart = u.tpStart := by rw [countTps_eq]
  have hinfo : (countTps sysRate u).dataInfo = u.dataInfo := by rw [countTps_eq]
  constructor
  · constructor
    case placed =>
      constructor
      all_goals rw [htpNum]
      case distinct => exact hplaced.distinct
      case requested => exact hplaced.requested
      case denotes =>
        intro i hi hne
        rw [hentry i hi hne]
        exact hplaced.denotes i hi hne
      case listIndex =>
        intro i hi hne
        unfold ListIndex
        rw [hentry i hi hne, hexcTable]
        exact hplaced.listIndex i hi hne
    case complete =>
      rw [htpNum]
      exact hcomplete
    case offset =>
      intro i hi hne
      rw [htpNum] at hne
      rw [hentry i hi hne, hstart]
    case room =>
      rw [hinfo, hchans]
      exact h.room
  · intro i hi hne hagain
    rw [htpNum]
    exact hkeeps i hi hne hagain

/-! ## Runs -/

omit [Zero K] in
/-- The slots are those of the other state. -/
theorem Follows.congr (h : Follows sysRate daqRange l s) (htpNum : t.tpNum = s.tpNum)
    (htable : t.localTable = s.localTable) (hexc : t.excTable = s.excTable)
    (hinfo : t.dataInfo = s.dataInfo) (hstart : t.tpStart = s.tpStart) :
    Follows sysRate daqRange l t := by
  have hentry : ∀ i, slotEntry t i = slotEntry s i := by
    intro i
    rw [slotEntry, slotEntry, htable, hinfo]
  obtain ⟨⟨hdistinct, hrequested, hdenotes, hindex⟩, hcomplete, hoffset, hroom⟩ := h
  unfold ListIndex at hindex
  refine ⟨⟨?_, ?_, ?_, ?_⟩, ?_, ?_, ?_⟩
  all_goals simp only [ListIndex, hentry, htpNum, hexc, hinfo, hstart]
  all_goals assumption

variable [Add K] [Sub K] [Mul K]

theorem daqWrite_of_checks (h : ChecksTps sysRate s) : daqWrite B sysRate daqRange s inp =
    checkTps sysRate daqRange (announce (cycleBody B sysRate s inp)) inp := by
  obtain ⟨hsame, hslot, -, -⟩ := cycleBody_spec B sysRate s inp
  have hnum : (announce (cycleBody B sysRate s inp)).daqBlockNum =
      (s.daqBlockNum + 1) % daqNumDataBlocks := by rw [announce, hsame.daqBlockNum]
  rw [daqWrite_eq, endBlock_eq, hnum, hslot, if_pos h.1, if_pos h.2]

variable (B daqRange) in
/-- A cycle that neither looks at the lists nor loads a configuration. -/
theorem daqWrite_of_not_checks (h : ¬ ChecksTps sysRate s) (hrec : ¬ Reconfigures sysRate s inp) :
    daqWrite B sysRate daqRange s inp = cycleBody B sysRate s inp ∨
      daqWrite B sysRate daqRange s inp = announce (cycleBody B sysRate s inp) ∨
      daqWrite B sysRate daqRange s inp = updateNet (announce (cycleBody B sysRate s inp)) := by
  obtain ⟨hsame, hslot, -, -⟩ := cycleBody_spec B sysRate s inp
  have hnum : (announce (cycleBody B sysRate s inp)).daqBlockNum =
      (s.daqBlockNum + 1) % daqNumDataBlocks := by rw [announce, hsame.daqBlockNum]
  rw [daqWrite_eq, endBlock_eq, hnum, hslot]
  by_cases hlast : (s.daqSlot + 1) % sysRate = sysRate - 1
  · have hother : (s.daqBlockNum + 1) % daqNumDataBlocks ≠ 15 := fun heq => h ⟨hlast, heq⟩
    rw [if_pos hlast, if_neg hother]
    split
    · rename_i hzero
      rw [if_neg fun hnew => hrec ⟨hlast, hzero, hnew⟩]
      exact Or.inr (Or.inr rfl)
    · exact Or.inr (Or.inl rfl)
  · rw [if_neg hlast]
    exact Or.inl rfl

/-- A cycle without a reconfiguration. -/
structure RequestStep (sysRate : ℕ) (daqRange : DaqRange) (s : DaqState K) (inp : DaqCall K) :
    Prop where
  reconfig : ¬ Reconfigures sysRate s inp
  requests : ChecksTps sysRate s → RequestsOk daqRange (gdsLists sysRate inp)
  held : ChecksTps sysRate s → HeldInKind daqRange s (gdsLists sysRate inp)

/-- The lists of the last look in a run, from `l` on. -/
def lastLists (B : DaqBuild K) (sysRate : ℕ) (daqRange : DaqRange) (s : DaqState K)
    (l : GdsLists) : List (DaqCall K) → GdsLists
  | [] => l
  | inp :: inps => lastLists B sysRate daqRange (daqWrite B sysRate daqRange s inp)
      (if ChecksTps sysRate s then gdsLists sysRate inp else l) inps

theorem Follows.daqWrite (hfilt : 0 < daqRange.filtTpSize) (hex : 0 < daqRange.filtExSize)
    (h : Follows sysRate daqRange l s) (hl : l.Distinct)
    (hstep : RequestStep sysRate daqRange s inp) :
    if ChecksTps sysRate s then
      Follows sysRate daqRange (gdsLists sysRate inp) (daqWrite B sysRate daqRange s inp) ∧
        KeepsSlots l (gdsLists sysRate inp) s (daqWrite B sysRate daqRange s inp)
    else Follows sysRate daqRange l (daqWrite B sysRate daqRange s inp) := by
  obtain ⟨hsame, -, -, -⟩ := cycleBody_spec B sysRate s inp
  have hbody : Follows sysRate daqRange l (cycleBody B sysRate s inp) :=
    h.congr hsame.tpNum hsame.localTable hsame.excTable hsame.dataInfo hsame.tpStart
  have hann : Follows sysRate daqRange l (announce (cycleBody B sysRate s inp)) :=
    hbody.congr rfl rfl rfl rfl rfl
  split
  · rename_i hcheck
    rw [daqWrite_of_checks hcheck]
    have htpNum : (announce (cycleBody B sysRate s inp)).tpNum = s.tpNum := hsame.tpNum
    have hheld := hstep.held hcheck
    unfold HeldInKind at hheld
    rw [← htpNum] at hheld
    obtain ⟨hfollows, hkeeps⟩ := hann.checkTps hfilt hex hl (hstep.requests hcheck) hheld
    unfold KeepsSlots at hkeeps ⊢
    rw [htpNum] at hkeeps
    exact ⟨hfollows, hkeeps⟩
  · rename_i hcheck
    obtain hend | hend | hend := daqWrite_of_not_checks B daqRange hcheck
      hstep.reconfig
    all_goals rw [hend]
    · exact hbody
    · exact hann
    · exact hann.congr rfl rfl rfl rfl rfl

/-- The slots in a run of such cycles. -/
theorem Follows.cycles (hfilt : 0 < daqRange.filtTpSize) (hex : 0 < daqRange.filtExSize)
    (h : Follows sysRate daqRange l s) (hl : l.Distinct) {inps : List (DaqCall K)}
    (hrun : StepsMeet (Drv.daqWrite B sysRate daqRange) (RequestStep sysRate daqRange) s inps) :
    Follows sysRate daqRange (lastLists B sysRate daqRange s l inps)
        (Drv.cycles B sysRate daqRange s inps) ∧
      (lastLists B sysRate daqRange s l inps).Distinct := by
  induction inps generalizing s l with
  | nil => exact ⟨h, hl⟩
  | cons inp inps ih =>
    obtain ⟨hstep, hrest⟩ := hrun
    have hnext := h.daqWrite (B := B) hfilt hex hl hstep
    unfold lastLists
    by_cases hcheck : ChecksTps sysRate s
    · rw [if_pos hcheck] at hnext ⊢
      exact ih hnext.1 (hstep.requests hcheck).distinct hrest
    · rw [if_neg hcheck] at hnext ⊢
      exact ih hnext hl hrest

/-- The lists before the first look. -/
def noLists : GdsLists := ⟨fun _ => 0, fun _ => 0⟩

omit [Zero K] [Add K] [Sub K] [Mul K] in
/-- At the start no slot is in use. -/
theorem TablesLoaded.follows {pInfo : DaqInfoBlock} (h : TablesLoaded sysRate s pInfo t)
    (hstart : Connected sysRate t) (hroom : pInfo.numChans + daqGdsMaxTpAllowed ≤ dcuMaxChannels) :
    Follows sysRate daqRange noLists t := by
  have hzero : ∀ p, noLists.place p = 0 := fun p => ite_self 0
  have hnone : ∀ n, n ∉ validRequests daqRange noLists := by
    intro n hn
    obtain ⟨p, -, hvalid, -⟩ := mem_validRequests.mp hn
    exact hvalid.1 (hzero p)
  have hunused : ∀ i < daqGdsMaxTpAllowed, ¬ t.tpNum i ≠ 0 :=
    fun i hi => not_not.mpr (hstart.tpNum i hi)
  refine ⟨⟨?_, ?_, ?_, ?_⟩, fun _ n hn => absurd hn (hnone n), ?_, fun i hi => ?_⟩
  · exact fun i hi _ _ hne => absurd hne (hunused i hi)
  · exact fun i hi hne => absurd hne (hunused i hi)
  · exact fun i hi hne => absurd hne (hunused i hi)
  · exact fun i hi hne => absurd hne (hunused i hi)
  · exact fun i hi hne => absurd hne (hunused i hi)
  · rw [h.config.numChans]
    omega

/-- After every look at the lists the slots follow them, and the numbers that are requested again
keep their slots, in every run without a reconfiguration in which the lists are distinct and no
number that is in a slot is requested in the list of the other kind. -/
theorem slots_follow_requests (B : DaqBuild K) (sysRate : ℕ) (daqRange : DaqRange)
    (hfilt : 0 < daqRange.filtTpSize) (hex : 0 < daqRange.filtExSize) (s0 s1 : DaqState K)
    (pInfo : DaqInfoBlock) (hconnect : daqConnect B sysRate daqRange s0 pInfo = some s1)
    (hroom : pInfo.numChans + daqGdsMaxTpAllowed ≤ dcuMaxChannels) (inps : List (DaqCall K))
    (inp : DaqCall K)
    (hrun : StepsMeet (daqWrite B sysRate daqRange) (RequestStep sysRate daqRange) s1
      (inps ++ [inp]))
    (hcheck : ChecksTps sysRate (cycles B sysRate daqRange s1 inps)) :
    let s := cycles B sysRate daqRange s1 inps
    let t := cycles B sysRate daqRange s1 (inps ++ [inp])
    Follows sysRate daqRange (gdsLists sysRate inp) t ∧
      KeepsSlots (lastLists B sysRate daqRange s1 noLists inps) (gdsLists sysRate inp) s t := by
  intro s t
  obtain ⟨hloaded, hstart, -, -⟩ := daqConnect_ok hconnect
  obtain ⟨hbefore, hstep, -⟩ := stepsMeet_append.mp hrun
  have hzero : ∀ p, noLists.place p = 0 := fun p => ite_self 0
  have hdistinct : noLists.Distinct := fun p _ _ _ hne => absurd (hzero p) hne
  obtain ⟨hfollows, hlast⟩ := (hloaded.follows hstart hroom).cycles hfilt hex hdistinct hbefore
  have hnext := hfollows.daqWrite (B := B) hfilt hex hlast hstep
  rw [if_pos hcheck] at hnext
  have ht : t = daqWrite B sysRate daqRange s inp := cycles_append s1 inps [inp]
  rw [ht]
  exact hnext

end Slots

/-- A call with these lists of test points and excitations. -/
def listsCall (tpnum excnum : List ℕ) : DaqCall ℤ :=
  { quietCall with gdsTp := fun table i =>
      if table = 3 then tpnum.getD i 0 else if table = 1 then excnum.getD i 0 else 0 }

/-- The numbers that are not zero are compared with all others. -/
theorem distinct_of_ne_zero {l : GdsLists}
    (h : ∀ p < 2 * daqGdsMaxTpAllowed, l.place p ≠ 0 →
      ∀ q < 2 * daqGdsMaxTpAllowed, l.place p = l.place q → p = q) : l.Distinct :=
  fun p hp q hq hne => h p hp hne q hq

theorem requestsOk_listsCall {tpnum excnum : List ℕ}
    (h : (gdsLists 1 (listsCall tpnum excnum)).Distinct) :
    RequestsOk plainRange (gdsLists 1 (listsCall tpnum excnum)) :=
  ⟨h, fun _ _ _ => (rangesOk_controllerRange (by decide)).oneKind _⟩

/-- Both lists are kept to their kinds. -/
theorem requestStep_listsCall (tpnum excnum : List ℕ) (s : DaqState ℤ)
    (h : (gdsLists 1 (listsCall tpnum excnum)).Distinct)
    (hvalid : ∀ p < 2 * daqGdsMaxTpAllowed, (gdsLists 1 (listsCall tpnum excnum)).place p ≠ 0 →
      ValidAt plainRange (gdsLists 1 (listsCall tpnum excnum)) p) :
    RequestStep 1 plainRange s (listsCall tpnum excnum) where
  reconfig := by
    rintro ⟨-, -, hnew⟩
    have hzero : (listsCall tpnum excnum).reconfig = 0 := rfl
    omega
  requests := fun _ => requestsOk_listsCall h
  held := fun _ i hi hne p hp hplace => hvalid p hp (hplace ▸ hne)

theorem slots_follow_requests_two_looks :
    ∃ s, started 1 [⟨10001, daqDatatypeFloat, 16⟩] = some s ∧
      let t := cycles plainBuild 1 plainRange s
        (List.replicate 16 (listsCall [10001] [1]) ++
          List.replicate 16 (listsCall [10002, 10001] [1]))
      Follows 1 plainRange (gdsLists 1 (listsCall [10002, 10001] [1])) t ∧
        t.tpNum 0 = 10001 ∧ t.tpNum 1 = 1 ∧ t.tpNum 2 = 10002 := by
  have hstart : started 1 [⟨10001, daqDatatypeFloat, 16⟩] =
      some ((started 1 [⟨10001, daqDatatypeFloat, 16⟩]).get rfl) := (Option.some_get _).symm
  refine ⟨_, hstart, ?_, by decide +kernel⟩
  have hfirst := fun s => requestStep_listsCall [10001] [1] s
    (distinct_of_ne_zero (by decide +kernel)) (by decide +kernel)
  have hsecond := fun s => requestStep_listsCall [10002, 10001] [1] s
    (distinct_of_ne_zero (by decide +kernel)) (by decide +kernel)
  refine (slots_follow_requests plainBuild 1 plainRange (by decide) (by decide) bootState _
    (plainInfo [⟨10001, daqDatatypeFloat, 16⟩]) hstart (by decide)
    (List.replicate 16 (listsCall [10001] [1]) ++
      List.replicate 15 (listsCall [10002, 10001] [1]))
    (listsCall [10002, 10001] [1]) ?_ (by decide +kernel)).1
  rw [List.append_assoc]
  refine stepsMeet_append.mpr ⟨stepsMeet_of_forall _ fun s inp hinp => ?_,
    stepsMeet_of_forall _ fun s inp hinp => ?_⟩
  · rw [List.eq_of_mem_replicate hinp]
    exact hfirst s
  · have hlast : inp = listsCall [10002, 10001] [1] :=
      List.eq_of_mem_replicate (n := 16) (by simpa using hinp)
    rw [hlast]
    exact hsecond s

/-- The next lists have the test point among the excitations, and the excitation among the test
points: one loses its slot, the other one keeps the index of the old list. -/
theorem other_kind_not_followed :
    ∃ s, started 1 [⟨10001, daqDatatypeFloat, 16⟩] = some s ∧
      RequestsOk plainRange (gdsLists 1 (listsCall [10001] [1])) ∧
      RequestsOk plainRange (gdsLists 1 (listsCall [1] [0, 10001])) ∧
      let held := cycles plainBuild 1 plainRange s (List.replicate 16 (listsCall [10001] [1]))
      let t := cycles plainBuild 1 plainRange held
        (List.replicate 16 (listsCall [1] [0, 10001]))
      held.tpNum 0 = 10001 ∧ t.tpNum 0 = 0 ∧ held.tpNum 1 = 1 ∧ t.tpNum 1 = 1 ∧
        (slotEntry t 1).type = .fmExc ∧
        (gdsLists 1 (listsCall [1] [0, 10001])).excnum (slotEntry t 1).sigNum = 0 := by
  refine ⟨(started 1 [⟨10001, daqDatatypeFloat, 16⟩]).get rfl, (Option.some_get _).symm,
    requestsOk_listsCall (distinct_of_ne_zero ?_), requestsOk_listsCall (distinct_of_ne_zero ?_),
    by decide +kernel⟩
  · decide +kernel
  · decide +kernel

end AdvLigoRts.Drv
