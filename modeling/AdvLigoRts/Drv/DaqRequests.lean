import AdvLigoRts.Drv.DaqBlockWrites

/-!
# The requested numbers

A look at the GDS tables has two passes over the slots. The first one searches the number of each
slot in both lists: a number that is found is taken from its list, any other number is cleared.
-/

namespace AdvLigoRts.Drv

def GdsLists.place (l : GdsLists) (p : ℕ) : ℕ :=
  if p ≥ daqGdsMaxTpAllowed then l.excnum (p - daqGdsMaxTpAllowed) else l.tpnum p

theorem GdsLists.place_tpnum (l : GdsLists) {j : ℕ} (hj : j < daqGdsMaxTpAllowed) :
    l.place j = l.tpnum j := if_neg (not_le.mpr hj)

theorem GdsLists.place_excnum (l : GdsLists) (j : ℕ) :
    l.place (daqGdsMaxTpAllowed + j) = l.excnum j := by
  rw [GdsLists.place, if_pos (Nat.le_add_right _ _), Nat.add_sub_cancel_left]

/-- A test point is taken from its place. -/
theorem place_eraseTp (l : GdsLists) {j : ℕ} (hj : j < daqGdsMaxTpAllowed) :
    GdsLists.place { l with tpnum := Function.update l.tpnum j 0 } =
      Function.update l.place j 0 := by
  funext p
  unfold GdsLists.place
  dsimp only
  by_cases hp : p ≥ daqGdsMaxTpAllowed
  · rw [if_pos hp, Function.update_of_ne (by omega), if_pos hp]
  · rw [if_neg hp]
    by_cases hpj : p = j
    · rw [hpj, Function.update_self, Function.update_self]
    · rw [Function.update_of_ne hpj, Function.update_of_ne hpj, if_neg hp]

theorem place_eraseExc (l : GdsLists) (j : ℕ) :
    GdsLists.place { l with excnum := Function.update l.excnum j 0 } =
      Function.update l.place (daqGdsMaxTpAllowed + j) 0 := by
  funext p
  unfold GdsLists.place
  dsimp only
  by_cases hpj : p = daqGdsMaxTpAllowed + j
  · rw [hpj, if_pos (Nat.le_add_right _ _), Nat.add_sub_cancel_left, Function.update_self,
      Function.update_self]
  · rw [Function.update_of_ne hpj]
    by_cases hp : p ≥ daqGdsMaxTpAllowed
    · rw [if_pos hp, if_pos hp, Function.update_of_ne (by omega)]
    · rw [if_neg hp, if_neg hp]

/-- The non-zero numbers of the lists are distinct. -/
def GdsLists.Distinct (l : GdsLists) : Prop :=
  ∀ p < 2 * daqGdsMaxTpAllowed, ∀ q < 2 * daqGdsMaxTpAllowed,
    l.place p ≠ 0 → l.place p = l.place q → p = q

/-! ## `in_the_lists` -/

/-- The place of the lists holds the number, and it counts for the slot. -/
def Finds (excTable : ℕ → DaqExc) (tp slot : ℕ) (l : GdsLists) (p : ℕ) : Prop :=
  l.place p = tp ∧ (p ≥ daqGdsMaxTpAllowed → p - daqGdsMaxTpAllowed = (excTable slot).offset)

section Search

variable {excTable : ℕ → DaqExc} {tp slot : ℕ} {l : GdsLists} {is : List ℕ}

theorem inTheListsFrom_of_not (his : ∀ i ∈ is, i < daqGdsMaxTpAllowed)
    (h : ∀ p < 2 * daqGdsMaxTpAllowed, ¬ Finds excTable tp slot l p) :
    inTheListsFrom excTable tp slot l is = (false, l) := by
  induction is with
  | nil => rfl
  | cons i is ih =>
    have hi := his i List.mem_cons_self
    have htp : l.tpnum i ≠ tp := by
      intro heq
      refine h i (by omega) ⟨?_, fun hge => absurd hge (not_le.mpr hi)⟩
      rw [l.place_tpnum hi, heq]
    have hexc : l.excnum i = tp → i ≠ (excTable slot).offset := by
      intro heq hoffset
      refine h (daqGdsMaxTpAllowed + i) (by omega) ⟨?_, fun _ => ?_⟩
      · rw [l.place_excnum, heq]
      · rw [Nat.add_sub_cancel_left, hoffset]
    unfold inTheListsFrom
    rw [if_neg htp]
    split
    · rename_i heq
      rw [if_pos (hexc heq)]
    · exact ih fun j hj => his j (List.mem_cons_of_mem i hj)

theorem inTheListsFrom_of_finds {p : ℕ} (his : ∀ i ∈ is, i < daqGdsMaxTpAllowed)
    (hdistinct : l.Distinct) (htp : tp ≠ 0) (hp : p < 2 * daqGdsMaxTpAllowed)
    (h : Finds excTable tp slot l p) (hmem : p % daqGdsMaxTpAllowed ∈ is) :
    ∃ l', inTheListsFrom excTable tp slot l is = (true, l') ∧
      l'.place = Function.update l.place p 0 := by
  obtain ⟨hnum, hoffset⟩ := h
  have honly : ∀ q < 2 * daqGdsMaxTpAllowed, l.place q = tp → q = p := fun q hq heq =>
    hdistinct q hq p hp (heq ▸ htp) (heq.trans hnum.symm)
  induction is with
  | nil => cases hmem
  | cons i is ih =>
    have hi := his i List.mem_cons_self
    unfold inTheListsFrom
    by_cases htpnum : l.tpnum i = tp
    · have hip : i = p := honly i (by omega) ((l.place_tpnum hi).trans htpnum)
      rw [if_pos htpnum]
      exact ⟨_, rfl, hip ▸ place_eraseTp l hi⟩
    · rw [if_neg htpnum]
      by_cases hexcnum : l.excnum i = tp
      · have hip : daqGdsMaxTpAllowed + i = p :=
          honly _ (by omega) ((l.place_excnum i).trans hexcnum)
        have hsame : i = (excTable slot).offset := by
          have hplace := hoffset (by omega)
          omega
        rw [if_pos hexcnum, if_neg (not_not.mpr hsame)]
        exact ⟨_, rfl, hip ▸ place_eraseExc l i⟩
      · rw [if_neg hexcnum]
        refine ih (fun j hj => his j (List.mem_cons_of_mem i hj)) ?_
        -- the number is at neither of the two places with this index
        rcases List.mem_cons.mp hmem with heq | hrest
        · exfalso
          rcases lt_or_ge p daqGdsMaxTpAllowed with hlow | hhigh
          · rw [Nat.mod_eq_of_lt hlow] at heq
            rw [← heq, ← l.place_tpnum hlow] at htpnum
            exact htpnum hnum
          · have hpi : p = daqGdsMaxTpAllowed + i := by
              unfold daqGdsMaxTpAllowed at *
              omega
            rw [hpi, l.place_excnum] at hnum
            exact hexcnum hnum
        · exact hrest

theorem inTheLists_of_not (h : ∀ p < 2 * daqGdsMaxTpAllowed, ¬ Finds excTable tp slot l p) :
    inTheLists excTable tp slot l = (false, l) :=
  inTheListsFrom_of_not (fun _ hi => List.mem_range.mp hi) h

theorem inTheLists_of_finds {p : ℕ} (hdistinct : l.Distinct) (htp : tp ≠ 0)
    (hp : p < 2 * daqGdsMaxTpAllowed) (h : Finds excTable tp slot l p) :
    ∃ l', inTheLists excTable tp slot l = (true, l') ∧ l'.place = Function.update l.place p 0 :=
  inTheListsFrom_of_finds (fun _ hi => List.mem_range.mp hi) hdistinct htp hp h
    (List.mem_range.mpr (Nat.mod_lt p (by decide)))

end Search

/-! ## The first pass -/

section Pass

variable {K : Type} {s : DaqState K} {l : GdsLists} {i k p : ℕ}
variable {r : DaqState K × GdsLists}

/-- The number of the slot `i` is at the place, and the place counts for the slot. -/
def Taken (s : DaqState K) (l : GdsLists) (i p : ℕ) : Prop :=
  Finds s.excTable (s.tpNum i) i l p

/-- The number of the slot is found in the lists. -/
def Stays (s : DaqState K) (l : GdsLists) (i : ℕ) : Prop :=
  ∃ p < 2 * daqGdsMaxTpAllowed, Taken s l i p

/-- What the first pass over `k` slots has done: a number that is found stays, any other one is
cleared, and the places of the numbers that stay are zero. -/
structure Searched (s : DaqState K) (l : GdsLists) (k : ℕ) (r : DaqState K × GdsLists) : Prop where
  kept : ∀ i, (i < k → Stays s l i) → r.1.tpNum i = s.tpNum i
  cleared : ∀ i < k, ¬ Stays s l i → r.1.tpNum i = 0
  entry : ∀ i, (i < k → Stays s l i) → slotEntry r.1 i = slotEntry s i
  offset : ∀ i, (r.1.excTable i).offset = (s.excTable i).offset
  taken : ∀ p < 2 * daqGdsMaxTpAllowed, (∃ i < k, Taken s l i p) → r.2.place p = 0
  rest : ∀ p < 2 * daqGdsMaxTpAllowed, (∀ i < k, ¬ Taken s l i p) → r.2.place p = l.place p

theorem Searched.place_of_ne_zero (h : Searched s l k r) (hp : p < 2 * daqGdsMaxTpAllowed)
    (hne : r.2.place p ≠ 0) : r.2.place p = l.place p ∧ ∀ i < k, ¬ Taken s l i p := by
  have hnone : ∀ i < k, ¬ Taken s l i p := fun i hi htaken => hne (h.taken p hp ⟨i, hi, htaken⟩)
  exact ⟨h.rest p hp hnone, hnone⟩

theorem Searched.distinct (h : Searched s l k r) (hl : l.Distinct) : r.2.Distinct := by
  intro p hp q hq hne heq
  obtain ⟨hplace, -⟩ := h.place_of_ne_zero hp hne
  obtain ⟨hplace', -⟩ := h.place_of_ne_zero hq (heq ▸ hne)
  rw [hplace] at hne heq
  rw [hplace'] at heq
  exact hl p hp q hq hne heq

/-- A slot without a number changes nothing. -/
theorem Searched.skip (h : Searched s l k r) (hzero : s.tpNum k = 0) :
    Searched s l (k + 1) r := by
  have hkept : ∀ i, (i < k + 1 → Stays s l i) → (i < k → Stays s l i) :=
    fun i hi hlt => hi (by omega)
  constructor
  case kept => exact fun i hi => h.kept i (hkept i hi)
  case cleared =>
    intro i hi hstays
    by_cases hik : i = k
    · subst hik
      exact (h.kept i fun hlt => absurd hlt (lt_irrefl i)).trans hzero
    · exact h.cleared i (by omega) hstays
  case entry => exact fun i hi => h.entry i (hkept i hi)
  case offset => exact h.offset
  case taken =>
    rintro p hp ⟨i, hi, htaken⟩
    by_contra hne
    obtain ⟨hplace, hnone⟩ := h.place_of_ne_zero hp hne
    by_cases hik : i = k
    · subst hik
      exact hne (hplace.trans (htaken.1.trans hzero))
    · exact hnone i (by omega) htaken
  case rest => exact fun p hp hnone => h.rest p hp fun i hi => hnone i (by omega)

theorem Searched.found (h : Searched s l k r) (hl : l.Distinct)
    (hp : p < 2 * daqGdsMaxTpAllowed) (htaken : Taken s l k p) (hne : s.tpNum k ≠ 0)
    {l' : GdsLists} (hl' : l'.place = Function.update r.2.place p 0) :
    Searched s l (k + 1) (r.1, l') := by
  have hstays : Stays s l k := ⟨p, hp, htaken⟩
  have hkept : ∀ i, (i < k + 1 → Stays s l i) → (i < k → Stays s l i) :=
    fun i hi hlt => hi (by omega)
  constructor
  case kept => exact fun i hi => h.kept i (hkept i hi)
  case cleared =>
    intro i hi hnot
    have hik : i ≠ k := fun heq => hnot (heq ▸ hstays)
    exact h.cleared i (by omega) hnot
  case entry => exact fun i hi => h.entry i (hkept i hi)
  case offset => exact h.offset
  case taken =>
    rintro q hq ⟨i, hi, htaken'⟩
    show l'.place q = 0
    rw [hl']
    by_cases hqp : q = p
    · rw [hqp, Function.update_self]
    · rw [Function.update_of_ne hqp]
      refine h.taken q hq ⟨i, ?_, htaken'⟩
      have hik : i ≠ k := by
        rintro rfl
        have hsame := htaken'.1.trans htaken.1.symm
        exact hqp (hl q hq p hp (htaken'.1 ▸ hne) hsame)
      omega
  case rest =>
    intro q hq hnone
    have hqp : q ≠ p := by
      rintro rfl
      exact hnone k (Nat.lt_succ_self k) htaken
    show l'.place q = l.place q
    rw [hl', Function.update_of_ne hqp]
    exact h.rest q hq fun i hi => hnone i (by omega)

variable [Zero K]

theorem deselectSlot_offset (s : DaqState K) (i j : ℕ) :
    ((deselectSlot s i).excTable j).offset = (s.excTable j).offset := by
  have hexc : (Function.update s.excTable i { s.excTable i with sigNum := 0 } j).offset =
      (s.excTable j).offset := by
    by_cases hj : j = i
    · subst hj
      rw [Function.update_self]
    · rw [Function.update_of_ne hj]
  unfold deselectSlot
  dsimp only
  split
  · exact hexc
  · exact hexc
  · rfl

theorem Searched.notFound (h : Searched s l k r) (hnot : ¬ Stays s l k) :
    Searched s l (k + 1) (deselectSlot r.1 k, r.2) := by
  have hother : ∀ i, (i < k + 1 → Stays s l i) → i ≠ k := by
    rintro i hi rfl
    exact hnot (hi (Nat.lt_succ_self i))
  have htpNum := deselectSlot_tpNum r.1 k
  constructor
  case kept =>
    intro i hi
    show (deselectSlot r.1 k).tpNum i = s.tpNum i
    rw [htpNum, Function.update_of_ne (hother i hi)]
    exact h.kept i fun hlt => hi (by omega)
  case cleared =>
    intro i hi hnot'
    show (deselectSlot r.1 k).tpNum i = 0
    rw [htpNum]
    by_cases hik : i = k
    · rw [hik, Function.update_self]
    · rw [Function.update_of_ne hik]
      exact h.cleared i (by omega) hnot'
  case entry =>
    intro i hi
    show slotEntry (deselectSlot r.1 k) i = slotEntry s i
    rw [slotEntry_deselectSlot, if_neg (hother i hi)]
    exact h.entry i fun hlt => hi (by omega)
  case offset => exact fun i => (deselectSlot_offset r.1 k i).trans (h.offset i)
  case taken =>
    rintro q hq ⟨i, hi, htaken⟩
    have hik : i ≠ k := by
      rintro rfl
      exact hnot ⟨q, hq, htaken⟩
    exact h.taken q hq ⟨i, by omega, htaken⟩
  case rest => exact fun q hq hnone => h.rest q hq fun i hi => hnone i (by omega)

/-- The body of the loop on the slot `k`, whose number is in no slot before it. -/
theorem Searched.deselect (h : Searched s l k r) (hl : l.Distinct)
    (hslots : s.tpNum k ≠ 0 → ∀ i < k, s.tpNum i ≠ s.tpNum k) :
    Searched s l (k + 1) (deselect r k) := by
  have hnum : r.1.tpNum k = s.tpNum k := h.kept k fun hlt => absurd hlt (lt_irrefl k)
  have hoffset := h.offset k
  unfold Drv.deselect
  rw [hnum]
  by_cases hzero : s.tpNum k = 0
  · rw [if_pos hzero]
    exact h.skip hzero
  rw [if_neg hzero]
  dsimp only
  by_cases hstays : Stays s l k
  · obtain ⟨p, hp, htaken⟩ := hstays
    have hplace : r.2.place p = l.place p := h.rest p hp fun i hi htaken' =>
      hslots hzero i hi (htaken'.1.symm.trans htaken.1)
    have hfinds : Finds r.1.excTable (s.tpNum k) k r.2 p := by
      refine ⟨hplace.trans htaken.1, fun hge => ?_⟩
      rw [hoffset]
      exact htaken.2 hge
    obtain ⟨l', hsearch, hl'⟩ := inTheLists_of_finds (h.distinct hl) hzero hp hfinds
    rw [hsearch]
    exact h.found hl hp htaken hzero hl'
  · have hnone : ∀ p < 2 * daqGdsMaxTpAllowed, ¬ Finds r.1.excTable (s.tpNum k) k r.2 p := by
      rintro p hp ⟨hplace, hcounts⟩
      obtain ⟨hsame, -⟩ := h.place_of_ne_zero hp (hplace ▸ hzero)
      rw [hoffset] at hcounts
      exact hstays ⟨p, hp, hsame.symm.trans hplace, hcounts⟩
    rw [inTheLists_of_not hnone]
    exact h.notFound hstays

/-- The first pass, when the numbers of the slots and those of the lists are distinct. -/
theorem searched_foldl (hl : l.Distinct)
    (hslots : ∀ i < daqGdsMaxTpAllowed, ∀ j < daqGdsMaxTpAllowed, s.tpNum i ≠ 0 →
      s.tpNum i = s.tpNum j → i = j) (hk : k ≤ daqGdsMaxTpAllowed) :
    Searched s l k ((List.range k).foldl deselect (s, l)) := by
  induction k with
  | zero =>
    constructor
    case cleared => exact fun i hi => absurd hi (Nat.not_lt_zero i)
    case taken => exact fun p _ ⟨i, hi, _⟩ => absurd hi (Nat.not_lt_zero i)
    all_goals intros; rfl
  | succ k ih =>
    rw [List.range_succ, List.foldl_append]
    refine (ih (by omega)).deselect hl fun hne i hi heq => ?_
    have hik := hslots k (by omega) i (by omega) hne heq.symm
    omega

end Pass

end AdvLigoRts.Drv
