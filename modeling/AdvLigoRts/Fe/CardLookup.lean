import AdvLigoRts.Fe.CardTables
import AdvLigoRts.Lib.Numbering

/-!
# The cards of an application

`initmap` gives the requests local numbers (`initmap_ok`), and `mapPciModules` looks each of them
up in the table of the IOP (`mapPciModules_ok`): where the indices are in range, it stores the
block of the card that serves a request, and returns how many it has found.
-/

namespace AdvLigoRts.Fe

open PvLib

/-- The cards that an application uses. -/
structure AppCards where
  cards : List CdsCard
  adcs_le : cards.countP CdsCard.isAdc ≤ maxAdcModules
  dacs_le : cards.countP CdsCard.isDac ≤ maxDacModules
  dios_le : cards.countP CdsCard.isDioRequest ≤ maxDioModules

namespace AppCards

def adcs (A : AppCards) : List CdsCard := A.cards.filter CdsCard.isAdc
def dacs (A : AppCards) : List CdsCard := A.cards.filter CdsCard.isDac

end AppCards

namespace CardType

/-- What looking up a request with this type adds to the status. -/
def mappedCount : CardType → ℕ
  | con6464Dio => 2
  | con32DO | acs16Dio | acs8Dio | cdo64 | cdi64 => 1
  | t => if t.isAdc || t.isDac then 1 else 0

end CardType

namespace CdsCard

variable {r : CdsCard}

theorem kind_adc (h : r.isAdc = true) :
    r.isDac = false ∧ r.isDioRequest = false ∧ r.serving = r ∧ r.type.mappedCount = 1 := by
  obtain ⟨type, inst⟩ := r
  cases type <;> first | exact ⟨rfl, rfl, rfl, rfl⟩ | cases h

theorem kind_dac (h : r.isDac = true) :
    r.isAdc = false ∧ r.isDioRequest = false ∧ r.serving = r ∧ r.type.mappedCount = 1 := by
  obtain ⟨type, inst⟩ := r
  cases type <;> first | exact ⟨rfl, rfl, rfl, rfl⟩ | cases h

theorem kind_dio (h : r.isDioRequest = true) : r.isAdc = false ∧ r.isDac = false := by
  obtain ⟨type, inst⟩ := r
  cases type <;> first | exact ⟨rfl, rfl⟩ | cases h

theorem isDioRequest_of_isDio (h : r.isDio = true) : r.isDioRequest = true := by
  obtain ⟨type, inst⟩ := r
  cases type <;> first | rfl | cases h

theorem kind_of_mapped (h : r.type.mappedCount ≠ 0) :
    r.isAdc = true ∨ r.isDac = true ∨ r.isDioRequest = true := by
  obtain ⟨type, inst⟩ := r
  cases type
  all_goals first
    | exact Or.inl rfl
    | exact Or.inr (Or.inl rfl)
    | exact Or.inr (Or.inr rfl)
    | exact absurd rfl h

end CdsCard

/-! ## Local numbers of the requests -/

theorem addCard_adc {s : InitState} {r : CdsCard} (h : r.isAdc = true) (i : ℕ) :
    s.addCard (r, i) = s.addAdc r i := by
  obtain ⟨type, inst⟩ := r
  cases type <;> first | rfl | cases h

theorem addCard_dac {s : InitState} {r : CdsCard} (h : r.isDac = true) (i : ℕ) :
    s.addCard (r, i) = s.addDac r i := by
  obtain ⟨type, inst⟩ := r
  cases type <;> first | rfl | cases h

theorem addCard_other {s : InitState} {r : CdsCard} (h : (r.isAdc || r.isDac) = false)
    (i : ℕ) : s.addCard (r, i) = .ok s := by
  obtain ⟨type, inst⟩ := r
  cases type <;> first | rfl | cases h

/-- The requests in `done` have their local numbers. -/
structure Numbered (done : List CdsCard) (s : InitState) : Prop where
  adcCnt : s.adcCnt = done.countP CdsCard.isAdc
  dacCnt : s.dacCnt = done.countP CdsCard.isDac
  adcCount : s.hw.adcCount = done.countP CdsCard.isAdc
  doCount : s.hw.doCount = 0
  adcMap : Numbers CdsCard.isAdc done s.hw.adcMap
  dacMap : Numbers CdsCard.isDac done s.hw.dacMap
  adcConfig : ∀ k < done.countP CdsCard.isAdc, s.hw.adcConfig k = -1
  dacConfig : ∀ k, s.hw.dacConfig k = 0

namespace Numbered

variable {done : List CdsCard} {s : InitState} {r : CdsCard}

theorem addAdc (h : Numbered done s) (hr : r.isAdc = true)
    (hcnt : done.countP CdsCard.isAdc < maxAdcModules) (hlen : done.length < maxAdcModules) :
    s.addAdc r done.length = .ok (s.withAdc r done.length) ∧
      Numbered (done ++ [r]) (s.withAdc r done.length) := by
  have hdac := (CdsCard.kind_adc hr).1
  have hkind : s.adcCnt < CArray.adcTable.size := h.adcCnt ▸ hcnt
  have hmap : done.length < CArray.adcMap.size := hlen
  constructor
  · rw [InitState.addAdc, touch_of_lt hkind, touch_of_lt hmap]
    rfl
  · refine ⟨?_, ?_, ?_, h.doCount, ?_, h.dacMap.snoc_neg hdac, ?_, h.dacConfig⟩
    · rw [countP_snoc_pos hr, ← h.adcCnt]
      rfl
    · rw [countP_snoc_neg hdac, ← h.dacCnt]
      rfl
    · rw [countP_snoc_pos hr, ← h.adcCount]
      rfl
    · show Numbers _ _ (Function.update s.hw.adcMap done.length s.adcCnt)
      rw [h.adcCnt]
      exact h.adcMap.snoc_pos
    · intro k hk
      rw [countP_snoc_pos hr] at hk
      show Function.update s.hw.adcConfig s.adcCnt (-1) k = -1
      rw [h.adcCnt, Function.update_apply]
      split
      · rfl
      · exact h.adcConfig k (by omega)

theorem addDac (h : Numbered done s) (hr : r.isDac = true)
    (hcnt : done.countP CdsCard.isDac < maxDacModules) (hlen : done.length < maxDacModules) :
    s.addDac r done.length = .ok (s.withDac r done.length) ∧
      Numbered (done ++ [r]) (s.withDac r done.length) := by
  have hadc := (CdsCard.kind_dac hr).1
  have hkind : s.dacCnt < CArray.dacTable.size := h.dacCnt ▸ hcnt
  have hmap : done.length < CArray.dacMap.size := hlen
  constructor
  · rw [InitState.addDac, touch_of_lt hkind, touch_of_lt hmap]
    rfl
  · refine ⟨?_, ?_, ?_, h.doCount, h.adcMap.snoc_neg hadc, ?_, ?_, ?_⟩
    · rw [countP_snoc_neg hadc, ← h.adcCnt]
      rfl
    · rw [countP_snoc_pos hr, ← h.dacCnt]
      rfl
    · rw [countP_snoc_neg hadc, ← h.adcCount]
      rfl
    · show Numbers _ _ (Function.update s.hw.dacMap done.length s.dacCnt)
      rw [h.dacCnt]
      exact h.dacMap.snoc_pos
    · rw [countP_snoc_neg hadc]
      exact h.adcConfig
    · intro k
      show Function.update s.hw.dacConfig s.dacCnt 0 k = 0
      rw [Function.update_apply]
      split
      · rfl
      · exact h.dacConfig k

theorem addOther (h : Numbered done s) (hr : (r.isAdc || r.isDac) = false) :
    Numbered (done ++ [r]) s := by
  obtain ⟨hadc, hdac⟩ := Bool.or_eq_false_iff.mp hr
  refine ⟨?_, ?_, ?_, h.doCount, h.adcMap.snoc_neg hadc, h.dacMap.snoc_neg hdac, ?_, h.dacConfig⟩
  · rw [countP_snoc_neg hadc, h.adcCnt]
  · rw [countP_snoc_neg hdac, h.dacCnt]
  · rw [countP_snoc_neg hadc, h.adcCount]
  · rw [countP_snoc_neg hadc]
    exact h.adcConfig

end Numbered

/-- The number of elements before one that counts. -/
theorem countP_lt {p : CdsCard → Bool} {cards done rest : List CdsCard} {r : CdsCard}
    (hl : cards = done ++ r :: rest) (hr : p r = true) : done.countP p < cards.countP p := by
  rw [hl, List.countP_append, List.countP_cons_of_pos hr]
  omega

namespace AppCards

variable (A : AppCards)

/-- One pass of the second loop. -/
theorem addCard (hlen : A.cards.length ≤ maxAdcModules) {done rest : List CdsCard} {r : CdsCard}
    (hl : A.cards = done ++ r :: rest) {s : InitState} (h : Numbered done s) :
    ∃ t, s.addCard (r, done.length) = .ok t ∧ Numbered (done ++ [r]) t ∧
      t.hw.cardsUsed = s.hw.cardsUsed := by
  have hdone : done.length < maxAdcModules := by
    rw [hl, List.length_append, List.length_cons] at hlen
    omega
  cases hadc : r.isAdc with
  | true =>
    have hcnt := Nat.lt_of_lt_of_le (countP_lt hl hadc) A.adcs_le
    obtain ⟨hrun, hnext⟩ := h.addAdc hadc hcnt hdone
    exact ⟨_, (addCard_adc hadc _).trans hrun, hnext, rfl⟩
  | false =>
    cases hdac : r.isDac with
    | true =>
      have hcnt := Nat.lt_of_lt_of_le (countP_lt hl hdac) A.dacs_le
      obtain ⟨hrun, hnext⟩ := h.addDac hdac hcnt hdone
      exact ⟨_, (addCard_dac hdac _).trans hrun, hnext, rfl⟩
    | false =>
      have hother : (r.isAdc || r.isDac) = false := by rw [hadc, hdac]; rfl
      exact ⟨s, addCard_other hother _, h.addOther hother, rfl⟩

theorem initmap_ok (hlen : A.cards.length ≤ maxAdcModules) :
    ∃ s, initmap { cardsUsed := A.cards } = .ok s.hw ∧ Numbered A.cards s ∧
      s.hw.cardsUsed = A.cards := by
  -- the first loop only changes the maps
  obtain ⟨hw, hclear, hcards, hadcs, hdos, hconfig⟩ := foldlM_range_ok (f := clearMaps)
    (fun _ hw => hw.cardsUsed = A.cards ∧ hw.adcCount = 0 ∧ hw.doCount = 0 ∧
      ∀ k, hw.dacConfig k = 0)
    (n := A.cards.length) (s := { cardsUsed := A.cards })
    (by
      intro i hi hw h
      have hmap : i < CArray.adcMap.size := Nat.lt_of_lt_of_le hi hlen
      have hmap' : i < CArray.dacMap.size := hmap
      rw [clearMaps, touch_of_lt hmap, touch_of_lt hmap']
      exact ⟨_, rfl, h⟩)
    ⟨rfl, rfl, rfl, fun _ => rfl⟩
  obtain ⟨s, hs, hnumbered, hused⟩ := foldlM_zipIdx_ok (f := InitState.addCard)
    (fun done s => Numbered done s ∧ s.hw.cardsUsed = A.cards) (l := A.cards) (s := { hw := hw })
    (by
      intro done r rest hl s h
      obtain ⟨t, ht, hnumbered, hused⟩ := A.addCard hlen hl h.1
      exact ⟨t, ht, hnumbered, hused.trans h.2⟩)
    ⟨⟨rfl, rfl, hadcs, hdos, Numbers.nil, Numbers.nil,
      fun k hk => absurd hk (Nat.not_lt_zero k), hconfig⟩, hcards⟩
  refine ⟨s, ?_, hnumbered, hused⟩
  calc initmap { cardsUsed := A.cards }
      = (do
          let hw ← (List.range A.cards.length).foldlM clearMaps { cardsUsed := A.cards }
          let s ← hw.cardsUsed.zipIdx.foldlM InitState.addCard { hw := hw }
          pure s.hw) := rfl
    _ = (do
          let s ← hw.cardsUsed.zipIdx.foldlM InitState.addCard { hw := hw }
          pure s.hw) := by rw [hclear]; rfl
    _ = .ok s.hw := by rw [hcards, hs]; rfl

theorem initmap_bounds {hw : CdsHardware} (h : initmap { cardsUsed := A.cards } = .ok hw) :
    A.cards.length ≤ maxAdcModules := by
  obtain ⟨hw', hclear, -⟩ := bind_ok h
  exact foldlM_range_invariant (f := clearMaps) (fun i _ => i ≤ maxAdcModules)
    (by
      intro i _ hw t _ ht
      obtain ⟨_, hmap, -⟩ := bind_ok ht
      exact lt_of_touch hmap) (Nat.zero_le _) hclear

end AppCards

/-! ## Looking the requests up -/

/-- What looking up a DIO card does not change. -/
structure SameMaps (hw hw' : CdsHardware) : Prop where
  adcCount : hw'.adcCount = hw.adcCount
  adcMap : hw'.adcMap = hw.adcMap
  dacMap : hw'.dacMap = hw.dacMap
  adcConfig : hw'.adcConfig = hw.adcConfig
  dacConfig : hw'.dacConfig = hw.dacConfig

theorem mapDo_ok {io : IoMemData} {type : CardType} {doInstance : ℕ → ℤ} {found : ℕ}
    {count : CdsHardware → CdsHardware} {m : MapState} (hdo : m.hw.doCount < maxDioModules)
    (hsame : ∀ hw, SameMaps hw (count hw)) (hcount : ∀ hw, (count hw).doCount = hw.doCount)
    (i : ℕ) :
    ∃ t, MapState.mapDo io type doInstance found count m i = .ok t ∧ SameMaps m.hw t.hw ∧
      t.hw.doCount = m.hw.doCount + 1 ∧ t.status = m.status + found := by
  have htable : m.hw.doCount < CArray.doTable.size := hdo
  rw [MapState.mapDo, touch_of_lt htable]
  have hkept := hsame { m.hw with
    doType := Function.update m.hw.doType m.hw.doCount type
    pciDo := Function.update m.hw.pciDo m.hw.doCount (io.ipc i)
    doInstance := Function.update m.hw.doInstance m.hw.doCount (doInstance m.hw.doCount)
    doCount := m.hw.doCount + 1 }
  exact ⟨_, rfl, { hkept with },
    hcount _, rfl⟩

section Entry

variable {io : IoMemData} {r c : CdsCard} {i : ℕ} (hi : i < CArray.ioModel.size)
  (hmodel : io.model i = some c.type) (hcard : io.card i = c.inst) (jj : ℕ) (m : MapState)

include hi hmodel hcard

/-- An entry that does not serve the request. -/
theorem mapEntry_other (h : c = r.serving → r.type.mappedCount = 0) :
    MapState.mapEntry io r jj m i = .ok m := by
  obtain ⟨rt, ri⟩ := r
  obtain ⟨ct, ci⟩ := c
  have hunused : ∀ type, (⟨ct, ci⟩ : CdsCard) = CdsCard.serving ⟨type, ci⟩ →
      type.mappedCount ≠ 0 → ¬ (rt = type ∧ ri = ci) := by
    rintro type hserving hcount ⟨rfl, rfl⟩
    exact hcount (h hserving)
  rw [MapState.mapEntry, touch_of_lt hi, hmodel, hcard]
  cases ct
  all_goals simp only [bind, Except.bind, decide_eq_true_eq]
  -- a `CON_6464DIO` card serves three requests
  case con6464Dio =>
    rw [if_neg (hunused _ rfl (by decide)), if_neg (hunused _ rfl (by decide)),
      if_neg (hunused _ rfl (by decide))]
    rfl
  all_goals first | rfl | exact if_neg (hunused _ rfl (by decide))

theorem mapEntry_served (hc : c = r.serving) :
    (r.isAdc = true → MapState.mapEntry io r jj m i = MapState.mapAdc io jj m i) ∧
      (r.isDac = true → MapState.mapEntry io r jj m i = MapState.mapDac io jj m i) := by
  subst hc
  obtain ⟨rt, ri⟩ := r
  rw [MapState.mapEntry, touch_of_lt hi, hmodel, hcard]
  constructor
  all_goals
    intro hr
    cases rt
  all_goals first | cases hr; done | exact if_pos (decide_eq_true ⟨rfl, rfl⟩)

theorem mapEntry_dio (hr : r.isDioRequest = true) (hmapped : r.type.mappedCount ≠ 0)
    (hc : c = r.serving) (hdo : m.hw.doCount < maxDioModules) :
    ∃ t, MapState.mapEntry io r jj m i = .ok t ∧ SameMaps m.hw t.hw ∧
      t.hw.doCount = m.hw.doCount + 1 ∧ t.status = m.status + r.type.mappedCount := by
  subst hc
  obtain ⟨rt, ri⟩ := r
  rw [MapState.mapEntry, touch_of_lt hi, hmodel, hcard]
  have hfound : ∀ {p : Bool} (hp : p = true) {doInstance : ℕ → ℤ}
      {count : CdsHardware → CdsHardware} {x : Except CArray MapState}
      (_ : ∀ hw, SameMaps hw (count hw)) (_ : ∀ hw, (count hw).doCount = hw.doCount),
      ∃ t, (if p = true then MapState.mapDo io rt doInstance rt.mappedCount count m i else x)
          = .ok t ∧
        SameMaps m.hw t.hw ∧ t.hw.doCount = m.hw.doCount + 1 ∧
        t.status = m.status + rt.mappedCount := by
    intro p hp doInstance count x hsame hcount
    rw [if_pos hp]
    exact mapDo_ok hdo hsame hcount i
  cases rt
  -- the three requests that a `CON_6464DIO` card serves are tried in turn
  case cdo64 =>
    simp only [bind, Except.bind]
    rw [if_neg (by simp)]
    exact hfound (decide_eq_true ⟨trivial, rfl⟩) (fun hw => ⟨rfl, rfl, rfl, rfl, rfl⟩)
      (fun hw => rfl)
  case cdi64 =>
    simp only [bind, Except.bind]
    rw [if_neg (by simp), if_neg (by simp)]
    exact hfound (decide_eq_true ⟨trivial, rfl⟩) (fun hw => ⟨rfl, rfl, rfl, rfl, rfl⟩)
      (fun hw => rfl)
  all_goals first
    | cases hr; done
    | exact absurd rfl hmapped
    | exact hfound (decide_eq_true ⟨rfl, rfl⟩) (fun hw => ⟨rfl, rfl, rfl, rfl, rfl⟩) (fun hw => rfl)

end Entry

/-! ## The result -/

namespace IopTable

variable (T : IopTable)

/-- What looking up a request adds to the status. -/
def found (r : CdsCard) : ℕ := if T.Missing r then 0 else r.type.mappedCount

def adcBlock (r : CdsCard) : ℤ := ((T.adcs.idxOf? r).map fun i => (i : ℤ)).getD (-1)

def dacBlock (r : CdsCard) : ℤ :=
  ((T.dacs.idxOf? r).map fun i => ((T.adcs.length + i : ℕ) : ℤ)).getD 0

theorem adcBlock_of_not_mem {r : CdsCard} (h : r ∉ T.adcs) : T.adcBlock r = -1 := by
  rw [adcBlock, List.idxOf?_eq_none_iff.mpr h]
  rfl

theorem dacBlock_of_not_mem {r : CdsCard} (h : r ∉ T.dacs) : T.dacBlock r = 0 := by
  rw [dacBlock, List.idxOf?_eq_none_iff.mpr h]
  rfl

theorem adcBlock_of_mem {r : CdsCard} (h : r ∈ T.adcs) :
    ∃ i, i < T.adcs.length ∧ T.cards[i]? = some r ∧ T.adcBlock r = i := by
  cases hidx : T.adcs.idxOf? r with
  | none => exact absurd h (List.idxOf?_eq_none_iff.mp hidx)
  | some i =>
    obtain ⟨hi, hget, -⟩ := List.idxOf?_eq_some_iff.mp hidx
    refine ⟨i, hi, ?_, ?_⟩
    · rw [T.cards_adc hi, List.getElem?_eq_getElem hi, hget]
    · rw [adcBlock, hidx]
      rfl

theorem dacBlock_of_mem {r : CdsCard} (h : r ∈ T.dacs) :
    ∃ i, i < T.adcs.length + T.dacs.length ∧ T.cards[i]? = some r ∧ T.dacBlock r = i := by
  cases hidx : T.dacs.idxOf? r with
  | none => exact absurd h (List.idxOf?_eq_none_iff.mp hidx)
  | some i =>
    obtain ⟨hi, hget, -⟩ := List.idxOf?_eq_some_iff.mp hidx
    refine ⟨T.adcs.length + i, by omega, ?_, ?_⟩
    · rw [T.cards_dac hi, List.getElem?_eq_getElem hi, hget]
    · rw [dacBlock, hidx]
      rfl

variable {T}

theorem isDioRequest_of_mem {r : CdsCard} (h : r ∈ T.dios.map Prod.fst) :
    r.isDioRequest = true := by
  obtain ⟨x, hx, rfl⟩ := List.mem_map.mp h
  exact CdsCard.isDioRequest_of_isDio (T.dios_type x hx)

theorem mem_adcs {r : CdsCard} (hr : r.isAdc = true) : ¬ T.Missing r ↔ r ∈ T.adcs := by
  obtain ⟨hdac, hdio, hserving, -⟩ := CdsCard.kind_adc hr
  rw [Missing, not_not, hserving, cards, List.mem_append, List.mem_append]
  constructor
  · rintro ((h | h) | h)
    · exact h
    · exact absurd (T.dacs_type r h) (by simp [hdac])
    · exact absurd (isDioRequest_of_mem h) (by simp [hdio])
  · intro h
    exact Or.inl (Or.inl h)

theorem mem_dacs {r : CdsCard} (hr : r.isDac = true) : ¬ T.Missing r ↔ r ∈ T.dacs := by
  obtain ⟨hadc, hdio, hserving, -⟩ := CdsCard.kind_dac hr
  rw [Missing, not_not, hserving, cards, List.mem_append, List.mem_append]
  constructor
  · rintro ((h | h) | h)
    · exact absurd (T.adcs_type r h) (by simp [hadc])
    · exact h
    · exact absurd (isDioRequest_of_mem h) (by simp [hdio])
  · intro h
    exact Or.inl (Or.inr h)

variable {s : SendState} (hs : T.Written T.cards.length s)
  (hlt : T.cards.length < maxIoModules)

include hs hlt

theorem Written.at_entry {c : CdsCard} {i : ℕ} (hc : T.cards[i]? = some c) :
    i < CArray.ioModel.size ∧ s.ioMemData.model i = some c.type ∧ s.ioMemData.card i = c.inst := by
  obtain ⟨hi, -⟩ := List.getElem?_eq_some_iff.mp hc
  exact ⟨Nat.lt_trans hi hlt, hs.entry i hi c hc⟩

variable (jj : ℕ) (m : MapState)

theorem mapEntry_written {r : CdsCard} {i : ℕ} (hi : i < T.cards.length)
    (h : T.cards[i] = r.serving → r.type.mappedCount = 0) :
    MapState.mapEntry s.ioMemData r jj m i = .ok m := by
  obtain ⟨hio, hmodel, hcard⟩ := hs.at_entry hlt (List.getElem?_eq_getElem hi)
  exact mapEntry_other hio hmodel hcard jj m h

theorem mapLoop_other {r : CdsCard} (h : T.found r = 0) :
    (List.range s.ioMemData.totalCards).foldlM (MapState.mapEntry s.ioMemData r jj) m = .ok m := by
  rw [hs.total]
  apply foldlM_idle
  intro i hi m
  have hi' := List.mem_range.mp hi
  apply mapEntry_written hs hlt jj m hi'
  intro hserving
  have hpresent : ¬ T.Missing r := fun hmissing => hmissing (hserving ▸ List.getElem_mem hi')
  rwa [found, if_neg hpresent] at h

/-- A request that is served by the card at entry `p`. -/
theorem mapLoop_at {r : CdsCard} {p : ℕ} (hp : T.cards[p]? = some r.serving) :
    (List.range s.ioMemData.totalCards).foldlM (MapState.mapEntry s.ioMemData r jj) m =
      MapState.mapEntry s.ioMemData r jj m p := by
  obtain ⟨hlen, hget⟩ := List.getElem?_eq_some_iff.mp hp
  rw [hs.total]
  apply foldlM_range_unique hlen
  intro i hi hne m
  apply mapEntry_written hs hlt jj m hi
  intro hserving
  have hsame : T.cards[i] = T.cards[p] := hserving.trans hget.symm
  exact absurd ((List.Nodup.getElem_inj_iff T.nodup).mp hsame) hne

end IopTable

/-- The requests in `done` have been looked up. -/
structure Mapped (T : IopTable) (A : AppCards) (done : List CdsCard) (m : MapState) : Prop where
  adcCount : m.hw.adcCount = A.cards.countP CdsCard.isAdc
  adcMap : Numbers CdsCard.isAdc A.cards m.hw.adcMap
  dacMap : Numbers CdsCard.isDac A.cards m.hw.dacMap
  adcConfig : Assigned CdsCard.isAdc T.adcBlock (-1) A.cards done m.hw.adcConfig
  dacConfig : Assigned CdsCard.isDac T.dacBlock 0 A.cards done m.hw.dacConfig
  doCount : m.hw.doCount ≤ done.countP CdsCard.isDioRequest
  status : m.status = (done.map T.found).sum

namespace Mapped

variable {T : IopTable} {A : AppCards} {done rest : List CdsCard} {r : CdsCard} {m : MapState}

theorem sum_snoc : ((done ++ [r]).map T.found).sum = (done.map T.found).sum + T.found r := by
  rw [List.map_append, List.sum_append]
  exact congrArg _ (Nat.add_zero _)

theorem countP_le_snoc (p : CdsCard → Bool) : done.countP p ≤ (done ++ [r]).countP p := by
  rw [List.countP_append]
  exact Nat.le_add_right _ _

/-- A request that no entry serves. -/
theorem skip (h : Mapped T A done m) (hl : A.cards = done ++ r :: rest) (hr : T.found r = 0) :
    Mapped T A (done ++ [r]) m := by
  refine ⟨h.adcCount, h.adcMap, h.dacMap, ?_, ?_,
    Nat.le_trans h.doCount (countP_le_snoc _), by rw [sum_snoc, hr, h.status]; rfl⟩
  · cases hadc : r.isAdc with
    | false => exact h.adcConfig.snoc_neg hadc
    | true =>
      apply h.adcConfig.snoc_default hl hadc
      apply T.adcBlock_of_not_mem
      intro hmem
      rw [IopTable.found, if_neg ((IopTable.mem_adcs hadc).mpr hmem)] at hr
      exact absurd (CdsCard.kind_adc hadc).2.2.2 (by omega)
  · cases hdac : r.isDac with
    | false => exact h.dacConfig.snoc_neg hdac
    | true =>
      apply h.dacConfig.snoc_default hl hdac
      apply T.dacBlock_of_not_mem
      intro hmem
      rw [IopTable.found, if_neg ((IopTable.mem_dacs hdac).mpr hmem)] at hr
      exact absurd (CdsCard.kind_dac hdac).2.2.2 (by omega)

theorem mapAdc (h : Mapped T A done m) (hl : A.cards = done ++ r :: rest)
    (hlen : A.cards.length ≤ maxAdcModules) (hr : r.isAdc = true) (hpresent : ¬ T.Missing r)
    {io : IoMemData} {i : ℕ} (hipc : io.ipc i = T.adcBlock r) :
    ∃ t, MapState.mapAdc io done.length m i = .ok t ∧ Mapped T A (done ++ [r]) t := by
  obtain ⟨hdac, -, -, hone⟩ := CdsCard.kind_adc hr
  have hmap : done.length < CArray.adcMap.size := by
    rw [hl, List.length_append, List.length_cons] at hlen
    simp only [CArray.size]
    omega
  have hkk := h.adcMap.at_split hl hr
  have htable : m.hw.adcMap done.length < CArray.adcTable.size :=
    hkk ▸ Nat.lt_of_lt_of_le (countP_lt hl hr) A.adcs_le
  rw [MapState.mapAdc, touch_of_lt hmap, touch_of_lt htable]
  refine ⟨_, rfl, h.adcCount, h.adcMap, h.dacMap, ?_, h.dacConfig.snoc_neg hdac,
    Nat.le_trans h.doCount (countP_le_snoc _), ?_⟩
  · show Assigned _ _ _ _ _ (Function.update m.hw.adcConfig (m.hw.adcMap done.length) (io.ipc i))
    rw [hkk, hipc]
    exact h.adcConfig.snoc_pos hl hr
  · rw [sum_snoc, IopTable.found, if_neg hpresent, hone, ← h.status]

theorem mapDac (h : Mapped T A done m) (hl : A.cards = done ++ r :: rest)
    (hlen : A.cards.length ≤ maxAdcModules) (hr : r.isDac = true) (hpresent : ¬ T.Missing r)
    {io : IoMemData} {i : ℕ} (hipc : io.ipc i = T.dacBlock r) :
    ∃ t, MapState.mapDac io done.length m i = .ok t ∧ Mapped T A (done ++ [r]) t := by
  obtain ⟨hadc, -, -, hone⟩ := CdsCard.kind_dac hr
  have hmap : done.length < CArray.dacMap.size := by
    rw [hl, List.length_append, List.length_cons] at hlen
    simp only [CArray.size, maxDacModules, maxAdcModules] at hlen ⊢
    omega
  have hkk := h.dacMap.at_split hl hr
  have htable : m.hw.dacMap done.length < CArray.dacTable.size :=
    hkk ▸ Nat.lt_of_lt_of_le (countP_lt hl hr) A.dacs_le
  rw [MapState.mapDac, touch_of_lt hmap, touch_of_lt htable]
  refine ⟨_, rfl, h.adcCount, h.adcMap, h.dacMap, h.adcConfig.snoc_neg hadc, ?_,
    Nat.le_trans h.doCount (countP_le_snoc _), ?_⟩
  · show Assigned _ _ _ _ _ (Function.update m.hw.dacConfig (m.hw.dacMap done.length) (io.ipc i))
    rw [hkk, hipc]
    exact h.dacConfig.snoc_pos hl hr
  · rw [sum_snoc, IopTable.found, if_neg hpresent, hone, ← h.status]

theorem mapDo (h : Mapped T A done m) (hr : r.isDioRequest = true) (hpresent : ¬ T.Missing r)
    {t : MapState} (hsame : SameMaps m.hw t.hw) (hdo : t.hw.doCount = m.hw.doCount + 1)
    (hstatus : t.status = m.status + r.type.mappedCount) : Mapped T A (done ++ [r]) t := by
  obtain ⟨hadc, hdac⟩ := CdsCard.kind_dio hr
  refine ⟨hsame.adcCount.trans h.adcCount, hsame.adcMap ▸ h.adcMap, hsame.dacMap ▸ h.dacMap,
    hsame.adcConfig ▸ h.adcConfig.snoc_neg hadc, hsame.dacConfig ▸ h.dacConfig.snoc_neg hdac,
    ?_, ?_⟩
  · rw [hdo, countP_snoc_pos hr]
    exact Nat.succ_le_succ h.doCount
  · rw [hstatus, sum_snoc, IopTable.found, if_neg hpresent, h.status]

/-- What follows the inner loop does not change what counts here. -/
theorem countModel (h : Mapped T A done m) {io : IoMemData} (hlt : io.totalCards < maxIoModules) :
    ∃ t, m.countModel io = .ok t ∧ Mapped T A done t := by
  have hio : io.totalCards < CArray.ioModel.size := hlt
  rw [MapState.countModel, touch_of_lt hio]
  exact ⟨_, rfl, h.adcCount, h.adcMap, h.dacMap, h.adcConfig, h.dacConfig, h.doCount, h.status⟩

variable {s : SendState}

theorem mapLoop (h : Mapped T A done m) (hl : A.cards = done ++ r :: rest)
    (hlen : A.cards.length ≤ maxAdcModules) (hs : T.Written T.cards.length s)
    (hlt : T.cards.length < maxIoModules) :
    ∃ t, (List.range s.ioMemData.totalCards).foldlM
        (MapState.mapEntry s.ioMemData r done.length) m = .ok t ∧ Mapped T A (done ++ [r]) t := by
  by_cases hfound : T.found r = 0
  · exact ⟨m, IopTable.mapLoop_other hs hlt _ m hfound, h.skip hl hfound⟩
  have hpresent : ¬ T.Missing r := by
    intro hmissing
    rw [IopTable.found, if_pos hmissing] at hfound
    exact hfound rfl
  rw [IopTable.found, if_neg hpresent] at hfound
  rcases CdsCard.kind_of_mapped hfound with hr | hr | hr
  · obtain ⟨i, hi, hcard, hblock⟩ := T.adcBlock_of_mem ((IopTable.mem_adcs hr).mp hpresent)
    have hserving := (CdsCard.kind_adc hr).2.2.1
    rw [← hserving] at hcard
    obtain ⟨hio, hmodel, hinst⟩ := hs.at_entry hlt hcard
    have hipc := (hs.block i (by rw [T.length_cards]; omega) (by omega)).trans hblock.symm
    rw [IopTable.mapLoop_at hs hlt _ m hcard, (mapEntry_served hio hmodel hinst _ m rfl).1 hr]
    exact h.mapAdc hl hlen hr hpresent hipc
  · obtain ⟨i, hi, hcard, hblock⟩ := T.dacBlock_of_mem ((IopTable.mem_dacs hr).mp hpresent)
    have hserving := (CdsCard.kind_dac hr).2.2.1
    rw [← hserving] at hcard
    obtain ⟨hio, hmodel, hinst⟩ := hs.at_entry hlt hcard
    have hipc := (hs.block i (by rw [T.length_cards]; omega) hi).trans hblock.symm
    rw [IopTable.mapLoop_at hs hlt _ m hcard, (mapEntry_served hio hmodel hinst _ m rfl).2 hr]
    exact h.mapDac hl hlen hr hpresent hipc
  · obtain ⟨i, hcard⟩ := List.mem_iff_getElem?.mp (not_not.mp hpresent)
    obtain ⟨hio, hmodel, hinst⟩ := hs.at_entry hlt hcard
    have hdo : m.hw.doCount < maxDioModules :=
      Nat.lt_of_le_of_lt h.doCount (Nat.lt_of_lt_of_le (countP_lt hl hr) A.dios_le)
    obtain ⟨t, ht, hsame, hcount, hstatus⟩ :=
      mapEntry_dio hio hmodel hinst done.length m hr hfound rfl hdo
    rw [IopTable.mapLoop_at hs hlt _ m hcard]
    exact ⟨t, ht, h.mapDo hr hpresent hsame hcount hstatus⟩

theorem mapCard (h : Mapped T A done m) (hl : A.cards = done ++ r :: rest)
    (hlen : A.cards.length ≤ maxAdcModules) (hs : T.Written T.cards.length s)
    (hlt : T.cards.length < maxIoModules) :
    ∃ t, MapState.mapCard s.ioMemData m (r, done.length) = .ok t ∧ Mapped T A (done ++ [r]) t := by
  obtain ⟨t, ht, hmapped⟩ := h.mapLoop hl hlen hs hlt
  obtain ⟨u, hu, hcounted⟩ := hmapped.countModel (hs.total.symm ▸ hlt)
  refine ⟨u, ?_, hcounted⟩
  rw [MapState.mapCard, ht]
  exact hu

end Mapped

/-- Every request is looked up. -/
theorem mapPciModules_ok {T : IopTable} {A : AppCards} {s : SendState}
    (hlen : A.cards.length ≤ maxAdcModules) (hs : T.Written T.cards.length s)
    (hlt : A.cards ≠ [] → T.cards.length < maxIoModules) {u : InitState} (hu : Numbered A.cards u)
    (hused : u.hw.cardsUsed = A.cards) :
    ∃ m, mapPciModules s.ioMemData u.hw = .ok (m.hw, m.status) ∧ Mapped T A A.cards m := by
  have hstart : Mapped T A [] { hw := u.hw } :=
    ⟨hu.adcCount, hu.adcMap, hu.dacMap, Assigned.nil hu.adcConfig,
      Assigned.nil fun k _ => hu.dacConfig k, Nat.le_of_eq hu.doCount, rfl⟩
  obtain ⟨m, hm, hmapped⟩ := foldlM_zipIdx_ok (f := MapState.mapCard s.ioMemData)
    (fun done m => Mapped T A done m) (l := A.cards)
    (by
      intro done r rest hl m h
      have hne : A.cards ≠ [] := by rw [hl]; simp
      exact h.mapCard hl hlen hs (hlt hne)) hstart
  refine ⟨m, ?_, hmapped⟩
  rw [mapPciModules, hused, hm]
  rfl

/-- The access behind the table, which the first request leads to. -/
theorem mapPciModules_bounds {io : IoMemData} {hw : CdsHardware} {x : CdsHardware × ℕ}
    (h : mapPciModules io hw = .ok x) (hne : hw.cardsUsed ≠ []) :
    io.totalCards < maxIoModules := by
  obtain ⟨m, hm, -⟩ := bind_ok h
  obtain ⟨r, rest, hcards⟩ := List.exists_cons_of_ne_nil hne
  rw [hcards, List.zipIdx_cons] at hm
  obtain ⟨m', hfirst, -⟩ := foldlM_cons_ok hm
  obtain ⟨m'', -, hcount⟩ := bind_ok hfirst
  obtain ⟨_, hio, -⟩ := bind_ok hcount
  exact lt_of_touch hio

end AdvLigoRts.Fe
