import AdvLigoRts.Fe.CardMap
import AdvLigoRts.Lib.FallibleLoop
import Mathlib.Data.List.Nodup

/-!
# The table of the IOP

What `sendIoInfoToMbuf` leaves for an IOP with given cards. `send_written` says what the table
holds when every index is in range, `send_bounds` that every index is in range if the call ends.
-/

namespace AdvLigoRts.Fe

open PvLib

/-! ## Tables and requests -/

namespace CardType

def isAdc : CardType → Bool
  | gsc16AI64SSA | gsc18AI32SSC1M => true
  | _ => false

def isDac : CardType → Bool
  | gsc16AO16 | gsc18AO8 | gsc20AO8 => true
  | _ => false

def isDio : CardType → Bool
  | con32DO | acs16Dio | acs8Dio | acs24Dio | con1616Dio | con6464Dio => true
  | _ => false

/-- The card is a DIO card as an application asks for it: also one half of a `CON_6464DIO`. -/
def isDioRequest : CardType → Bool
  | cdo64 | cdi64 => true
  | t => t.isDio

end CardType

namespace CdsCard

def isAdc (r : CdsCard) : Bool := r.type.isAdc
def isDac (r : CdsCard) : Bool := r.type.isDac
def isDio (r : CdsCard) : Bool := r.type.isDio
def isDioRequest (r : CdsCard) : Bool := r.type.isDioRequest

/-- The card in the IOP that a request asks for. -/
def serving (r : CdsCard) : CdsCard :=
  match r.type with
  | .cdo64 | .cdi64 => ⟨.con6464Dio, r.inst⟩
  | _ => r

end CdsCard

/-- What the IOP has found and mapped. -/
structure IopTable where
  adcs : List CdsCard
  dacs : List CdsCard
  dios : List (CdsCard × ℤ)
  adcs_le : adcs.length ≤ maxAdcModules
  dacs_le : dacs.length ≤ maxDacModules
  dios_le : dios.length ≤ maxDioModules
  adcs_type : ∀ c ∈ adcs, c.isAdc = true
  dacs_type : ∀ c ∈ dacs, c.isDac = true
  dios_type : ∀ x ∈ dios, x.1.isDio = true
  nodup : (adcs ++ dacs ++ dios.map Prod.fst).Nodup

namespace IopTable

variable (T : IopTable)

/-- The entries in the order of the table. -/
def cards : List CdsCard := T.adcs ++ T.dacs ++ T.dios.map Prod.fst

/-- The hardware record of the IOP. -/
def hardware : CdsHardware where
  adcCount := T.adcs.length
  adcType := fun i => (T.adcs[i]?.map CdsCard.type).getD .gsc16AI64SSA
  adcInstance := fun i => (T.adcs[i]?.map CdsCard.inst).getD 0
  dacCount := T.dacs.length
  dacType := fun i => (T.dacs[i]?.map CdsCard.type).getD .gsc16AI64SSA
  dacInstance := fun i => (T.dacs[i]?.map CdsCard.inst).getD 0
  doCount := T.dios.length
  doType := fun i => (T.dios[i]?.map fun x => x.1.type).getD .gsc16AI64SSA
  doInstance := fun i => (T.dios[i]?.map fun x => x.1.inst).getD 0
  pciDo := fun i => (T.dios[i]?.map Prod.snd).getD 0

/-- The IOP writes its table. -/
def send (ioMemData : IoMemData) : Except CArray SendState :=
  sendIoInfoToMbuf T.cards.length T.hardware ioMemData

/-- The IOP does not have the card that a request asks for. -/
def Missing (r : CdsCard) : Prop := r.serving ∉ T.cards

instance (r : CdsCard) : Decidable (T.Missing r) := inferInstanceAs (Decidable (¬ _))

end IopTable

/-! ## Writing the table -/

theorem touch_of_lt {a : CArray} {i : ℕ} (h : i < a.size) : touch a i = .ok () := if_pos h

theorem lt_of_touch {a : CArray} {i : ℕ} {u : Unit} (h : touch a i = .ok u) : i < a.size := by
  by_contra hlt
  rw [touch, if_neg hlt] at h
  cases h

namespace IopTable

variable (T : IopTable)

/-- The cards that control the timing, of the first `i` DIO entries. -/
def timingCards (i : ℕ) : ℕ := (T.dios.take i).countP fun x => x.1.type = .con1616Dio

theorem cards_adc {i : ℕ} (h : i < T.adcs.length) : T.cards[i]? = T.adcs[i]? := by
  rw [cards, List.append_assoc, List.getElem?_append_left h]

theorem cards_dac {i : ℕ} (h : i < T.dacs.length) : T.cards[T.adcs.length + i]? = T.dacs[i]? := by
  rw [cards, List.append_assoc, List.getElem?_append_right (Nat.le_add_right _ _),
    Nat.add_sub_cancel_left, List.getElem?_append_left h]

theorem cards_dio (i : ℕ) :
    T.cards[T.adcs.length + T.dacs.length + i]? = T.dios[i]?.map Prod.fst := by
  rw [cards, ← List.length_append, List.getElem?_append_right (Nat.le_add_right _ _),
    Nat.add_sub_cancel_left, List.getElem?_map]

theorem length_cards : T.cards.length = T.adcs.length + T.dacs.length + T.dios.length := by
  simp only [cards, List.length_append, List.length_map]

/-- The hardware record during the call, which changes `dacConfig` only. -/
structure SameHardware (hw : CdsHardware) : Prop where
  adcType : hw.adcType = T.hardware.adcType
  adcInstance : hw.adcInstance = T.hardware.adcInstance
  dacType : hw.dacType = T.hardware.dacType
  dacInstance : hw.dacInstance = T.hardware.dacInstance
  doType : hw.doType = T.hardware.doType
  doInstance : hw.doInstance = T.hardware.doInstance
  pciDo : hw.pciDo = T.hardware.pciDo

/-- The first `n` entries of the table are written. -/
structure Written (n : ℕ) (s : SendState) : Prop where
  total : s.ioMemData.totalCards = T.cards.length
  same : T.SameHardware s.hw
  entry : ∀ i < n, ∀ c, T.cards[i]? = some c →
    s.ioMemData.model i = some c.type ∧ s.ioMemData.card i = c.inst
  block : ∀ i < n, i < T.adcs.length + T.dacs.length → s.ioMemData.ipc i = i

namespace SameHardware

variable {T} {hw : CdsHardware} {n : ℕ}

theorem adc (h : T.SameHardware hw) (hn : n < T.adcs.length) :
    hw.adcType n = T.adcs[n].type ∧ hw.adcInstance n = T.adcs[n].inst := by
  rw [h.adcType, h.adcInstance]
  simp only [hardware, List.getElem?_eq_getElem hn, Option.map_some, Option.getD_some, and_self]

theorem dac (h : T.SameHardware hw) (hn : n < T.dacs.length) :
    hw.dacType n = T.dacs[n].type ∧ hw.dacInstance n = T.dacs[n].inst := by
  rw [h.dacType, h.dacInstance]
  simp only [hardware, List.getElem?_eq_getElem hn, Option.map_some, Option.getD_some, and_self]

theorem dio (h : T.SameHardware hw) (hn : n < T.dios.length) :
    hw.doType n = T.dios[n].1.type ∧ hw.doInstance n = T.dios[n].1.inst ∧
      hw.pciDo n = T.dios[n].2 := by
  rw [h.doType, h.doInstance, h.pciDo]
  simp only [hardware, List.getElem?_eq_getElem hn, Option.map_some, Option.getD_some, and_self]

theorem update (h : T.SameHardware hw) (config : ℕ → ℤ) :
    T.SameHardware { hw with dacConfig := config } :=
  { h with }

end SameHardware

namespace Written

variable {T} {n : ℕ} {s : SendState}

/-- The table does not depend on the counters of the loops. -/
theorem of_eq {t : SendState} (h : T.Written n s) (hio : t.ioMemData = s.ioMemData)
    (hsame : T.SameHardware t.hw) : T.Written n t := by
  refine ⟨?_, hsame, ?_, ?_⟩ <;> rw [hio]
  · exact h.total
  · exact h.entry
  · exact h.block

theorem store (h : T.Written n s) {c : CdsCard} (hc : T.cards[n]? = some c) (ipc : ℤ)
    (hipc : n < T.adcs.length + T.dacs.length → ipc = n) :
    T.Written (n + 1) (s.store n c.type c.inst ipc) := by
  refine ⟨h.total, h.same, fun i hi c' hc' => ?_, fun i hi hblock => ?_⟩
  · rcases Nat.lt_succ_iff_lt_or_eq.mp hi with hlt | rfl
    · simp only [SendState.store, Function.update_of_ne (Nat.ne_of_lt hlt)]
      exact h.entry i hlt c' hc'
    · obtain rfl : c = c' := Option.some.inj (hc.symm.trans hc')
      simp only [SendState.store, Function.update_self, and_self]
  · rcases Nat.lt_succ_iff_lt_or_eq.mp hi with hlt | rfl
    · simp only [SendState.store, Function.update_of_ne (Nat.ne_of_lt hlt)]
      exact h.block i hlt hblock
    · simp only [SendState.store, Function.update_self]
      exact hipc hblock

theorem sendAdc (h : T.Written n s) (hn : n < T.adcs.length) :
    ∃ t, s.sendAdc n = .ok t ∧ T.Written (n + 1) t ∧ t.tdsCount = s.tdsCount := by
  have hle := T.adcs_le
  have hadc : n < CArray.adcTable.size := Nat.lt_of_lt_of_le hn hle
  have hio : n < CArray.ioModel.size := by
    simp only [CArray.size, maxIoModules, maxAdcModules] at hadc ⊢
    omega
  obtain ⟨htype, hinst⟩ := h.same.adc hn
  have hc := (T.cards_adc hn).trans (List.getElem?_eq_getElem hn)
  refine ⟨s.store n T.adcs[n].type T.adcs[n].inst n, ?_, h.store hc _ fun _ => rfl, rfl⟩
  rw [SendState.sendAdc, touch_of_lt hadc, touch_of_lt hio, htype, hinst]
  rfl

theorem sendDac (h : T.Written s.kk s) (hn : n < T.dacs.length) (hkk : s.kk = T.adcs.length + n)
    (hconfig : ∀ i < n, s.hw.dacConfig i = (T.adcs.length + i : ℕ)) :
    ∃ t, s.sendDac n = .ok t ∧ T.Written t.kk t ∧ t.kk = T.adcs.length + (n + 1) ∧
      t.tdsCount = s.tdsCount ∧ ∀ i < n + 1, t.hw.dacConfig i = (T.adcs.length + i : ℕ) := by
  have hle := T.adcs_le
  have hdac : n < CArray.dacTable.size := Nat.lt_of_lt_of_le hn T.dacs_le
  have hio : s.kk < CArray.ioModel.size := by
    rw [hkk]
    simp only [CArray.size, maxIoModules, maxAdcModules, maxDacModules] at hdac hle ⊢
    omega
  have hcard : T.cards[s.kk]? = some T.dacs[n] := by
    rw [hkk, T.cards_dac hn, List.getElem?_eq_getElem hn]
  obtain ⟨htype, hinst⟩ := h.same.dac hn
  have hrun : s.sendDac n = .ok { s.store s.kk T.dacs[n].type T.dacs[n].inst s.kk with
      hw := { s.hw with dacConfig := Function.update s.hw.dacConfig n s.kk }
      kk := s.kk + 1 } := by
    rw [SendState.sendDac, touch_of_lt hdac, touch_of_lt hio, htype, hinst]
    rfl
  refine ⟨_, hrun, (h.store hcard _ fun _ => rfl).of_eq rfl (h.same.update _),
    congrArg (· + 1) hkk, rfl, fun i hi => ?_⟩
  rcases Nat.lt_succ_iff_lt_or_eq.mp hi with hlt | rfl
  · exact (Function.update_of_ne (Nat.ne_of_lt hlt) _ _).trans (hconfig i hlt)
  · rw [← hkk]
    exact Function.update_self ..

theorem timingCards_succ (hn : n < T.dios.length) : T.timingCards (n + 1) =
    T.timingCards n + if T.dios[n].1.type = .con1616Dio then 1 else 0 := by
  rw [timingCards, List.take_succ_eq_append_getElem hn, List.countP_append]
  simp only [List.countP_singleton, decide_eq_true_eq]
  rfl

theorem noteTiming (h : T.Written s.kk s) (hn : n < T.dios.length)
    (htds : T.timingCards (n + 1) ≤ CArray.tdsControl.size)
    (hcount : s.tdsCount = T.timingCards n) :
    ∃ t, s.noteTiming n = .ok t ∧ T.Written t.kk t ∧ t.kk = s.kk ∧
      t.tdsCount = T.timingCards (n + 1) ∧ t.hw = s.hw := by
  have hsucc := timingCards_succ hn
  have htype := (h.same.dio hn).1
  by_cases hcon : T.dios[n].1.type = .con1616Dio
  · rw [if_pos hcon] at hsucc
    have hslot : s.tdsCount < CArray.tdsControl.size := by omega
    have hrun : s.noteTiming n = .ok { s with
        tdsControl := Function.update s.tdsControl s.tdsCount n
        tdsCount := s.tdsCount + 1 } := by
      rw [SendState.noteTiming, if_pos (htype.trans hcon), touch_of_lt hslot]
      rfl
    exact ⟨_, hrun, h.of_eq rfl h.same, rfl, by rw [hsucc, ← hcount], rfl⟩
  · rw [if_neg hcon] at hsucc
    refine ⟨s, ?_, h, rfl, hcount.trans hsucc.symm, rfl⟩
    rw [SendState.noteTiming, if_neg (htype.symm ▸ hcon)]
    rfl

theorem sendDo (h : T.Written s.kk s) (hn : n < T.dios.length)
    (hkk : s.kk = T.adcs.length + T.dacs.length + n) (hio : s.kk < CArray.ioModel.size)
    (htds : T.timingCards (n + 1) ≤ CArray.tdsControl.size)
    (hcount : s.tdsCount = T.timingCards n) :
    ∃ t, s.sendDo n = .ok t ∧ T.Written t.kk t ∧ t.kk = T.adcs.length + T.dacs.length + (n + 1) ∧
      t.tdsCount = T.timingCards (n + 1) ∧ t.hw = s.hw := by
  have hdo : n < CArray.doTable.size := Nat.lt_of_lt_of_le hn T.dios_le
  obtain ⟨t, ht, hwritten, hkk', hcount', hhw⟩ := h.noteTiming hn htds hcount
  have hcard : T.cards[t.kk]? = some T.dios[n].1 := by
    rw [hkk', hkk, cards_dio, List.getElem?_eq_getElem hn]
    rfl
  obtain ⟨htype, hinst, haddress⟩ := hwritten.same.dio hn
  have hstore := hwritten.store hcard T.dios[n].2 (by intro hlt; omega)
  have hrun : s.sendDo n = .ok { t.store t.kk T.dios[n].1.type T.dios[n].1.inst T.dios[n].2 with
      kk := t.kk + 1 } := by
    rw [SendState.sendDo, touch_of_lt hdo, ht]
    show (do touch .ioModel t.kk; pure { t.store t.kk _ _ _ with kk := t.kk + 1 }) = _
    rw [touch_of_lt (hkk'.symm ▸ hio), htype, hinst, haddress]
    rfl
  exact ⟨_, hrun, hstore.of_eq rfl hwritten.same, by rw [hkk', hkk]; rfl, hcount', hhw⟩

/-- What a pass over a DIO entry that does not fail has looked at. -/
theorem sendDo_bounds {t : SendState} (h : T.Written s.kk s) (hn : n < T.dios.length)
    (hcount : s.tdsCount = T.timingCards n) (htds : T.timingCards n ≤ CArray.tdsControl.size)
    (hrun : s.sendDo n = .ok t) :
    s.kk < CArray.ioModel.size ∧ T.timingCards (n + 1) ≤ CArray.tdsControl.size := by
  obtain ⟨_, -, hrest⟩ := bind_ok hrun
  obtain ⟨s', hnote, hrest⟩ := bind_ok hrest
  obtain ⟨_, hio, -⟩ := bind_ok hrest
  have hcards : T.timingCards (n + 1) ≤ CArray.tdsControl.size := by
    rw [timingCards_succ hn]
    split
    · next hcon =>
      rw [SendState.noteTiming, if_pos ((h.same.dio hn).1.trans hcon)] at hnote
      obtain ⟨_, hslot, -⟩ := bind_ok hnote
      have hlt := lt_of_touch hslot
      omega
    · exact htds
  obtain ⟨s'', hnote', -, hkk, -⟩ := h.noteTiming hn hcards hcount
  obtain rfl : s' = s'' := Except.ok.inj (hnote.symm.trans hnote')
  exact ⟨hkk ▸ lt_of_touch hio, hcards⟩

end Written

theorem timingCards_le (i : ℕ) :
    T.timingCards i ≤ T.dios.countP fun x => x.1.type = .con1616Dio :=
  (List.take_sublist i T.dios).countP_le

theorem timingCards_all :
    T.timingCards T.dios.length = T.dios.countP fun x => x.1.type = .con1616Dio := by
  rw [timingCards, List.take_length]

theorem send_start (ioMemData : IoMemData) :
    ∃ s, T.send ioMemData = (List.range T.dios.length).foldlM SendState.sendDo s ∧
      T.Written s.kk s ∧ s.kk = T.adcs.length + T.dacs.length ∧ s.tdsCount = 0 ∧
      ∀ i < T.dacs.length, s.hw.dacConfig i = (T.adcs.length + i : ℕ) := by
  obtain ⟨s, hs, hwritten, hcount⟩ := foldlM_range_ok (f := SendState.sendAdc)
    (fun i s => T.Written i s ∧ s.tdsCount = 0) (n := T.adcs.length)
    (s := { ioMemData := clearModels T.cards.length T.hardware ioMemData, hw := T.hardware })
    (by
      intro i hi s h
      obtain ⟨t, ht, hwritten, hcount⟩ := h.1.sendAdc hi
      exact ⟨t, ht, hwritten, hcount.trans h.2⟩)
    ⟨⟨rfl, ⟨rfl, rfl, rfl, rfl, rfl, rfl, rfl⟩, by intro i hi; omega, by intro i hi; omega⟩, rfl⟩
  obtain ⟨t, ht, hwritten', hkk, hcount', hconfig⟩ := foldlM_range_ok (f := SendState.sendDac)
    (fun i t => T.Written t.kk t ∧ t.kk = T.adcs.length + i ∧ t.tdsCount = 0 ∧
      ∀ j < i, t.hw.dacConfig j = (T.adcs.length + j : ℕ)) (n := T.dacs.length)
    (s := { s with kk := T.adcs.length })
    (by
      intro i hi t h
      obtain ⟨u, hu, hwritten, hkk, hcount, hconfig⟩ := h.1.sendDac hi h.2.1 h.2.2.2
      exact ⟨u, hu, hwritten, hkk, hcount.trans h.2.2.1, hconfig⟩)
    ⟨hwritten.of_eq rfl hwritten.same, rfl, hcount, by intro i hi; omega⟩
  refine ⟨t, ?_, hwritten', hkk, hcount', hconfig⟩
  calc T.send ioMemData
      = (do
          let s ← (List.range T.adcs.length).foldlM SendState.sendAdc
            { ioMemData := clearModels T.cards.length T.hardware ioMemData, hw := T.hardware }
          let s ← (List.range T.dacs.length).foldlM SendState.sendDac
            { s with kk := T.adcs.length }
          (List.range T.dios.length).foldlM SendState.sendDo s) := rfl
    _ = (do
          let s ← (List.range T.dacs.length).foldlM SendState.sendDac
            { s with kk := T.adcs.length }
          (List.range T.dios.length).foldlM SendState.sendDo s) := by rw [hs]; rfl
    _ = (List.range T.dios.length).foldlM SendState.sendDo t := by rw [ht]; rfl

/-- A table whose indices are in range is written. -/
theorem send_written (hlen : T.cards.length ≤ maxIoModules)
    (htds : (T.dios.countP fun x => x.1.type = .con1616Dio) ≤ CArray.tdsControl.size)
    (ioMemData : IoMemData) :
    ∃ s, T.send ioMemData = .ok s ∧ T.Written T.cards.length s ∧
      ∀ i < T.dacs.length, s.hw.dacConfig i = (T.adcs.length + i : ℕ) := by
  obtain ⟨s, hs, hwritten, hkk, hcount, hconfig⟩ := T.send_start ioMemData
  obtain ⟨t, ht, hdone, hkk', -, hhw⟩ := foldlM_range_ok (f := SendState.sendDo)
    (fun i t => T.Written t.kk t ∧ t.kk = T.adcs.length + T.dacs.length + i ∧
      t.tdsCount = T.timingCards i ∧ t.hw = s.hw) (n := T.dios.length)
    (by
      rintro i hi t ⟨hwritten, hkk, hcount, hhw⟩
      have hio : t.kk < CArray.ioModel.size := by
        rw [length_cards] at hlen
        simp only [CArray.size]
        omega
      obtain ⟨u, hu, hwritten', hkk', hcount', hhw'⟩ :=
        hwritten.sendDo hi hkk hio (Nat.le_trans (T.timingCards_le _) htds) hcount
      exact ⟨u, hu, hwritten', hkk', hcount', hhw'.trans hhw⟩)
    ⟨hwritten, hkk, hcount, rfl⟩
  rw [hkk', ← length_cards] at hdone
  exact ⟨t, hs.trans ht, hdone, fun i hi => hhw ▸ hconfig i hi⟩

/-- The call ends only if every index is in range. -/
theorem send_bounds {ioMemData : IoMemData} {s : SendState} (h : T.send ioMemData = .ok s) :
    T.cards.length ≤ maxIoModules ∧
      (T.dios.countP fun x => x.1.type = .con1616Dio) ≤ CArray.tdsControl.size := by
  obtain ⟨s₀, hs, hwritten, hkk, hcount, -⟩ := T.send_start ioMemData
  have hstart : T.adcs.length + T.dacs.length ≤ CArray.ioModel.size :=
    Nat.add_le_add T.adcs_le T.dacs_le
  obtain ⟨-, hlen, hlen', -, htds⟩ := foldlM_range_invariant (f := SendState.sendDo)
    (fun i t => T.Written t.kk t ∧ t.kk = T.adcs.length + T.dacs.length + i ∧
      t.kk ≤ CArray.ioModel.size ∧ t.tdsCount = T.timingCards i ∧
      T.timingCards i ≤ CArray.tdsControl.size) (n := T.dios.length)
    (by
      rintro i hi t u ⟨hwritten, hkk, -, hcount, htds⟩ hu
      obtain ⟨hio, htds'⟩ := hwritten.sendDo_bounds hi hcount htds hu
      obtain ⟨u', hu', hwritten', hkk', hcount', -⟩ := hwritten.sendDo hi hkk hio htds' hcount
      obtain rfl : u = u' := Except.ok.inj (hu.symm.trans hu')
      exact ⟨hwritten', hkk', by omega, hcount', htds'⟩)
    ⟨hwritten, hkk, hkk ▸ hstart, hcount, Nat.zero_le _⟩ (hs.symm.trans h)
  rw [hlen, ← length_cards] at hlen'
  rw [timingCards_all] at htds
  exact ⟨hlen', htds⟩

end IopTable

end AdvLigoRts.Fe
