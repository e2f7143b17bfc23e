import AdvLigoRts.Drv.DaqLayout
import AdvLigoRts.Lib.Machine
import Mathlib.Data.List.Range

/-!
# What a cycle of `daqWrite` changes

Within a block `daqWrite` changes the buffer, the histories and the excitations only (`SameBlock`).
-/

namespace AdvLigoRts.Drv

open PvLib

section Cycle

variable {K : Type} {B : DaqBuild K} {sysRate : ℕ} {daqRange : DaqRange}
variable {s t u : DaqState K} {inp : DaqCall K} {inps : List (DaqCall K)}

/-! ## Within a block -/

/-- The two states are of one block. -/
structure SameBlock (s t : DaqState K) : Prop where
  daqBlockNum : t.daqBlockNum = s.daqBlockNum
  daqXmitBlockNum : t.daqXmitBlockNum = s.daqXmitBlockNum
  pWriteBuffer : t.pWriteBuffer = s.pWriteBuffer
  xferInfo : t.xferInfo = s.xferInfo
  localTable : t.localTable = s.localTable
  excTable : t.excTable = s.excTable
  dataInfo : t.dataInfo = s.dataInfo
  tpStart : t.tpStart = s.tpStart
  validTp : t.validTp = s.validTp
  validTpNet : t.validTpNet = s.validTpNet
  tpNum : t.tpNum = s.tpNum
  tpNumNet : t.tpNumNet = s.tpNumNet
  totalChans : t.totalChans = s.totalChans
  dipc : t.dipc = s.dipc
  tpPtr : t.tpPtr = s.tpPtr

theorem SameBlock.refl (s : DaqState K) : SameBlock s s := by
  constructor
  all_goals rfl

theorem SameBlock.trans (h : SameBlock s t) (h' : SameBlock t u) : SameBlock s u := by
  constructor
  case daqBlockNum => exact h'.daqBlockNum.trans h.daqBlockNum
  case daqXmitBlockNum => exact h'.daqXmitBlockNum.trans h.daqXmitBlockNum
  case pWriteBuffer => exact h'.pWriteBuffer.trans h.pWriteBuffer
  case xferInfo => exact h'.xferInfo.trans h.xferInfo
  case localTable => exact h'.localTable.trans h.localTable
  case excTable => exact h'.excTable.trans h.excTable
  case dataInfo => exact h'.dataInfo.trans h.dataInfo
  case tpStart => exact h'.tpStart.trans h.tpStart
  case validTp => exact h'.validTp.trans h.validTp
  case validTpNet => exact h'.validTpNet.trans h.validTpNet
  case tpNum => exact h'.tpNum.trans h.tpNum
  case tpNumNet => exact h'.tpNumNet.trans h.tpNumNet
  case totalChans => exact h'.totalChans.trans h.totalChans
  case dipc => exact h'.dipc.trans h.dipc
  case tpPtr => exact h'.tpPtr.trans h.tpPtr

/-- The state in which the samples of the next cycle are taken. -/
def atSlot (sysRate : ℕ) (s : DaqState K) : DaqState K :=
  { s with daqSlot := (s.daqSlot + 1) % sysRate }

variable (sysRate) in
theorem sameBlock_atSlot (s : DaqState K) : SameBlock s (atSlot sysRate s) := by
  constructor
  all_goals rfl

/-! ## The look at the GDS tables -/

variable {tpNum : ℕ → ℕ}

theorem emptySlot_eq_some {slot : ℕ} :
    emptySlot tpNum = some slot ↔
      slot < daqGdsMaxTpAllowed ∧ tpNum slot = 0 ∧ ∀ j < slot, tpNum j ≠ 0 := by
  simp [emptySlot, List.find?_range_eq_some, and_left_comm]

theorem emptySlot_le {n slot : ℕ} (hused : ∀ i < daqGdsMaxTpAllowed, tpNum i ≠ 0 → i < n)
    (hslot : emptySlot tpNum = some slot) : slot ≤ n := by
  obtain ⟨hbound, -, hfull⟩ := emptySlot_eq_some.mp hslot
  by_contra hnot
  exact absurd (hused n (by omega) (hfull n (by omega))) (lt_irrefl n)

/-- What every deselection and every selection keeps holds after the loops that update the
slots. -/
theorem selectNew_induction {l : GdsLists} (P : DaqState K → Prop)
    (htp : ∀ s slot tpn, P s → tpn ≠ 0 → emptySlot s.tpNum = some slot →
      P (selectTp daqRange s slot tpn))
    (hexc : ∀ s slot tpn ii, P s → tpn ≠ 0 → emptySlot s.tpNum = some slot →
      P (selectExc daqRange s slot tpn ii))
    (hs : P s) (is : List ℕ) : P (selectNew daqRange l s is) := by
  induction is generalizing s with
  | nil => exact hs
  | cons i is ih =>
    unfold selectNew
    dsimp only
    by_cases hi : i ≥ daqGdsMaxTpAllowed
    · simp only [if_pos hi]
      split
      · exact ih hs
      · rename_i hne
        split
        · exact hs
        · rename_i slot hslot
          exact ih (hexc s slot _ _ hs hne hslot)
    · simp only [if_neg hi]
      split
      · exact ih hs
      · rename_i hne
        split
        · exact hs
        · rename_i slot hslot
          exact ih (htp s slot _ hs hne hslot)

def SlotChange (s t : DaqState K) : Prop :=
  ∃ exciteInput excSignal excTable tpNum localTable tp, t = { s with
      exciteInput := exciteInput, excSignal := excSignal, excTable := excTable, tpNum := tpNum,
      localTable := localTable, dataInfo := { s.dataInfo with tp := tp } } ∧
    ∀ i < s.dataInfo.numChans, localTable i = s.localTable i ∧ tp i = s.dataInfo.tp i

theorem SlotChange.trans (h : SlotChange s t) (h' : SlotChange t u) : SlotChange s u := by
  obtain ⟨e, x, et, tn, lt, tp, rfl, hsame⟩ := h
  obtain ⟨e', x', et', tn', lt', tp', rfl, hsame'⟩ := h'
  refine ⟨e', x', et', tn', lt', tp', rfl, fun i hi => ?_⟩
  obtain ⟨hlt, htp⟩ := hsame' i hi
  exact ⟨hlt.trans (hsame i hi).1, htp.trans (hsame i hi).2⟩

theorem update_behind {α : Type} (f : ℕ → α) {n i j : ℕ} (a : α) (hj : j < n) :
    Function.update f (n + i) a j = f j :=
  Function.update_of_ne (by omega) _ _

theorem slotChange_putSlot (s : DaqState K) (slot tpn : ℕ) (lt : DaqLkupTable → DaqLkupTable) :
    SlotChange s (s.putSlot slot tpn lt) :=
  ⟨_, _, _, _, _, _, rfl, fun _ hj => ⟨update_behind _ _ hj, update_behind _ _ hj⟩⟩

theorem SlotChange.refl (s : DaqState K) : SlotChange s s :=
  ⟨_, _, _, _, _, _, rfl, fun _ _ => ⟨rfl, rfl⟩⟩

theorem slotChange_selectTp (s : DaqState K) (slot tpn : ℕ) :
    SlotChange s (selectTp daqRange s slot tpn) := by
  unfold selectTp
  dsimp only
  split
  · exact slotChange_putSlot s slot tpn _
  · split
    · exact slotChange_putSlot s slot tpn _
    · exact SlotChange.refl s

theorem slotChange_selectExc (s : DaqState K) (slot tpn ii : ℕ) :
    SlotChange s (selectExc daqRange s slot tpn ii) := by
  have hput : ∀ exc lt, SlotChange s
      (({ s with excTable := Function.update s.excTable slot exc } : DaqState K).putSlot
        slot tpn lt) :=
    fun exc lt => ⟨_, _, _, _, _, _, rfl, fun _ hj => ⟨update_behind _ _ hj, update_behind _ _ hj⟩⟩
  unfold selectExc
  dsimp only
  split
  · exact hput _ _
  · split
    · exact hput _ _
    · exact SlotChange.refl s

theorem numTps_le (tpNum : ℕ → ℕ) (n : ℕ) : numTps tpNum n ≤ n := by
  induction n with
  | zero => exact le_rfl
  | succ n ih =>
    unfold numTps
    split
    · exact le_rfl
    · exact ih.trans (Nat.le_succ n)

theorem lt_numTps {n i : ℕ} (hi : i < n) (hused : tpNum i ≠ 0) : i < numTps tpNum n := by
  induction n with
  | zero => exact absurd hi (Nat.not_lt_zero i)
  | succ n ih =>
    unfold numTps
    split
    · exact hi
    · rename_i hempty
      have hne : i ≠ n := fun heq => hempty (heq ▸ hused)
      exact ih (by omega)

/-- All slots in use are among the first `h`. -/
theorem numTps_le_of {n h : ℕ} (hused : ∀ i < n, tpNum i ≠ 0 → i < h) : numTps tpNum n ≤ h := by
  induction n with
  | zero => exact Nat.zero_le h
  | succ n ih =>
    unfold numTps
    split
    · rename_i hlast
      exact hused n (Nat.lt_succ_self n) hlast
    · exact ih fun i hi => hused i (Nat.lt_succ_of_lt hi)

theorem numTps_mono {f g : ℕ → ℕ} {n : ℕ} (h : ∀ i < n, f i ≠ 0 → g i ≠ 0) :
    numTps f n ≤ numTps g n :=
  numTps_le_of fun i hi hne => lt_numTps hi (h i hi hne)

/-- The table with the offsets of the first `n` slots. -/
def withOffsets (sysRate : ℕ) (s : DaqState K) (n : ℕ) : ℕ → DaqLkupTable := fun k =>
  if s.dataInfo.numChans ≤ k ∧ k < s.dataInfo.numChans + n then
    { s.localTable k with offset := s.tpStart + sysRate * 4 * (k - s.dataInfo.numChans) }
  else s.localTable k

theorem foldl_assignOffset (n : ℕ) (hstart : s.xferInfo.offsetAccum = s.tpStart) :
    (List.range n).foldl (assignOffset sysRate) s = { s with
      localTable := withOffsets sysRate s n
      xferInfo := { s.xferInfo with offsetAccum := s.tpStart + sysRate * 4 * n } } := by
  induction n with
  | zero =>
    have hnone : withOffsets sysRate s 0 = s.localTable := by
      funext k
      exact if_neg (by omega)
    have hxfer : { s.xferInfo with offsetAccum := s.tpStart } = s.xferInfo := by rw [← hstart]
    rw [hnone, Nat.mul_zero, Nat.add_zero, hxfer]
    rfl
  | succ n ih =>
    rw [List.range_succ, List.foldl_append, ih, List.foldl_cons, List.foldl_nil]
    have htable : Function.update (withOffsets sysRate s n) (s.dataInfo.numChans + n)
        { withOffsets sysRate s n (s.dataInfo.numChans + n) with
          offset := s.tpStart + sysRate * 4 * n } = withOffsets sysRate s (n + 1) := by
      funext k
      by_cases hk : k = s.dataInfo.numChans + n
      · subst hk
        rw [Function.update_self, withOffsets, withOffsets, if_neg (by omega), if_pos (by omega),
          Nat.add_sub_cancel_left]
      · rw [Function.update_of_ne hk, withOffsets, withOffsets]
        by_cases hin : s.dataInfo.numChans ≤ k ∧ k < s.dataInfo.numChans + n
        · rw [if_pos hin, if_pos (by omega)]
        · rw [if_neg hin, if_neg (by omega)]
    have hsum : s.tpStart + sysRate * 4 * (n + 1) =
        s.tpStart + sysRate * 4 * n + sysRate * 4 := by
      rw [Nat.mul_succ (sysRate * 4), Nat.add_assoc]
    rw [← htable, hsum]
    rfl

/-- The slots when they have been counted. -/
theorem countTps_eq (s : DaqState K) :
    let n := numTps s.tpNum daqGdsMaxTpAllowed
    countTps sysRate s = { s with
      totalChans := s.dataInfo.numChans + n
      validTp := n
      localTable := withOffsets sysRate s n
      xferInfo := { s.xferInfo with
        totalSize := s.xferInfo.crcLength + n * sysRate * 4
        offsetAccum := s.tpStart + sysRate * 4 * n } } := by
  unfold countTps
  dsimp only
  rw [foldl_assignOffset _ rfl]
  rfl

/-! ## Reconfigurations -/

/-- Both functions accept the configuration, and there is something to acquire. -/
def Accepted (B : DaqBuild K) (sysRate : ℕ) (daqRange : DaqRange) (s : DaqState K)
    (pInfo : DaqInfoBlock) : Prop :=
  ∃ info len x table,
    daqConfig B.maxModules B.cdsEpicsOutInts s.dataInfo pInfo = some (info, len) ∧ len ≠ 0 ∧
    loadLocalTable sysRate { s.xferInfo with crcLength := len } s.localTable info daqRange
      pInfo.configFileCrc = .ok (x, table)

/-- The cycle ends a block in which the configuration is loaded anew. -/
def Reconfigures (sysRate : ℕ) (s : DaqState K) (inp : DaqCall K) : Prop :=
  (s.daqSlot + 1) % sysRate = sysRate - 1 ∧ (s.daqBlockNum + 1) % daqNumDataBlocks = 0 ∧
    inp.reconfig = 1

/-- What an accepted configuration leaves in the tables. -/
structure TablesLoaded (sysRate : ℕ) (s : DaqState K) (pInfo : DaqInfoBlock) (t : DaqState K) :
    Prop where
  config : Configured s.dataInfo pInfo t.dataInfo
  xfer : XferLoaded sysRate t.dataInfo (daqDataLength t.dataInfo) t.xferInfo t.dataInfo.numChans
  table : TableLoaded sysRate t.dataInfo s.localTable t.localTable t.dataInfo.numChans
  tpStart : t.tpStart = chanOffset sysRate t.dataInfo t.dataInfo.numChans
  totalChans : t.totalChans = t.dataInfo.numChans

variable {pInfo : DaqInfoBlock}

/-- What is accepted: the rates are not above that of the front end, and the test points are in
one of the ranges. -/
theorem accepted_of_channels (hchans : pInfo.numChans ≤ dcuMaxChannels)
    (hepics : 0 < pInfo.numEpicsTotal)
    (hrate : ∀ k < pInfo.numChans, (pInfo.tp k).dataRate / daqNumDataBlocks ≤ sysRate)
    (hsource : ∀ k < pInfo.numChans, daqRange.Holds (pInfo.tp k).tpnum) :
    Accepted B sysRate daqRange s pInfo := by
  obtain ⟨info, len, hconfig⟩ : ∃ info len, daqConfig B.maxModules B.cdsEpicsOutInts s.dataInfo
      pInfo = some (info, len) := by
    unfold daqConfig
    rw [if_neg (not_lt.mpr hchans)]
    exact ⟨_, _, rfl⟩
  obtain ⟨hconfigured, hlen⟩ := daqConfig_ok hconfig
  have hstep : ∀ k ∈ List.range info.numChans, ∀ st, True →
      ∃ st', loadChannel sysRate info daqRange st k = .ok st' ∧ True := by
    intro k hk st _
    have hlt : k < pInfo.numChans := by
      rw [← hconfigured.numChans]
      exact List.mem_range.mp hk
    have htp : info.tp k = pInfo.tp k := (hconfigured.tp k).trans (if_pos hlt)
    unfold loadChannel
    dsimp only
    rw [htp, if_neg (not_lt.mpr (hrate k hlt))]
    split
    · rename_i hnone
      exact absurd (hsource k hlt) (setSource_eq_none.mp hnone)
    · exact ⟨_, rfl, trivial⟩
  obtain ⟨⟨x, table⟩, hload, -⟩ := foldlM_ok (fun _ => True) hstep trivial
  refine ⟨info, len, x, table, hconfig, ?_, hload⟩
  have htotal := hconfigured.numEpicsTotal
  unfold daqDataLength at hlen
  omega

theorem Accepted.congr (h : SameBlock s t) (ha : Accepted B sysRate daqRange s pInfo) :
    Accepted B sysRate daqRange t pInfo := by
  unfold Accepted at ha ⊢
  rw [h.dataInfo, h.xferInfo, h.localTable]
  exact ha

/-! ## Excitations -/

variable [Zero K]

variable (inp) in
/-- An excitation changes its own value and the indicator only. -/
theorem readExc_eq (s : DaqState K) (ii : ℕ) : ∃ validEx exciteInput excSignal,
    readExc inp s ii =
      { s with validEx := validEx, exciteInput := exciteInput, excSignal := excSignal } := by
  unfold readExc
  dsimp only
  split
  · split
    · split
      · exact ⟨feErrorExcSet, _, s.excSignal, rfl⟩
      · exact ⟨s.validEx, _, s.excSignal, rfl⟩
    · split
      · exact ⟨feErrorExcSet, s.exciteInput, _, rfl⟩
      · exact ⟨s.validEx, s.exciteInput, _, rfl⟩
  · exact ⟨s.validEx, s.exciteInput, s.excSignal, rfl⟩

variable (inp) in
theorem foldl_readExc_eq (l : List ℕ) : ∃ validEx exciteInput excSignal,
    l.foldl (readExc inp) s =
      { s with validEx := validEx, exciteInput := exciteInput, excSignal := excSignal } := by
  induction l generalizing s with
  | nil => exact ⟨s.validEx, s.exciteInput, s.excSignal, rfl⟩
  | cons ii l ih =>
    obtain ⟨v, e, x, hs⟩ := readExc_eq inp s ii
    obtain ⟨v', e', x', ht⟩ := ih (s := readExc inp s ii)
    refine ⟨v', e', x', ?_⟩
    rw [List.foldl_cons, ht, hs]

variable (sysRate inp) in
theorem readExcs_eq (s : DaqState K) : ∃ excSlot validEx exciteInput excSignal excBlockNum,
    readExcs sysRate s inp = { s with
      excSlot := excSlot, validEx := validEx, exciteInput := exciteInput,
      excSignal := excSignal, excBlockNum := excBlockNum } := by
  obtain ⟨v, e, x, hfold⟩ := foldl_readExc_eq inp
    (s := { s with excSlot := (s.excSlot + 1) % sysRate, validEx := 0 })
    (List.range' s.dataInfo.numChans (s.totalChans - s.dataInfo.numChans))
  unfold readExcs
  dsimp only
  rw [hfold]
  split
  · exact ⟨_, v, e, x, _, rfl⟩
  · exact ⟨_, v, e, x, _, rfl⟩

/-! ## The slots after the look -/

theorem foldl_deselect_induction {l : GdsLists} (P : DaqState K → Prop)
    (hstep : ∀ s i, i < daqGdsMaxTpAllowed → P s → s.tpNum i ≠ 0 → P (deselectSlot s i))
    (hs : P s) : P ((List.range daqGdsMaxTpAllowed).foldl deselect (s, l)).1 := by
  have hall : ∀ is : List ℕ, (∀ i ∈ is, i < daqGdsMaxTpAllowed) → ∀ s l, P s →
      P (is.foldl deselect (s, l)).1 := by
    intro is
    induction is with
    | nil => exact fun _ s l hs => hs
    | cons i is ih =>
      intro his s l hs
      rw [List.foldl_cons]
      have hnext : P (deselect (s, l) i).1 := by
        unfold deselect
        dsimp only
        split
        · exact hs
        · rename_i hne
          split
          · exact hs
          · exact hstep s i (his i List.mem_cons_self) hs hne
      exact ih (fun j hj => his j (List.mem_cons_of_mem i hj)) _ _ hnext
  exact hall _ (fun i hi => List.mem_range.mp hi) s l hs

theorem updateSlots_induction (P : DaqState K → Prop)
    (hdesel : ∀ s i, i < daqGdsMaxTpAllowed → P s → s.tpNum i ≠ 0 → P (deselectSlot s i))
    (htp : ∀ s slot tpn, P s → tpn ≠ 0 → emptySlot s.tpNum = some slot →
      P (selectTp daqRange s slot tpn))
    (hexc : ∀ s slot tpn ii, P s → tpn ≠ 0 → emptySlot s.tpNum = some slot →
      P (selectExc daqRange s slot tpn ii)) (hs : P s) :
    P (updateSlots sysRate daqRange s inp) := by
  unfold updateSlots
  exact selectNew_induction P htp hexc (foldl_deselect_induction P hdesel hs) _

theorem slotChange_deselectSlot (s : DaqState K) (i : ℕ) : SlotChange s (deselectSlot s i) := by
  unfold deselectSlot
  dsimp only
  split
  all_goals exact ⟨_, _, _, _, _, _, rfl, fun j hj => ⟨update_behind _ _ hj, update_behind _ _ hj⟩⟩

variable (sysRate daqRange) in
theorem slotChange_updateSlots (s : DaqState K) (inp : DaqCall K) :
    SlotChange s (updateSlots sysRate daqRange s inp) :=
  updateSlots_induction (SlotChange s)
    (fun t i _ h _ => h.trans (slotChange_deselectSlot t i))
    (fun t slot tpn h _ _ => h.trans (slotChange_selectTp t slot tpn))
    (fun t slot tpn ii h _ _ => h.trans (slotChange_selectExc t slot tpn ii)) (SlotChange.refl s)

/-! ## Loading a configuration -/

theorem reconfigure_eq (h : Accepted B sysRate daqRange s pInfo) :
    ∃ dataInfo xferInfo localTable dHistory tpStart totalChans,
      reconfigure B sysRate daqRange s pInfo = { s with
        dataInfo := dataInfo, xferInfo := xferInfo, localTable := localTable,
        dHistory := dHistory, tpStart := tpStart, totalChans := totalChans } ∧
      TablesLoaded sysRate s pInfo (reconfigure B sysRate daqRange s pInfo) := by
  obtain ⟨info, len, x, table, hconfig, hlen, hload⟩ := h
  obtain ⟨hconfigured, rfl⟩ := daqConfig_ok hconfig
  obtain ⟨hxfer, htable⟩ := loadLocalTable_ok hload
  have hlen' : ((daqDataLength info : ℕ) : ℤ) ≠ 0 := by exact_mod_cast hlen
  unfold reconfigure
  simp only [hconfig, hload, hlen', ne_eq, not_false_eq_true, if_true]
  exact ⟨_, _, _, _, _, _, rfl, hconfigured, hxfer, htable, hxfer.offsetAccum, rfl⟩

/-- The counters at the start. -/
structure Connected (sysRate : ℕ) (t : DaqState K) : Prop where
  daqBlockNum : t.daqBlockNum = 15
  daqXmitBlockNum : t.daqXmitBlockNum = 0
  daqSlot : t.daqSlot = sysRate - 1
  validTp : t.validTp = 0
  validTpNet : t.validTpNet = 0
  tpNum : ∀ i < daqGdsMaxTpAllowed, t.tpNum i = 0
  tpNumNet : ∀ i < daqGdsMaxTpAllowed, t.tpNumNet i = 0

theorem daqConnect_ok (h : daqConnect B sysRate daqRange s pInfo = some t) :
    TablesLoaded sysRate s pInfo t ∧ Connected sysRate t ∧ t.exciteInput = s.exciteInput ∧
      t.excSignal = s.excSignal := by
  unfold daqConnect at h
  split at h
  · cases h
  · rename_i info len hconfig
    split at h
    · cases h
    · rename_i x table hload
      cases h
      obtain ⟨hconfigured, rfl⟩ := daqConfig_ok hconfig
      obtain ⟨hxfer, htable⟩ := loadLocalTable_ok hload
      exact ⟨⟨hconfigured, hxfer, htable, hxfer.offsetAccum, rfl⟩,
        ⟨rfl, rfl, rfl, rfl, rfl, fun i hi => if_pos hi, fun i hi => if_pos hi⟩, rfl, rfl⟩

theorem endBlock_induction (P : DaqState K → Prop) (hann : P (announce s))
    (hrec : P (announce s) → inp.reconfig = 1 → (announce s).daqBlockNum = 0 →
      P (reconfigure B sysRate daqRange (announce s) inp.pInfo))
    (hcheck : ∀ s, P s → P (checkTps sysRate daqRange s inp))
    (hnet : ∀ s, P s → P (updateNet s)) : P (endBlock B sysRate daqRange s inp) := by
  unfold endBlock
  dsimp only
  have hreconf : P (if inp.reconfig = 1 ∧ (announce s).daqBlockNum = 0 then
      reconfigure B sysRate daqRange (announce s) inp.pInfo else announce s) := by
    split
    · rename_i hnew
      exact hrec hann hnew.1 hnew.2
    · exact hann
  generalize (if inp.reconfig = 1 ∧ (announce s).daqBlockNum = 0 then
      reconfigure B sysRate daqRange (announce s) inp.pInfo else announce s) = t at hreconf ⊢
  have hchecked : P (if t.daqBlockNum = 15 then checkTps sysRate daqRange t inp else t) := by
    split
    · exact hcheck t hreconf
    · exact hreconf
  generalize (if t.daqBlockNum = 15 then checkTps sysRate daqRange t inp else t) = u
    at hchecked ⊢
  split
  · exact hnet u hchecked
  · exact hchecked

/-! ## Cycles -/

variable [Add K] [Sub K] [Mul K]

/-- The cycle but for the end of a block. -/
def cycleBody (B : DaqBuild K) (sysRate : ℕ) (s : DaqState K) (inp : DaqCall K) : DaqState K :=
  readExcs sysRate (writeCycle B sysRate s inp) inp

theorem daqWrite_eq (s : DaqState K) (inp : DaqCall K) :
    daqWrite B sysRate daqRange s inp =
      if (cycleBody B sysRate s inp).daqSlot = sysRate - 1 then
        endBlock B sysRate daqRange (cycleBody B sysRate s inp) inp
      else cycleBody B sysRate s inp := rfl

variable (B sysRate) in
theorem cycleBody_spec (s : DaqState K) (inp : DaqCall K) :
    SameBlock s (cycleBody B sysRate s inp) ∧
      (cycleBody B sysRate s inp).daqSlot = (s.daqSlot + 1) % sysRate ∧
      (cycleBody B sysRate s inp).mem = applyWrites s.mem (channelWrites B (atSlot sysRate s) inp ++
        (epicsWrites B (atSlot sysRate s) inp).1) ∧
      (cycleBody B sysRate s inp).pEpicsFloat = (epicsWrites B (atSlot sysRate s) inp).2 := by
  obtain ⟨slot, v, e, x, b, hexc⟩ := readExcs_eq sysRate inp
    (writeCycle B sysRate s inp)
  unfold cycleBody
  rw [hexc]
  refine ⟨?_, rfl, rfl, rfl⟩
  constructor
  all_goals rfl

theorem cycles_append (s : DaqState K) (as bs : List (DaqCall K)) :
    cycles B sysRate daqRange s (as ++ bs) =
      cycles B sysRate daqRange (cycles B sysRate daqRange s as) bs := List.foldl_append

theorem daqWrite_within (inp : DaqCall K) (h : (s.daqSlot + 1) % sysRate ≠ sysRate - 1) :
    daqWrite B sysRate daqRange s inp = cycleBody B sysRate s inp := by
  rw [daqWrite_eq, (cycleBody_spec _ _ s inp).2.1, if_neg h]

def AcceptedRun (B : DaqBuild K) (sysRate : ℕ) (daqRange : DaqRange) (s : DaqState K)
    (inps : List (DaqCall K)) : Prop :=
  StepsMeet (daqWrite B sysRate daqRange)
    (fun s inp => Reconfigures sysRate s inp → Accepted B sysRate daqRange s inp.pInfo) s inps

variable (B daqRange) in
theorem cycles_within (hslot : s.daqSlot = sysRate - 1) (hlen : inps.length < sysRate) :
    SameBlock s (cycles B sysRate daqRange s inps) ∧
      ((cycles B sysRate daqRange s inps).daqSlot + 1) % sysRate = inps.length := by
  induction inps using List.reverseRecOn with
  | nil =>
    refine ⟨SameBlock.refl s, ?_⟩
    have hone : s.daqSlot + 1 = sysRate := by
      simp only [List.length_nil] at hlen
      omega
    rw [cycles, List.foldl_nil, hone, Nat.mod_self, List.length_nil]
  | append_singleton inps inp ih =>
    rw [List.length_append, List.length_singleton] at hlen ⊢
    obtain ⟨hsame, hnext⟩ := ih (by omega)
    obtain ⟨hbody, hbodySlot, -, -⟩ := cycleBody_spec B sysRate
      (cycles B sysRate daqRange s inps) inp
    have hcycle : cycles B sysRate daqRange s (inps ++ [inp]) =
        cycleBody B sysRate (cycles B sysRate daqRange s inps) inp := by
      rw [cycles_append]
      exact daqWrite_within inp (by omega)
    rw [hcycle, hbodySlot, hnext]
    exact ⟨hsame.trans hbody, Nat.mod_eq_of_lt hlen⟩

theorem cycles_block (hslot : s.daqSlot = sysRate - 1)
    (hlen : inps.length + 1 = sysRate) (inp : DaqCall K) :
    cycles B sysRate daqRange s (inps ++ [inp]) = endBlock B sysRate daqRange
      (cycleBody B sysRate (cycles B sysRate daqRange s inps) inp) inp := by
  obtain ⟨-, hnext⟩ := cycles_within B daqRange hslot
    (by omega : inps.length < sysRate)
  rw [cycles_append]
  refine (daqWrite_eq _ _).trans (if_pos ?_)
  rw [(cycleBody_spec _ _ _ _).2.1, hnext]
  omega

/-- What holds after every cycle if the parts of a cycle keep it. -/
theorem daqWrite_induction (P : DaqState K → Prop)
    (hbody : ∀ s inp, P s → P (cycleBody B sysRate s inp)) (hann : ∀ s, P s → P (announce s))
    (hrec : P (announce (cycleBody B sysRate s inp)) → Reconfigures sysRate s inp →
      P (reconfigure B sysRate daqRange (announce (cycleBody B sysRate s inp)) inp.pInfo))
    (hcheck : ∀ s inp, P s → P (checkTps sysRate daqRange s inp))
    (hnet : ∀ s, P s → P (updateNet s)) (hs : P s) : P (daqWrite B sysRate daqRange s inp) := by
  have hbodys := hbody s inp hs
  rw [daqWrite_eq]
  split
  · rename_i hlast
    refine endBlock_induction P (hann _ hbodys) ?_ (fun s => hcheck s inp) hnet
    intro hann hnew hnum
    refine hrec hann ⟨?_, ?_, hnew⟩
    · rw [← (cycleBody_spec _ _ s inp).2.1]
      exact hlast
    · rw [announce, (cycleBody_spec _ _ s inp).1.daqBlockNum] at hnum
      exact hnum
  · exact hbodys

theorem daqWrite_daqSlot (s : DaqState K) (inp : DaqCall K) :
    (daqWrite B sysRate daqRange s inp).daqSlot = (s.daqSlot + 1) % sysRate := by
  have hslot := (cycleBody_spec B sysRate s inp).2.1
  rw [daqWrite_eq]
  split
  · refine endBlock_induction (fun t => t.daqSlot = (s.daqSlot + 1) % sysRate) hslot ?_ ?_
      fun t ht => ht
    · intro ht _ _
      unfold reconfigure
      dsimp only
      split
      all_goals split
      all_goals exact ht
    · intro t ht
      obtain ⟨_, _, _, _, _, _, hupdate, -⟩ :=
        slotChange_updateSlots sysRate daqRange t inp
      rw [checkTps, hupdate, countTps_eq]
      exact ht
  · exact hslot

theorem cycles_daqSlot (s : DaqState K) (hlt : s.daqSlot < sysRate) (inps : List (DaqCall K)) :
    (cycles B sysRate daqRange s inps).daqSlot = (s.daqSlot + inps.length) % sysRate := by
  induction inps using List.reverseRecOn with
  | nil => exact (Nat.mod_eq_of_lt hlt).symm
  | append_singleton inps inp ih =>
    rw [cycles_append, List.length_append, List.length_singleton, ← Nat.add_assoc]
    refine (daqWrite_daqSlot _ _).trans ?_
    rw [ih, Nat.mod_add_mod]

theorem cycles_blocks {n : ℕ} (hpos : 0 < sysRate) (hslot : s.daqSlot = sysRate - 1)
    (hlen : inps.length = n * sysRate) :
    (cycles B sysRate daqRange s inps).daqSlot = sysRate - 1 := by
  rw [cycles_daqSlot s (by omega), hslot, hlen, Nat.add_mul_mod_self_right]
  exact Nat.mod_eq_of_lt (by omega)

end Cycle

/-! ## A front end for examples -/

def oneFloat (x : ℤ) : BitVec 32 := if x = 1 then 0x3F800000#32 else 0#32

/-- A front end with one filter module; the conversions are those of 1 and 0. -/
def plainBuild : DaqBuild ℤ where
  maxModules := 1
  cdsEpicsOutInts := 0
  coreBiquad := false
  dCoeff _ _ := 0
  toShort := BitVec.ofInt 16
  toInt := BitVec.ofInt 32
  toUInt := BitVec.ofInt 32
  toFloat := oneFloat
  toDouble x := if x = 1 then 0x3FF0000000000000#64 else 0#64
  uintToFloat x := oneFloat x.toNat
  loadDouble _ := 0
  asUInt _ := 0
  withUInt h _ := h

/-- A configuration with these channels and no EPICS data. -/
def plainInfo (chans : List DaqTp) : DaqInfoBlock where
  numChans := chans.length
  numEpicsInts := 0
  numEpicsFloats := 0
  numEpicsTotal := 11
  epicsdblDataOffset := 0
  cpyepics2times := false
  cpyIntSize := (0, 0)
  numEpicsFiltXfers := 0
  numEpicsFiltsLast := 0
  configFileCrc := 0
  tp k := chans.getD k ⟨0, 0, 0⟩

/-- A cycle at which all data are zero and nothing is selected. -/
def quietCall : DaqCall ℤ where
  filterInput _ := 0
  inputTestpoint _ := 0
  testpoint _ := 0
  pFloatData _ := 0
  pEpics _ := 0
  fmSettings _ _ := 0
  swReq _ := 0
  swMask _ := 0
  output16Hz _ := 0
  output _ := 0
  swStatus _ := 0
  excStatus _ _ := -1
  excData _ _ _ := 0
  gdsTp _ _ := 0
  reconfig := 0
  pInfo := plainInfo []

/-- The variables before the first call. -/
def bootState : DaqState ℤ where
  daqBlockNum := 0
  daqXmitBlockNum := 0
  excBlockNum := 0
  daqSlot := 0
  excSlot := 0
  pWriteBuffer := 0
  pEpicsFloat := 0
  xferInfo := ⟨0, 0, 0, 0, 0⟩
  localTable _ := ⟨.fmTp, 0, 0, 0, 0, 0⟩
  excTable _ := ⟨0, 0, 0, 0⟩
  dataInfo := plainInfo []
  tpStart := 0
  validTp := 0
  validTpNet := 0
  validEx := 0
  tpNum _ := 0
  tpNumNet _ := 0
  totalChans := 0
  dHistory _ _ := 0
  exciteInput _ := 0
  excSignal _ := 0
  mem _ := 0
  dipc := ⟨0, 0, 0, fun _ => 0, fun _ => 0⟩
  tpPtr := ⟨0, fun _ => 0⟩

/-- The ranges of a 16K front end. -/
abbrev plainRange : DaqRange := controllerRange gds16kExcMin gds16kTpMin plainBuild.maxModules

/-- The front end that is started with these channels. -/
def started (sysRate : ℕ) (chans : List DaqTp) : Option (DaqState ℤ) :=
  daqConnect plainBuild sysRate plainRange bootState (plainInfo chans)

end AdvLigoRts.Drv
