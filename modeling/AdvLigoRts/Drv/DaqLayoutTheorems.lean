import AdvLigoRts.Drv.DaqCycle
import Mathlib.Data.List.Nodup
import Mathlib.Data.List.Perm.Basic
import Mathlib.Data.Nat.Bitwise

/-!
# The regions of a DAQ block

The channels of a configuration fill the block without gaps behind the EPICS data.
-/

namespace AdvLigoRts.Drv

open PvLib

/-! ## Samples of one channel -/

/-- The data types of the channels. -/
def DataTypeOk (dataType : ℕ) : Prop :=
  dataType = daqDatatype16BitInt ∨ dataType = daqDatatype32BitInt ∨
    dataType = daqDatatype32BitUint ∨ dataType = daqDatatypeFloat ∨
    dataType = daqDatatypeDouble

/-- A rate that is 16 times a power of two, of a known data type. -/
def ChanOk (sysRate : ℕ) (tp : DaqTp) : Prop :=
  (∃ k, tp.dataRate = 16 * 2 ^ k ∧ 2 ^ k ≤ sysRate) ∧ DataTypeOk tp.dataType

/-- The bytes of the sample that is written in a slot: where they start and how many. -/
def sampleRange (offset decFactor dataType daqSlot : ℕ) : Option (ℕ × ℕ) :=
  if daqSlot % decFactor = 0 then
    some (offset + sampleIndex dataType decFactor daqSlot * sampleSize dataType,
      sampleSize dataType)
  else none

/-- The samples of a channel. -/
def samplePositions (offset size n : ℕ) : List (ℕ × ℕ) :=
  (List.range n).map fun k => (offset + k * size, size)

variable {sysRate : ℕ} {tp : DaqTp} {i j k n a dec : ℕ}

theorem filterMap_multiples {α : Type} (g : ℕ → α) (hdec : 0 < dec) (n : ℕ) :
    (List.range (dec * n)).filterMap (fun d => if d % dec = 0 then some (g d) else none) =
      (List.range n).map fun k => g (dec * k) := by
  induction n with
  | zero => rfl
  | succ n ih =>
    obtain ⟨m, rfl⟩ : ∃ m, dec = m + 1 := ⟨dec - 1, by omega⟩
    rw [Nat.mul_succ, List.range_add, List.filterMap_append, ih, List.range_succ (n := n),
      List.map_append]
    congr 1
    rw [List.filterMap_map, List.range_succ_eq_map, List.filterMap_cons, List.filterMap_map]
    -- behind the first of these slots there is no multiple
    have hnone : (List.range m).filterMap
      (((fun d => if d % (m + 1) = 0 then some (g d) else none) ∘
        fun x => (m + 1) * n + x) ∘ Nat.succ) = [] := by
      rw [List.filterMap_eq_nil_iff]
      intro x hx
      have hxm := List.mem_range.mp hx
      have hmod : ((m + 1) * n + (x + 1)) % (m + 1) = x + 1 := by
        rw [Nat.mul_add_mod, Nat.mod_eq_of_lt (by omega)]
      simp [hmod]
    rw [hnone]
    simp

theorem ChanOk.samples (h : ChanOk sysRate tp) (hsys : sysRate = 2 ^ a) :
    ∃ k, tp.dataRate = 16 * 2 ^ k ∧ k ≤ a ∧ chanDec sysRate tp = 2 ^ (a - k) ∧
      chanSamples sysRate tp = 2 ^ k := by
  obtain ⟨⟨k, hrate, hle⟩, -⟩ := h
  subst hsys
  have hk : k ≤ a := (Nat.pow_le_pow_iff_right (by decide)).mp hle
  have hdec : chanDec (2 ^ a) tp = 2 ^ (a - k) := by
    rw [chanDec, hrate, daqNumDataBlocks, Nat.mul_div_cancel_left _ (by decide),
      Nat.pow_div hk (by decide)]
  refine ⟨k, hrate, hk, hdec, ?_⟩
  rw [chanSamples, hdec, Nat.pow_div (Nat.sub_le a k) (by decide)]
  congr 1
  omega

/-- The two ways to add up the sizes agree. -/
theorem daqDataLength_eq {info : DaqInfoBlock} (hsys : sysRate = 2 ^ a)
    (h : ∀ i < info.numChans, ChanOk sysRate (info.tp i)) :
    daqDataLength info = chanOffset sysRate info info.numChans := by
  unfold daqDataLength chanOffset
  congr 2
  refine List.map_congr_left fun i hi => ?_
  obtain ⟨k, hrate, -, -, hn⟩ := (h i (List.mem_range.mp hi)).samples hsys
  have hbytes : daqDataTypeSize (info.tp i).dataType * (16 * 2 ^ k) =
      16 * (2 ^ k * daqDataTypeSize (info.tp i).dataType) := by
    rw [Nat.mul_left_comm, Nat.mul_comm (daqDataTypeSize _)]
  rw [hrate, hn, hbytes]
  exact Nat.mul_div_cancel_left _ (by decide)

/-- The channels are the same and in the same places. -/
theorem chanOffset_congr {info info' : DaqInfoBlock}
    (htotal : info'.numEpicsTotal = info.numEpicsTotal) (htp : ∀ i < n, info'.tp i = info.tp i) :
    ∀ i ≤ n, chanOffset sysRate info' i = chanOffset sysRate info i := by
  intro i hi
  unfold chanOffset
  rw [htotal]
  congr 2
  refine List.map_congr_left fun k hk => ?_
  have hki := List.mem_range.mp hk
  rw [htp k (by omega)]

theorem daqDataLength_congr {info info' : DaqInfoBlock} (hchans : info'.numChans = info.numChans)
    (htotal : info'.numEpicsTotal = info.numEpicsTotal)
    (htp : ∀ i < info.numChans, info'.tp i = info.tp i) :
    daqDataLength info' = daqDataLength info := by
  unfold daqDataLength
  rw [htotal, hchans]
  congr 2
  refine List.map_congr_left fun k hk => ?_
  rw [htp k (List.mem_range.mp hk)]

/-- The samples that are written swapped are the same samples. -/
theorem perm_swapped (hk : 0 < k) :
    ((List.range (2 ^ k)).map fun j => j ^^^ 1).Perm (List.range (2 ^ k)) := by
  have hinv : Function.LeftInverse (fun j : ℕ => j ^^^ 1) fun j => j ^^^ 1 := fun j => by
    simp
  rw [List.perm_ext_iff_of_nodup (List.Nodup.map hinv.injective List.nodup_range)
    List.nodup_range]
  have hone : 1 < 2 ^ k := Nat.one_lt_two_pow (by omega)
  intro j
  rw [List.mem_map, List.mem_range]
  constructor
  · rintro ⟨j', hj', rfl⟩
    exact Nat.xor_lt_two_pow (List.mem_range.mp hj') hone
  · intro hj
    exact ⟨j ^^^ 1, List.mem_range.mpr (Nat.xor_lt_two_pow hj hone), hinv j⟩

/-- Which channels write each of their samples once. -/
def WritesRow (sysRate : ℕ) (tp : DaqTp) : Prop :=
  (tp.dataType = daqDatatype16BitInt → tp.dataRate ≠ 16) ∧
    (tp.dataType = daqDatatype32BitInt → tp.dataRate = 16 * sysRate ∨ tp.dataRate = 16)

theorem sampleSize_eq (h : DataTypeOk tp.dataType) :
    sampleSize tp.dataType = daqDataTypeSize tp.dataType := by
  unfold DataTypeOk at h
  rcases h with h | h | h | h | h
  all_goals rw [h]; rfl

theorem sampleIndex_multiple {dataType : ℕ} (hdec : 0 < dec) (j : ℕ) :
    sampleIndex dataType dec (dec * j) =
      if dataType = daqDatatype16BitInt then j ^^^ 1
      else if dataType = daqDatatype32BitInt then dec * j else j := by
  unfold sampleIndex
  rw [Nat.mul_div_cancel_left j hdec]

/-- The samples that a channel writes in the slots of a block. -/
theorem ChanOk.ranges (h : ChanOk sysRate tp) (hsys : sysRate = 2 ^ a) (offset : ℕ) :
    (List.range sysRate).filterMap
        (sampleRange offset (chanDec sysRate tp) tp.dataType) =
      (List.range (chanSamples sysRate tp)).map fun j =>
        (offset + sampleIndex tp.dataType (chanDec sysRate tp) (chanDec sysRate tp * j) *
          sampleSize tp.dataType, sampleSize tp.dataType) := by
  obtain ⟨k, -, hk, hdec, hn⟩ := h.samples hsys
  have hmul : sysRate = chanDec sysRate tp * chanSamples sysRate tp := by
    rw [hdec, hn, hsys, ← Nat.pow_add]
    congr 1
    omega
  have hpos : 0 < chanDec sysRate tp := by
    rw [hdec]
    exact Nat.two_pow_pos _
  have hall := filterMap_multiples (fun d => (offset + sampleIndex tp.dataType
    (chanDec sysRate tp) d * sampleSize tp.dataType, sampleSize tp.dataType)) hpos
    (chanSamples sysRate tp)
  rw [← hmul] at hall
  exact hall

/-- Each sample is written once, if and only if the channel is not one of those two kinds. -/
theorem ChanOk.perm_iff (h : ChanOk sysRate tp) (hsys : sysRate = 2 ^ a) (offset : ℕ) :
    ((List.range sysRate).filterMap
        (sampleRange offset (chanDec sysRate tp) tp.dataType)).Perm
      (samplePositions offset (daqDataTypeSize tp.dataType) (chanSamples sysRate tp)) ↔
      WritesRow sysRate tp := by
  rw [h.ranges hsys]
  obtain ⟨k, hrate, hk, hdec, hn⟩ := h.samples hsys
  have hpos : 0 < chanDec sysRate tp := by
    rw [hdec]
    exact Nat.two_pow_pos _
  have hone : ∀ m, 2 ^ m = 1 ↔ m = 0 := fun m => by simp
  simp only [sampleIndex_multiple hpos]
  rw [hn, samplePositions, ← sampleSize_eq h.2]
  unfold WritesRow
  by_cases h16 : tp.dataType = daqDatatype16BitInt
  · have h32 : tp.dataType ≠ daqDatatype32BitInt := by
      rw [h16]
      decide
    simp only [h16, if_true, true_imp_iff]
    have hrate16 : tp.dataRate ≠ 16 ↔ 0 < k := by
      rw [hrate, Nat.pos_iff_ne_zero, not_iff_not, ← hone k]
      omega
    rw [hrate16]
    constructor
    · intro hperm
      refine ⟨Nat.pos_of_ne_zero fun hzero => ?_, fun h32' => absurd h32' (by decide)⟩
      subst hzero
      have heq := List.perm_singleton.mp hperm
      simp [sampleSize] at heq
    · intro hrow
      have hperm := (perm_swapped hrow.1).map fun j =>
        (offset + j * sampleSize daqDatatype16BitInt, sampleSize daqDatatype16BitInt)
      rw [List.map_map] at hperm
      exact hperm
  · by_cases h32 : tp.dataType = daqDatatype32BitInt
    · have hne : daqDatatype32BitInt ≠ daqDatatype16BitInt := by decide
      simp only [h32, hne, if_false, if_true, true_imp_iff, false_imp_iff, true_and]
      have hcases : tp.dataRate = 16 * sysRate ∨ tp.dataRate = 16 ↔ k = a ∨ k = 0 := by
        rw [hrate, hsys, ← hone k, ← Nat.pow_right_inj (le_refl 2) (m := k) (n := a)]
        omega
      rw [hcases]
      constructor
      · intro hperm
        by_contra hnot
        rw [not_or] at hnot
        -- the second sample is not written
        have hmem : (offset + 1 * sampleSize daqDatatype32BitInt,
            sampleSize daqDatatype32BitInt) ∈ (List.range (2 ^ k)).map fun j =>
              (offset + j * sampleSize daqDatatype32BitInt, sampleSize daqDatatype32BitInt) :=
          List.mem_map.mpr ⟨1, List.mem_range.mpr (Nat.one_lt_two_pow hnot.2), rfl⟩
        obtain ⟨j, -, hj⟩ := List.mem_map.mp (hperm.mem_iff.mpr hmem)
        rw [Prod.mk.injEq, Nat.add_left_cancel_iff, hdec] at hj
        have hsize : 0 < sampleSize daqDatatype32BitInt := by decide
        have hfactor := Nat.eq_of_mul_eq_mul_right hsize hj.1
        have hsub : a - k = 0 := (hone _).mp (Nat.eq_one_of_mul_eq_one_right hfactor)
        omega
      · rintro (rfl | rfl)
        · rw [hdec, Nat.sub_self]
          simp only [pow_zero, Nat.one_mul]
          exact List.Perm.refl _
        · exact List.Perm.refl _
    · simp only [h16, h32, if_false, false_imp_iff, and_self, iff_true]
      exact List.Perm.refl _

section Run

variable {K : Type} {B : DaqBuild K} {daqRange : DaqRange}
variable {s t s0 : DaqState K} {inps block : List (DaqCall K)} {pInfo : DaqInfoBlock}

/-! ## EPICS data of a slot -/

/-- The bytes of EPICS data that are written in a slot. -/
def epicsSize (info : DaqInfoBlock) (daqSlot : ℕ) : ℕ :=
  if daqSlot = 0 then 4 * info.numEpicsInts
  else if daqSlot = 1 then 4 * info.numEpicsFloats
  else if daqSlot < info.numEpicsFiltXfers then
    44 * if daqSlot = info.numEpicsFiltXfers - 1 then info.numEpicsFiltsLast
      else daqXferFmdPerCycle
  else 0

/-- The bytes of EPICS data that are written in the first `n` slots. -/
def epicsLength (info : DaqInfoBlock) (n : ℕ) : ℕ := ((List.range n).map (epicsSize info)).sum

theorem epicsLength_succ (info : DaqInfoBlock) (n : ℕ) :
    epicsLength info (n + 1) = epicsLength info n + epicsSize info n := by
  simp [epicsLength, List.range_succ]

theorem epicsLength_mono (info : DaqInfoBlock) {m : ℕ} (h : m ≤ n) :
    epicsLength info m ≤ epicsLength info n := by
  induction h with
  | refl => exact le_rfl
  | step _ ih =>
    rw [epicsLength_succ]
    omega

theorem epicsLength_one (info : DaqInfoBlock) : epicsLength info 1 = 4 * info.numEpicsInts := by
  simp [epicsLength, epicsSize]

theorem length_flatMap_const {α β : Type} {f : α → List β} {m : ℕ} (l : List α)
    (h : ∀ x ∈ l, (f x).length = m) : (l.flatMap f).length = m * l.length := by
  rw [List.length_flatMap, List.map_congr_left h, List.map_const', List.sum_replicate_nat,
    Nat.mul_comm]

theorem length_fmFloats (s : DaqState K) (inp : DaqCall K) (ii : ℕ) :
    (fmFloats B s inp ii).length = 44 := by
  unfold fmFloats
  rw [length_flatMap_const (m := 4) _ fun x _ => length_leBytes x]
  rfl

theorem epicsWrites_consecutive (s : DaqState K) (inp : DaqCall K)
    (hcopied : copiedInts s.dataInfo = 4 * s.dataInfo.numEpicsInts)
    (hpointer : 2 ≤ s.daqSlot →
      s.pEpicsFloat = s.pWriteBuffer + epicsLength s.dataInfo s.daqSlot) :
    Consecutive (s.pWriteBuffer + epicsLength s.dataInfo s.daqSlot) (epicsWrites B s inp).1
        (s.pWriteBuffer + epicsLength s.dataInfo (s.daqSlot + 1)) ∧
      (1 ≤ s.daqSlot → (epicsWrites B s inp).2 =
        s.pWriteBuffer + epicsLength s.dataInfo (s.daqSlot + 1)) := by
  rw [epicsLength_succ]
  unfold epicsWrites epicsSize
  dsimp only
  by_cases hzero : s.daqSlot = 0
  · rw [if_pos hzero, if_pos hzero, ← hcopied, hzero]
    refine ⟨?_, fun hone => absurd hone (by decide)⟩
    unfold copiedInts
    split
    · simp [Consecutive, Write.stop, epicsLength, Nat.add_assoc]
    · simp [Consecutive, Write.stop, epicsLength]
  · rw [if_neg hzero, if_neg hzero]
    by_cases hone : s.daqSlot = 1
    · rw [if_pos hone, if_pos hone, hone, epicsLength_one]
      have hlength : ((List.range s.dataInfo.numEpicsFloats).flatMap fun k =>
          leBytes 4 (B.toFloat (B.loadDouble (bytesAt inp.pEpics (s.dataInfo.numEpicsInts * 4 +
            s.dataInfo.epicsdblDataOffset + 8 * k) 8)))).length =
          4 * s.dataInfo.numEpicsFloats := by
        rw [length_flatMap_const (m := 4) _ fun k _ => length_leBytes _, List.length_range]
      refine ⟨⟨rfl, ?_⟩, fun _ => Nat.add_assoc _ _ _⟩
      rw [Consecutive, Write.stop, hlength, Nat.add_assoc]
    · have htwo : 2 ≤ s.daqSlot := by omega
      rw [if_neg hone, if_neg hone, hpointer htwo]
      by_cases hin : s.daqSlot < s.dataInfo.numEpicsFiltXfers
      · rw [if_pos ⟨htwo, hin⟩, if_pos hin]
        generalize (if s.daqSlot = s.dataInfo.numEpicsFiltXfers - 1 then
          s.dataInfo.numEpicsFiltsLast else daqXferFmdPerCycle) = n
        refine ⟨⟨rfl, ?_⟩, fun _ => Nat.add_assoc _ _ _⟩
        rw [Consecutive, Write.stop, length_flatMap_const (m := 44) _ fun ii _ =>
          length_fmFloats s inp ii, List.length_range', Nat.add_assoc]
      · rw [if_neg (fun h => hin h.2), if_neg hin]
        exact ⟨rfl, fun _ => rfl⟩

/-! ## The tables in a run -/

/-- The table holds the channels of the configuration, and the slots behind them. -/
structure LayoutOk (sysRate : ℕ) (s : DaqState K) : Prop where
  decFactor : ∀ i < s.dataInfo.numChans,
    (s.localTable i).decFactor = chanDec sysRate (s.dataInfo.tp i)
  offset : ∀ i < s.dataInfo.numChans,
    (s.localTable i).offset = chanOffset sysRate s.dataInfo i
  tpStart : s.tpStart = chanOffset sysRate s.dataInfo s.dataInfo.numChans
  crcLength : s.xferInfo.crcLength = daqDataLength s.dataInfo
  chans : s.dataInfo.numChans ≤ s.totalChans
  slots : ∀ i ≥ s.dataInfo.numChans, i < s.totalChans → s.tpStart ≤ (s.localTable i).offset
  copied : copiedInts s.dataInfo = 4 * s.dataInfo.numEpicsInts

theorem TablesLoaded.layoutOk (h : TablesLoaded sysRate s pInfo t) : LayoutOk sysRate t where
  decFactor := h.table.decFactor
  offset i hi := h.table.offset i (by omega)
  tpStart := h.tpStart
  crcLength := h.xfer.crcLength
  chans := h.totalChans.ge
  slots i hi hlt := by
    rw [h.totalChans] at hlt
    omega
  copied := h.config.copied

theorem LayoutOk.congr (h : LayoutOk sysRate s) (hs : SameBlock s t) : LayoutOk sysRate t := by
  constructor
  all_goals simp only [hs.localTable, hs.dataInfo, hs.tpStart, hs.xferInfo, hs.totalChans]
  case decFactor => exact h.decFactor
  case offset => exact h.offset
  case tpStart => exact h.tpStart
  case crcLength => exact h.crcLength
  case chans => exact h.chans
  case slots => exact h.slots
  case copied => exact h.copied

/-- The bytes of a channel in a block. -/
def chanBytes (tp : DaqTp) : ℕ := daqDataTypeSize tp.dataType * (tp.dataRate / daqNumDataBlocks)

/-- Where the region of the channel `i` starts, and at the end the test points. -/
def regionStart (s : DaqState K) (i : ℕ) : ℕ :=
  if i < s.dataInfo.numChans then (s.localTable i).offset else s.tpStart

/-- The regions of the channels divide the block. -/
structure Partition (s : DaqState K) : Prop where
  first : regionStart s 0 = 4 * s.dataInfo.numEpicsTotal
  next : ∀ i < s.dataInfo.numChans,
    regionStart s (i + 1) = regionStart s i + chanBytes (s.dataInfo.tp i)
  disjoint : ∀ j ≤ s.dataInfo.numChans, ∀ i < j,
    regionStart s i + chanBytes (s.dataInfo.tp i) ≤ regionStart s j
  last : regionStart s s.dataInfo.numChans = s.tpStart
  crcLength : s.xferInfo.crcLength = s.tpStart

theorem ChanOk.samples_eq (h : ChanOk sysRate tp) (hsys : sysRate = 2 ^ a) :
    chanSamples sysRate tp = tp.dataRate / daqNumDataBlocks := by
  obtain ⟨k, hrate, -, -, hn⟩ := h.samples hsys
  rw [hn, hrate]
  exact (Nat.mul_div_cancel_left _ (by decide)).symm

theorem ChanOk.chanBytes_pos (h : ChanOk sysRate tp) : 0 < chanBytes tp := by
  obtain ⟨⟨k, hrate, -⟩, htype⟩ := h
  have hsize : 0 < daqDataTypeSize tp.dataType := by
    unfold DataTypeOk at htype
    rcases htype with h | h | h | h | h
    all_goals rw [h]; decide
  rw [chanBytes, hrate, daqNumDataBlocks, Nat.mul_div_cancel_left _ (by decide)]
  exact Nat.mul_pos hsize (Nat.two_pow_pos k)

theorem LayoutOk.regionStart_eq (h : LayoutOk sysRate s) (hi : i ≤ s.dataInfo.numChans) :
    regionStart s i = chanOffset sysRate s.dataInfo i := by
  unfold regionStart
  split
  · rename_i hlt
    exact h.offset i hlt
  · rw [h.tpStart]
    congr 1
    omega

theorem LayoutOk.partition (h : LayoutOk sysRate s) (hsys : sysRate = 2 ^ a)
    (hchans : ∀ i < s.dataInfo.numChans, ChanOk sysRate (s.dataInfo.tp i)) : Partition s := by
  have hnext : ∀ i < s.dataInfo.numChans, chanOffset sysRate s.dataInfo (i + 1) =
      chanOffset sysRate s.dataInfo i + chanBytes (s.dataInfo.tp i) := by
    intro i hi
    rw [chanOffset_succ, (hchans i hi).samples_eq hsys, Nat.mul_comm, chanBytes]
  constructor
  case first => rw [h.regionStart_eq (Nat.zero_le _), chanOffset_zero]
  case next =>
    intro i hi
    rw [h.regionStart_eq hi, h.regionStart_eq hi.le, hnext i hi]
  case disjoint =>
    intro j hj i hi
    rw [h.regionStart_eq (by omega), h.regionStart_eq hj, ← hnext i (by omega)]
    exact chanOffset_mono hi
  case last => exact if_neg (lt_irrefl _)
  case crcLength => rw [h.crcLength, h.tpStart, daqDataLength_eq hsys hchans]

theorem Partition.bounds (h : Partition s) (hi : i < s.dataInfo.numChans) :
    4 * s.dataInfo.numEpicsTotal ≤ regionStart s i ∧
      regionStart s i + chanBytes (s.dataInfo.tp i) ≤ s.tpStart := by
  refine ⟨?_, ?_⟩
  · rw [← h.first]
    rcases Nat.eq_zero_or_pos i with rfl | hpos
    · exact le_rfl
    · have hbefore := h.disjoint i hi.le 0 hpos
      omega
  · rw [← h.last]
    exact h.disjoint s.dataInfo.numChans le_rfl i hi

variable [Zero K]

variable (daqRange) in
theorem LayoutOk.checkTps (h : LayoutOk sysRate s) (inp : DaqCall K) :
    LayoutOk sysRate (checkTps sysRate daqRange s inp) := by
  obtain ⟨e, x, et, tn, lt, tp, hupdate, hsame⟩ :=
    slotChange_updateSlots sysRate daqRange s inp
  have hoffset : ∀ i ≤ s.dataInfo.numChans, chanOffset sysRate { s.dataInfo with tp := tp } i =
      chanOffset sysRate s.dataInfo i := chanOffset_congr rfl fun i hi => (hsame i hi).2
  have hlength : daqDataLength { s.dataInfo with tp := tp } = daqDataLength s.dataInfo :=
    daqDataLength_congr rfl rfl fun i hi => (hsame i hi).2
  have hout : ∀ i < s.dataInfo.numChans, ∀ n, ¬ (s.dataInfo.numChans ≤ i ∧
      i < s.dataInfo.numChans + n) := by omega
  unfold Drv.checkTps
  rw [hupdate, countTps_eq]
  dsimp only
  constructor
  all_goals dsimp only [withOffsets]
  case decFactor =>
    intro i hi
    rw [if_neg (hout i hi _), (hsame i hi).1, (hsame i hi).2]
    exact h.decFactor i hi
  case offset =>
    intro i hi
    rw [if_neg (hout i hi _), (hsame i hi).1, hoffset i hi.le]
    exact h.offset i hi
  case tpStart => exact h.tpStart.trans (hoffset _ le_rfl).symm
  case crcLength => exact h.crcLength.trans (congrArg _ hlength.symm)
  case chans => exact Nat.le_add_right _ _
  case slots =>
    intro i hi hlt
    rw [if_pos ⟨hi, hlt⟩]
    exact Nat.le_add_right _ _
  case copied => exact h.copied

variable [Add K] [Sub K] [Mul K]

theorem LayoutOk.cycles (h : LayoutOk sysRate s)
    (hacc : AcceptedRun B sysRate daqRange s inps) :
    LayoutOk sysRate (cycles B sysRate daqRange s inps) := by
  refine foldl_invariant (LayoutOk sysRate) ?_ h hacc
  intro s inp hs hstep
  refine daqWrite_induction (LayoutOk sysRate)
    (fun s inp hs => hs.congr (cycleBody_spec _ _ s inp).1)
    (fun s hs => { hs with }) ?_ (fun s inp hs => hs.checkTps _ inp)
    (fun s hs => { hs with }) hs
  intro _ hreconf
  have hbody : Accepted B sysRate daqRange (cycleBody B sysRate s inp) inp.pInfo :=
    (hstep hreconf).congr (cycleBody_spec _ _ s inp).1
  obtain ⟨_, _, _, _, _, _, -, hloaded⟩ := reconfigure_eq
    (s := announce (cycleBody B sysRate s inp)) hbody
  exact hloaded.layoutOk

/-! ## The writes of a block -/

/-- What the entry `ii` writes in the cycles. -/
def entryWrites (B : DaqBuild K) (sysRate : ℕ) (daqRange : DaqRange) (ii : ℕ) :
    DaqState K → List (DaqCall K) → List Write
  | _, [] => []
  | s, inp :: inps => (channelStep B (atSlot sysRate s) inp ii).2.toList ++
      entryWrites B sysRate daqRange ii (daqWrite B sysRate daqRange s inp) inps

theorem entryWrites_append (ii : ℕ) (s : DaqState K) (as bs : List (DaqCall K)) :
    entryWrites B sysRate daqRange ii s (as ++ bs) = entryWrites B sysRate daqRange ii s as ++
      entryWrites B sysRate daqRange ii (cycles B sysRate daqRange s as) bs := by
  induction as generalizing s with
  | nil => rfl
  | cons a as ih =>
    rw [List.cons_append, entryWrites, entryWrites, ih, List.append_assoc]
    rfl

/-- The bytes that a write covers: where they start and how many. -/
def writeRange (w : Write) : ℕ × ℕ := (w.addr, w.bytes.length)

theorem channelStep_range (s : DaqState K) (inp : DaqCall K) (ii : ℕ) :
    (channelStep B s inp ii).2.map writeRange =
      sampleRange (s.pWriteBuffer + (s.localTable ii).offset) (s.localTable ii).decFactor
        (s.dataInfo.tp ii).dataType s.daqSlot := by
  unfold channelStep sampleRange
  dsimp only
  split
  · simp [writeRange]
  · split
    · rfl
    · rfl

variable (B daqRange) in
/-- The writes in the first cycles of a block. -/
theorem entryWrites_ranges (hslot : s.daqSlot = sysRate - 1) (ii : ℕ)
    (hlen : inps.length ≤ sysRate) :
    (entryWrites B sysRate daqRange ii s inps).map writeRange =
      (List.range inps.length).filterMap (sampleRange (s.pWriteBuffer + (s.localTable ii).offset)
        (s.localTable ii).decFactor (s.dataInfo.tp ii).dataType) := by
  induction inps using List.reverseRecOn with
  | nil => rfl
  | append_singleton inps inp ih =>
    rw [List.length_append, List.length_singleton] at hlen ⊢
    obtain ⟨hsame, hnext⟩ := cycles_within B daqRange hslot
      (by omega : inps.length < sysRate)
    rw [entryWrites_append, List.map_append, ih (by omega), List.range_succ,
      List.filterMap_append]
    congr 1
    have hat := hsame.trans (sameBlock_atSlot sysRate _)
    have hrange := channelStep_range (B := B)
      (atSlot sysRate (cycles B sysRate daqRange s inps)) inp ii
    have hatSlot : (atSlot sysRate (cycles B sysRate daqRange s inps)).daqSlot = inps.length :=
      hnext
    rw [hat.pWriteBuffer, hat.localTable, hat.dataInfo, hatSlot] at hrange
    rw [entryWrites, entryWrites, List.append_nil, List.filterMap_cons, ← hrange,
      List.filterMap_nil]
    cases (channelStep B (atSlot sysRate (cycles B sysRate daqRange s inps)) inp ii).2 with
    | none => rfl
    | some w => rfl

/-! ## The EPICS data of a block -/

def epicsCycles (B : DaqBuild K) (sysRate : ℕ) (daqRange : DaqRange) :
    DaqState K → List (DaqCall K) → List Write
  | _, [] => []
  | s, inp :: inps => (epicsWrites B (atSlot sysRate s) inp).1 ++
      epicsCycles B sysRate daqRange (daqWrite B sysRate daqRange s inp) inps

theorem epicsCycles_append (s : DaqState K) (as bs : List (DaqCall K)) :
    epicsCycles B sysRate daqRange s (as ++ bs) = epicsCycles B sysRate daqRange s as ++
      epicsCycles B sysRate daqRange (cycles B sysRate daqRange s as) bs := by
  induction as generalizing s with
  | nil => rfl
  | cons a as ih =>
    rw [List.cons_append, epicsCycles, epicsCycles, ih, List.append_assoc]
    rfl

theorem cycles_pEpicsFloat (hslot : s.daqSlot = sysRate - 1)
    (hcopied : copiedInts s.dataInfo = 4 * s.dataInfo.numEpicsInts)
    (hlen : inps.length < sysRate) (htwo : 2 ≤ inps.length) :
    (cycles B sysRate daqRange s inps).pEpicsFloat =
      s.pWriteBuffer + epicsLength s.dataInfo inps.length := by
  induction inps using List.reverseRecOn with
  | nil => exact absurd htwo (Nat.not_le.mpr Nat.zero_lt_two)
  | append_singleton inps inp ih =>
    rw [List.length_append, List.length_singleton] at hlen htwo ⊢
    obtain ⟨hsame, hnext⟩ := cycles_within B daqRange hslot
      (by omega : inps.length < sysRate)
    have hat := hsame.trans (sameBlock_atSlot sysRate _)
    have hatSlot : (atSlot sysRate (cycles B sysRate daqRange s inps)).daqSlot = inps.length :=
      hnext
    obtain ⟨-, -, -, hptr⟩ := cycleBody_spec B sysRate
      (cycles B sysRate daqRange s inps) inp
    have hcycle : cycles B sysRate daqRange s (inps ++ [inp]) =
        cycleBody B sysRate (cycles B sysRate daqRange s inps) inp := by
      rw [cycles_append]
      exact daqWrite_within inp (by omega)
    have hwrites := (epicsWrites_consecutive (B := B)
      (atSlot sysRate (cycles B sysRate daqRange s inps)) inp
      (by rw [hat.dataInfo]; exact hcopied)
      (by
        rw [hatSlot, hat.pWriteBuffer, hat.dataInfo]
        exact ih (by omega))).2
    rw [hatSlot, hat.pWriteBuffer, hat.dataInfo] at hwrites
    rw [hcycle, hptr]
    exact hwrites (by omega)

theorem epicsWrites_within (hslot : s.daqSlot = sysRate - 1)
    (hcopied : copiedInts s.dataInfo = 4 * s.dataInfo.numEpicsInts)
    (hlen : inps.length < sysRate) (inp : DaqCall K) :
    Consecutive (s.pWriteBuffer + epicsLength s.dataInfo inps.length)
      (epicsWrites B (atSlot sysRate (cycles B sysRate daqRange s inps)) inp).1
      (s.pWriteBuffer + epicsLength s.dataInfo (inps.length + 1)) := by
  obtain ⟨hsame, hnext⟩ := cycles_within B daqRange hslot hlen
  have hat := hsame.trans (sameBlock_atSlot sysRate _)
  have hatSlot : (atSlot sysRate (cycles B sysRate daqRange s inps)).daqSlot = inps.length :=
    hnext
  have hwrites := (epicsWrites_consecutive (B := B)
    (atSlot sysRate (cycles B sysRate daqRange s inps)) inp
    (by rw [hat.dataInfo]; exact hcopied)
    (by
      rw [hatSlot, hat.pWriteBuffer, hat.dataInfo]
      exact cycles_pEpicsFloat hslot hcopied hlen)).1
  rw [hatSlot, hat.pWriteBuffer, hat.dataInfo] at hwrites
  exact hwrites

theorem epicsCycles_consecutive (hslot : s.daqSlot = sysRate - 1)
    (hcopied : copiedInts s.dataInfo = 4 * s.dataInfo.numEpicsInts)
    (hlen : inps.length ≤ sysRate) :
    Consecutive s.pWriteBuffer (epicsCycles B sysRate daqRange s inps)
      (s.pWriteBuffer + epicsLength s.dataInfo inps.length) := by
  induction inps using List.reverseRecOn with
  | nil => rfl
  | append_singleton inps inp ih =>
    rw [List.length_append, List.length_singleton] at hlen ⊢
    rw [epicsCycles_append, epicsCycles, epicsCycles, List.append_nil]
    exact (ih (by omega)).append (epicsWrites_within hslot hcopied (by omega) inp)

/-! ## The layout -/

/-- In the cycles every sample of every channel is written once, and nothing of it by the entry
of another channel or test point or with the EPICS data. -/
structure RowsWritten (B : DaqBuild K) (sysRate : ℕ) (daqRange : DaqRange) (s : DaqState K)
    (block : List (DaqCall K)) : Prop where
  once : ∀ i < s.dataInfo.numChans,
    ((entryWrites B sysRate daqRange i s block).map writeRange).Perm
      (samplePositions (s.pWriteBuffer + regionStart s i)
        (daqDataTypeSize (s.dataInfo.tp i).dataType)
        ((s.dataInfo.tp i).dataRate / daqNumDataBlocks))
  apart : ∀ i < s.dataInfo.numChans, ∀ ii < s.totalChans, ii ≠ i →
    ∀ w ∈ entryWrites B sysRate daqRange ii s block,
      w.stop ≤ s.pWriteBuffer + regionStart s i ∨
        s.pWriteBuffer + regionStart s i + chanBytes (s.dataInfo.tp i) ≤ w.addr
  epics : ∀ i < s.dataInfo.numChans, ∀ w ∈ epicsCycles B sysRate daqRange s block,
    w.stop ≤ s.pWriteBuffer + regionStart s i ∨
      s.pWriteBuffer + regionStart s i + chanBytes (s.dataInfo.tp i) ≤ w.addr

/-- The samples of a channel lie in its region. -/
theorem RowsWritten.inside
    (hperm : ((entryWrites B sysRate daqRange i s block).map writeRange).Perm (samplePositions
    (s.pWriteBuffer + regionStart s i) (daqDataTypeSize (s.dataInfo.tp i).dataType)
    ((s.dataInfo.tp i).dataRate / daqNumDataBlocks))) {w : Write}
    (hw : w ∈ entryWrites B sysRate daqRange i s block) :
    s.pWriteBuffer + regionStart s i ≤ w.addr ∧
      w.stop ≤ s.pWriteBuffer + regionStart s i + chanBytes (s.dataInfo.tp i) := by
  have hmem := hperm.mem_iff.mp (List.mem_map_of_mem hw)
  obtain ⟨k, hk, hrange⟩ := List.mem_map.mp hmem
  rw [writeRange, Prod.mk.injEq] at hrange
  obtain ⟨haddr, hbytes⟩ := hrange
  have hkn := List.mem_range.mp hk
  have hlast := Nat.mul_le_mul_left (daqDataTypeSize (s.dataInfo.tp i).dataType)
    (Nat.succ_le_of_lt hkn)
  rw [Nat.mul_succ, Nat.mul_comm _ k] at hlast
  unfold Write.stop chanBytes
  omega

variable (B daqRange) in
/-- A channel writes each of its samples once if it is of the right kind, and only then. -/
theorem LayoutOk.row_iff (h : LayoutOk sysRate s) (hsys : sysRate = 2 ^ a)
    (hslot : s.daqSlot = sysRate - 1) (hblock : block.length = sysRate)
    (hi : i < s.dataInfo.numChans) (hchan : ChanOk sysRate (s.dataInfo.tp i)) :
    ((entryWrites B sysRate daqRange i s block).map writeRange).Perm
        (samplePositions (s.pWriteBuffer + regionStart s i)
          (daqDataTypeSize (s.dataInfo.tp i).dataType)
          ((s.dataInfo.tp i).dataRate / daqNumDataBlocks)) ↔
      WritesRow sysRate (s.dataInfo.tp i) := by
  rw [entryWrites_ranges _ _ hslot i hblock.le, hblock, h.decFactor i hi, regionStart, if_pos hi,
    ← hchan.samples_eq hsys]
  exact hchan.perm_iff hsys _

/-- The EPICS data of a block end before the first channel, if there is one. -/
def EpicsInFront (sysRate : ℕ) (info : DaqInfoBlock) : Prop :=
  info.numChans = 0 ∨ epicsLength info sysRate ≤ 4 * info.numEpicsTotal

/-- The layout of a block: for every reachable configuration whose rates are 16 times powers of
two the regions divide the block, and every sample is written once, and nothing else in a
region, if and only if no channel of 16-bit numbers has one sample in a block, no channel of
signed 32-bit numbers is decimated, but to one sample, and the EPICS data end in front. -/
theorem daq_block_layout (B : DaqBuild K) (daqRange : DaqRange) (hsys : sysRate = 2 ^ a)
    (s0 s1 : DaqState K) (pInfo : DaqInfoBlock)
    (hconnect : daqConnect B sysRate daqRange s0 pInfo = some s1) (n : ℕ)
    (inps block : List (DaqCall K)) (hlen : inps.length = n * sysRate)
    (hblock : block.length = sysRate) (hacc : AcceptedRun B sysRate daqRange s1 inps) :
    let s := cycles B sysRate daqRange s1 inps
    (∀ i < s.dataInfo.numChans, ChanOk sysRate (s.dataInfo.tp i)) →
      Partition s ∧ (RowsWritten B sysRate daqRange s block ↔
        (∀ i < s.dataInfo.numChans, WritesRow sysRate (s.dataInfo.tp i)) ∧
          EpicsInFront sysRate s.dataInfo) := by
  intro s hchans
  obtain ⟨hloaded, hstart, -, -⟩ := daqConnect_ok hconnect
  have hlayout : LayoutOk sysRate s := hloaded.layoutOk.cycles hacc
  have hpos : 0 < sysRate := by
    rw [hsys]
    exact Nat.two_pow_pos a
  have hslot : s.daqSlot = sysRate - 1 := cycles_blocks hpos hstart.daqSlot hlen
  have hpart := hlayout.partition hsys hchans
  refine ⟨hpart, ?_⟩
  have honce : ∀ i < s.dataInfo.numChans, _ ↔ WritesRow sysRate (s.dataInfo.tp i) :=
    fun i hi => hlayout.row_iff B daqRange hsys hslot hblock hi (hchans i hi)
  have hepics : Consecutive s.pWriteBuffer (epicsCycles B sysRate daqRange s block)
      (s.pWriteBuffer + epicsLength s.dataInfo sysRate) := by
    rw [← hblock]
    exact epicsCycles_consecutive (by rw [hslot, hblock]) hlayout.copied (by omega)
  constructor
  · intro h
    refine ⟨fun i hi => (honce i hi).mp (h.once i hi), ?_⟩
    rcases Nat.eq_zero_or_pos s.dataInfo.numChans with hnone | hsome
    · exact Or.inl hnone
    · -- the EPICS data are consecutive, so they would run into the first region
      right
      have hbytes := (hchans 0 hsome).chanBytes_pos
      have hfirst := hpart.first
      have hle := hepics.le_of_apart (s.pWriteBuffer + regionStart s 0) (by omega)
        (h.epics 0 hsome) (Nat.le_add_right _ _)
      omega
  · rintro ⟨h, hfront⟩
    refine ⟨fun i hi => (honce i hi).mpr (h i hi), fun i hi ii hii hne w hw => ?_,
      fun i hi w hw => ?_⟩
    · by_cases hchan : ii < s.dataInfo.numChans
      · obtain ⟨hlow, hhigh⟩ := RowsWritten.inside ((honce ii hchan).mpr (h ii hchan)) hw
        rcases Nat.lt_or_gt_of_ne hne with hlt | hgt
        · have hbefore := hpart.disjoint i hi.le ii hlt
          left
          omega
        · have hbehind := hpart.disjoint ii hchan.le i hgt
          right
          omega
      · -- a test point is written behind all channels
        right
        have hmem : writeRange w ∈ (List.range sysRate).filterMap
            (sampleRange (s.pWriteBuffer + (s.localTable ii).offset) (s.localTable ii).decFactor
              (s.dataInfo.tp ii).dataType) := by
          have hranges := entryWrites_ranges B daqRange hslot ii hblock.le
          rw [← hblock, ← hranges]
          exact List.mem_map_of_mem hw
        obtain ⟨d, -, hd⟩ := List.mem_filterMap.mp hmem
        have hslots := hlayout.slots ii (by omega) hii
        have hend := (hpart.bounds hi).2
        have haddr : s.pWriteBuffer + (s.localTable ii).offset ≤ w.addr := by
          unfold sampleRange at hd
          split at hd
          · rw [Option.some.injEq, writeRange, Prod.mk.injEq] at hd
            rw [← hd.1]
            exact Nat.le_add_right _ _
          · cases hd
        omega
    · left
      have hstop := hepics.stop_le hw
      have hstart := (hpart.bounds hi).1
      rcases hfront with hnone | hfits
      · omega
      · omega

end Run

/-- A channel of 16-bit numbers and one of floats, of two cycles a block, in the second block. -/
theorem daq_block_layout_two_channels :
    ∃ s, started 2 [⟨10001, daqDatatype16BitInt, 32⟩, ⟨10002, daqDatatypeFloat, 16⟩] = some s ∧
      let t := cycles plainBuild 2 plainRange s
        [quietCall, quietCall]
      Partition t ∧ RowsWritten plainBuild 2 plainRange t
        [quietCall, quietCall] := by
  refine ⟨_, rfl, ?_⟩
  have hquiet : ∀ s : DaqState ℤ, Reconfigures 2 s quietCall → False := fun s h =>
    absurd h.2.2 (by decide)
  have hlayout := daq_block_layout plainBuild plainRange
    (show 2 = 2 ^ 1 from rfl) bootState _
    (plainInfo [⟨10001, daqDatatype16BitInt, 32⟩, ⟨10002, daqDatatypeFloat, 16⟩]) rfl 1
    [quietCall, quietCall] [quietCall, quietCall] rfl rfl
    ⟨fun h => (hquiet _ h).elim, fun h => (hquiet _ h).elim, trivial⟩
  have hchans : ∀ i < 2, i = 0 ∨ i = 1 := by omega
  refine (hlayout ?_).imp_right fun hiff => hiff.mpr ⟨?_, Or.inr (by decide)⟩
  · intro i hi
    rcases hchans i hi with rfl | rfl
    · exact ⟨⟨1, rfl, le_rfl⟩, Or.inl rfl⟩
    · exact ⟨⟨0, rfl, by decide⟩, Or.inr (Or.inr (Or.inr (Or.inl rfl)))⟩
  · intro i hi
    rcases hchans i hi with rfl | rfl
    · exact ⟨fun _ => by decide, fun h => absurd h (by decide)⟩
    · exact ⟨fun h => absurd h (by decide), fun h => absurd h (by decide)⟩

/-- A 2K front end with two channels of signed 32-bit numbers at 32 Hz: the second sample of
each is written 256 bytes behind its channel. -/
theorem decimated_int_leaves_region :
    ∃ s, started 128 [⟨10001, daqDatatype32BitInt, 32⟩, ⟨10002, daqDatatype32BitInt, 32⟩] =
        some s ∧
      (∀ i < s.dataInfo.numChans, ChanOk 128 (s.dataInfo.tp i)) ∧
      ∀ block, block.length = 128 →
        ¬ RowsWritten plainBuild 128 plainRange s block := by
  have hlayout : ∀ s, started 128 [⟨10001, daqDatatype32BitInt, 32⟩,
      ⟨10002, daqDatatype32BitInt, 32⟩] = some s → LayoutOk 128 s :=
    fun s h => (daqConnect_ok h).1.layoutOk
  refine ⟨_, rfl, ?_, fun block hblock hrows => ?_⟩
  · intro i hi
    have hchans : i = 0 ∨ i = 1 := by
      have htwo : i < 2 := hi
      omega
    rcases hchans with rfl | rfl
    all_goals exact ⟨⟨1, rfl, by decide⟩, Or.inr (Or.inl rfl)⟩
  · have hrow := ((hlayout _ rfl).row_iff _ _ (a := 7) rfl rfl hblock (by decide)
      ⟨⟨1, rfl, by decide⟩, Or.inr (Or.inl rfl)⟩).mp (hrows.once 0 (by decide))
    rcases hrow.2 rfl with hfull | hone
    · exact absurd hfull (by decide)
    · exact absurd hone (by decide)

end AdvLigoRts.Drv
