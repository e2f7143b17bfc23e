import Mathlib.Algebra.Order.BigOperators.Group.List
import AdvLigoRts.LocalDc.LocalDc
import AdvLigoRts.Daqd.ChecksumTheorems

/-!
# Messages of `local_dc` and their receivers

A message is built model by model. What is in front of `zbuffer` stays as it is, so the receivers
find the bytes of each model where the headers say.
-/

namespace AdvLigoRts.LocalDc

open PvLib

variable {charSigned : Bool} {lastCycle : ℕ}

/-! ## The loop -/

/-- The loop without its error returns. -/
def loadAll (charSigned : Bool) (lastCycle : ℕ) (rs : List FrontEnd) (s : LoadState) : LoadState :=
  rs.foldl (LoadState.load charSigned lastCycle) s

theorem loadAll_append (rs rs' : List FrontEnd) (s : LoadState) :
    loadAll charSigned lastCycle (rs ++ rs') s
      = loadAll charSigned lastCycle rs' (loadAll charSigned lastCycle rs s) :=
  List.foldl_append

/-- The total of the sizes. -/
def xferSum (lastCycle : ℕ) (rs : List FrontEnd) : ℕ :=
  (rs.map fun fe => fe.dataXferSize lastCycle).sum

/-- Every model that is ready has data that fits. -/
def Fits (lastCycle : ℕ) (rs : List FrontEnd) : Prop :=
  ∀ fe ∈ rs, fe.dataXferSize lastCycle ≤ daqDcuBlockSize

theorem loadLoop_eq_ok {fes : List FrontEnd} {s s' : LoadState} :
    loadLoop charSigned lastCycle fes s = .ok s' ↔
      Fits lastCycle (fes.filter FrontEnd.dataRdy) ∧
        s' = loadAll charSigned lastCycle (fes.filter FrontEnd.dataRdy) s := by
  have hblock : daqDcuBlockSize < 2 ^ 31 := by decide
  induction fes generalizing s with
  | nil => simp [loadLoop, Fits, loadAll, eq_comm]
  | cons fe fes ih =>
    unfold loadLoop
    by_cases hrdy : fe.dataRdy
    · rw [if_pos hrdy, List.filter_cons_of_pos hrdy]
      by_cases hfit : fe.dataXferSize lastCycle ≤ daqDcuBlockSize
      · rw [if_neg (by omega), if_neg (by omega)]
        refine ih.trans ?_
        simp [Fits, loadAll, hfit]
      · have hno : ¬ Fits lastCycle (fe :: fes.filter FrontEnd.dataRdy) :=
          fun h => hfit (h fe List.mem_cons_self)
        split
        · simp [hno]
        · rw [if_pos (by omega)]
          simp [hno]
    · rw [if_neg hrdy, List.filter_cons_of_neg hrdy]
      exact ih

section LoadAll

variable {rs : List FrontEnd} {s s' : LoadState}

theorem db_loadAll (charSigned : Bool) (lastCycle : ℕ) (rs : List FrontEnd) (s : LoadState) :
    (loadAll charSigned lastCycle rs s).db = s.db + rs.length := by
  induction rs generalizing s with
  | nil => rfl
  | cons fe rs ih =>
    rw [loadAll, List.foldl_cons, ← loadAll, ih, List.length_cons]
    simp only [LoadState.load]
    omega

theorem zbuffer_loadAll (charSigned : Bool) (lastCycle : ℕ) (rs : List FrontEnd) (s : LoadState) :
    (loadAll charSigned lastCycle rs s).zbuffer = s.zbuffer + xferSum lastCycle rs := by
  induction rs generalizing s with
  | nil => rfl
  | cons fe rs ih =>
    rw [loadAll, List.foldl_cons, ← loadAll, ih, xferSum, xferSum, List.map_cons, List.sum_cons]
    simp only [LoadState.load]
    omega

theorem fullDataBlockSize_loadAll (charSigned : Bool) (lastCycle : ℕ) (rs : List FrontEnd)
    {s : LoadState} (hs : s.ixDataBlock.header.fullDataBlockSize < 2 ^ 32) :
    (loadAll charSigned lastCycle rs s).ixDataBlock.header.fullDataBlockSize
      = (s.ixDataBlock.header.fullDataBlockSize + xferSum lastCycle rs) % 2 ^ 32 := by
  induction rs generalizing s with
  | nil => exact (Nat.mod_eq_of_lt hs).symm
  | cons fe rs ih =>
    rw [loadAll, List.foldl_cons, ← loadAll, ih (Nat.mod_lt _ (by norm_num)), xferSum, xferSum,
      List.map_cons, List.sum_cons]
    simp only [LoadState.load]
    omega

/-- Headers that are done stay as they are. -/
theorem dcuheader_loadAll {k : ℕ} (hk : k < s.db) :
    (loadAll charSigned lastCycle rs s).ixDataBlock.header.dcuheader k
      = s.ixDataBlock.header.dcuheader k := by
  induction rs generalizing s with
  | nil => rfl
  | cons fe rs ih =>
    rw [loadAll, List.foldl_cons, ← loadAll, ih (by simp only [LoadState.load]; omega)]
    simp only [LoadState.load]
    exact Function.update_of_ne (by omega) _ _

/-- Nothing in front of `zbuffer` changes. -/
theorem dataBlock_loadAll_of_lt {p : ℕ} (hp : p < s.zbuffer) :
    (loadAll charSigned lastCycle rs s).ixDataBlock.dataBlock p = s.ixDataBlock.dataBlock p := by
  induction rs generalizing s with
  | nil => rfl
  | cons fe rs ih =>
    rw [loadAll, List.foldl_cons, ← loadAll, ih (by simp only [LoadState.load]; omega)]
    exact blit_outside (Or.inl hp)

/-- Nothing behind the bytes that are copied changes. -/
theorem dataBlock_loadAll_of_ge {p : ℕ} (hp : s.zbuffer + xferSum lastCycle rs ≤ p) :
    (loadAll charSigned lastCycle rs s).ixDataBlock.dataBlock p = s.ixDataBlock.dataBlock p := by
  induction rs generalizing s with
  | nil => rfl
  | cons fe rs ih =>
    rw [xferSum, List.map_cons, List.sum_cons, ← xferSum] at hp
    rw [loadAll, List.foldl_cons, ← loadAll, ih (by simp only [LoadState.load]; omega)]
    exact blit_outside (Or.inr (by omega))

/-- The bytes that are copied do not depend on what was there before. -/
theorem dataBlock_loadAll_congr {p : ℕ} (hz : s.zbuffer = s'.zbuffer)
    (hp : s.ixDataBlock.dataBlock p = s'.ixDataBlock.dataBlock p ∨
      s.zbuffer ≤ p ∧ p < s.zbuffer + xferSum lastCycle rs) :
    (loadAll charSigned lastCycle rs s).ixDataBlock.dataBlock p
      = (loadAll charSigned lastCycle rs s').ixDataBlock.dataBlock p := by
  induction rs generalizing s s' with
  | nil =>
    refine hp.resolve_right fun h => ?_
    simp only [xferSum, List.map_nil, List.sum_nil] at h
    omega
  | cons fe rs ih =>
    rw [xferSum, List.map_cons, List.sum_cons, ← xferSum] at hp
    rw [loadAll, loadAll, List.foldl_cons, List.foldl_cons, ← loadAll, ← loadAll]
    apply ih
    · simp only [LoadState.load, hz]
    · -- a byte of this model is the same from here on, a byte behind it is left to the others
      simp only [LoadState.load, blit, hz]
      split
      · exact Or.inl rfl
      · grind

end LoadAll

/-! ## The message -/

/-- The message of the models `rs`, written over `d`. -/
def message (charSigned : Bool) (lastCycle : ℕ) (rs : List FrontEnd) (d : DaqMultiDcuData) :
    DaqMultiDcuData :=
  (loadAll charSigned lastCycle rs (loadStart d)).finish.2

theorem loadMessageBuffer_eq_ok {fes : FrontEnds} {d : DaqMultiDcuData}
    {r : ℕ × DaqMultiDcuData} :
    loadMessageBuffer charSigned lastCycle fes d = .ok r ↔ Fits lastCycle fes.ready ∧
      r = (loadAll charSigned lastCycle fes.ready (loadStart d)).finish := by
  unfold loadMessageBuffer
  cases hloop : loadLoop charSigned lastCycle fes.models (loadStart d) with
  | error e =>
    have hno : ¬ Fits lastCycle fes.ready := by
      intro hfit
      have hok : loadLoop charSigned lastCycle fes.models (loadStart d) = .ok _ :=
        loadLoop_eq_ok.mpr ⟨hfit, rfl⟩
      rw [hloop] at hok
      cases hok
    simp [Except.map, hno]
  | ok s =>
    obtain ⟨hfit, rfl⟩ := loadLoop_eq_ok.mp hloop
    rw [Except.map, Except.ok.injEq, eq_comm]
    exact (and_iff_right hfit).symm

section Message

variable {rs : List FrontEnd} {d : DaqMultiDcuData} {fe : FrontEnd} {i : ℕ}

/-- The message up to model `i` and the rest of the loop. -/
theorem loadAll_split (hi : rs[i]? = some fe) (s : LoadState) :
    loadAll charSigned lastCycle rs s = loadAll charSigned lastCycle (rs.drop (i + 1))
      ((loadAll charSigned lastCycle (rs.take i) s).load charSigned lastCycle fe) := by
  obtain ⟨hlt, rfl⟩ := List.getElem?_eq_some_iff.mp hi
  conv_lhs => rw [← List.take_append_drop i rs, List.drop_eq_getElem_cons hlt]
  rw [loadAll_append]
  rfl

/-- The memory when the checksum of model `i` is taken. -/
def crcMem (charSigned : Bool) (lastCycle : ℕ) (rs : List FrontEnd) (d : DaqMultiDcuData) (i : ℕ) :
    ℕ → UInt8 :=
  (loadAll charSigned lastCycle (rs.take (i + 1)) (loadStart d)).ixDataBlock.dataBlock

theorem crcMem_eq (hi : rs[i]? = some fe) :
    crcMem charSigned lastCycle rs d i
      = blit (loadAll charSigned lastCycle (rs.take i) (loadStart d)).ixDataBlock.dataBlock
          (xferSum lastCycle (rs.take i)) (fe.dataBuff lastCycle) (fe.dataXferSize lastCycle) := by
  have htake : rs.take (i + 1) = rs.take i ++ [fe] := by
    rw [List.take_add_one, hi, Option.toList_some]
  have hz := zbuffer_loadAll charSigned lastCycle (rs.take i) (loadStart d)
  rw [crcMem, htake, loadAll_append]
  simp only [loadAll, List.foldl_cons, List.foldl_nil] at hz ⊢
  rw [LoadState.load, hz, loadStart, Nat.zero_add]

/-- The header of model `i`. -/
theorem dcuheader_message (charSigned : Bool) (lastCycle : ℕ) (d : DaqMultiDcuData)
    (hi : rs[i]? = some fe) : ∃ old,
    (message charSigned lastCycle rs d).header.dcuheader i = { fe.header lastCycle old with
      dataCrc := dataCrc charSigned (crcMem charSigned lastCycle rs d i)
        (xferSum lastCycle (rs.take i)) (fe.crcLength lastCycle) } := by
  have hlt : i < rs.length := (List.getElem?_eq_some_iff.mp hi).1
  have hdb := db_loadAll charSigned lastCycle (rs.take i) (loadStart d)
  have hz := zbuffer_loadAll charSigned lastCycle (rs.take i) (loadStart d)
  rw [List.length_take_of_le hlt.le, show (loadStart d).db = 0 from rfl, Nat.zero_add] at hdb
  rw [show (loadStart d).zbuffer = 0 from rfl, Nat.zero_add] at hz
  refine ⟨(loadAll charSigned lastCycle (rs.take i) (loadStart d)).ixDataBlock.header.dcuheader i,
    ?_⟩
  rw [message, LoadState.finish, loadAll_split hi, dcuheader_loadAll, crcMem_eq hi]
  · simp only [LoadState.load, hdb, hz, Function.update_self]
  · simp only [LoadState.load, hdb]
    omega

theorem dcuTotalModels_message :
    (message charSigned lastCycle rs d).header.dcuTotalModels = rs.length := by
  rw [message, LoadState.finish, db_loadAll]
  exact Nat.zero_add _

theorem map_blockSize_message :
    (message charSigned lastCycle rs d).models.map DaqMsgHeader.blockSize
      = rs.map fun fe => fe.dataXferSize lastCycle := by
  rw [DaqMultiDcuData.models, List.map_map, dcuTotalModels_message]
  apply List.ext_getElem (by simp)
  intro i hi _
  rw [List.length_map, List.length_range] at hi
  obtain ⟨old, hold⟩ := dcuheader_message charSigned lastCycle d (List.getElem?_eq_getElem hi)
  rw [List.getElem_map, List.getElem_range, List.getElem_map, Function.comp_apply, hold]
  rfl

theorem offset_message (i : ℕ) :
    (message charSigned lastCycle rs d).offset i = xferSum lastCycle (rs.take i) := by
  rw [DaqMultiDcuData.offset, List.map_take, map_blockSize_message, ← List.map_take, xferSum]

theorem fullDataBlockSize_message (charSigned : Bool) (d : DaqMultiDcuData)
    (hlen : rs.length ≤ 128) (hfit : Fits lastCycle rs) :
    (message charSigned lastCycle rs d).header.fullDataBlockSize = xferSum lastCycle rs := by
  have hle : xferSum lastCycle rs ≤ rs.length * daqDcuBlockSize := by
    have hcard := List.sum_le_card_nsmul (rs.map fun fe => fe.dataXferSize lastCycle)
      daqDcuBlockSize (by simpa [Fits] using hfit)
    simpa [xferSum] using hcard
  have hlt : rs.length * daqDcuBlockSize ≤ 128 * daqDcuBlockSize := Nat.mul_le_mul_right _ hlen
  -- as many models as there can be do not fill 32 bits
  have hword : 128 * daqDcuBlockSize < 2 ^ 32 := by decide
  rw [message, LoadState.finish, fullDataBlockSize_loadAll charSigned lastCycle rs
    (show 0 < 2 ^ 32 by norm_num)]
  rw [show (loadStart d).ixDataBlock.header.fullDataBlockSize = 0 from rfl, Nat.zero_add]
  exact Nat.mod_eq_of_lt (by omega)

/-- The bytes of model `i` are where the headers say. -/
theorem slice_message (charSigned : Bool) (lastCycle : ℕ) (d : DaqMultiDcuData)
    (hi : rs[i]? = some fe) :
    (message charSigned lastCycle rs d).slice (xferSum lastCycle (rs.take i))
        (fe.dataXferSize lastCycle)
      = bytesAt (fe.dataBuff lastCycle) 0 (fe.dataXferSize lastCycle) := by
  have hz := zbuffer_loadAll charSigned lastCycle (rs.take i) (loadStart d)
  rw [show (loadStart d).zbuffer = 0 from rfl, Nat.zero_add] at hz
  apply List.map_congr_left
  intro j hj
  rw [List.mem_range] at hj
  -- the models behind it leave them alone
  rw [message, LoadState.finish, loadAll_split hi, dataBlock_loadAll_of_lt]
  · simp only [LoadState.load, hz, blit_inside hj, Nat.zero_add]
  · simp only [LoadState.load, hz]
    omega

end Message

/-! ## The receivers -/

/-- What a receiver has of a model. -/
structure Recovered where
  dcuId : UInt32
  bytes : List UInt8
  tpNum : List UInt32
deriving DecidableEq, Repr

/-- Walking the headers of a message: the data of a model starts behind that of the models
before it. -/
def recover (d : DaqMultiDcuData) : List Recovered :=
  (List.range d.header.dcuTotalModels).map fun i =>
    let h := d.header.dcuheader i
    ⟨h.dcuId, d.slice (d.offset i) h.blockSize, h.tpNum.take h.tpCount.toNat⟩

/-- What there is to recover: the bytes of the shared buffer for the cycle, and the test points
in use. -/
def FrontEnd.shared (lastCycle : ℕ) (fe : FrontEnd) : Recovered where
  dcuId := fe.ipc.dcuId
  bytes := bytesAt (fe.dataBuff lastCycle) 0 (fe.dataXferSize lastCycle)
  tpNum := (List.range fe.tpCount.toNat).map fe.tpTable.tpNum

theorem recover_message (charSigned : Bool) (lastCycle : ℕ) (rs : List FrontEnd)
    (d : DaqMultiDcuData) :
    recover (message charSigned lastCycle rs d) = rs.map (FrontEnd.shared lastCycle) := by
  rw [recover, dcuTotalModels_message]
  apply List.ext_getElem (by simp)
  intro i hi _
  rw [List.length_map, List.length_range] at hi
  have hget := List.getElem?_eq_getElem hi
  obtain ⟨old, hold⟩ := dcuheader_message charSigned lastCycle d hget
  have hslice := slice_message charSigned lastCycle d hget
  rw [List.getElem_map, List.getElem_range, List.getElem_map]
  simp only [hold, offset_message, FrontEnd.shared, FrontEnd.header, Recovered.mk.injEq, true_and]
  refine ⟨hslice, ?_⟩
  exact List.take_left' (by simp)

theorem receivedCrc_eq (charSigned : Bool) (base : ℕ) (d : DaqMultiDcuData) (pos : ℕ)
    (n : UInt32) : receivedCrc base d pos n.toNat = dataCrc charSigned d.dataBlock pos n := by
  rw [receivedCrc, Daqd.result_add charSigned, List.length_map]
  have hlen : (d.slice pos n.toNat).length = n.toNat := by simp [DaqMultiDcuData.slice]
  rw [hlen]
  simp [dataCrc, bytesAt, DaqMultiDcuData.slice]

/-- The checksums of a message are those of its data. -/
def CrcsMatch (charSigned : Bool) (d : DaqMultiDcuData) : Prop :=
  ∀ i < d.header.dcuTotalModels, (d.header.dcuheader i).dataCrc
    = dataCrc charSigned d.dataBlock (d.offset i) (d.header.dcuheader i).dataBlockSize

section Receivers

variable {base dataEnd data : ℕ} {d : DaqMultiDcuData} {hs : List DaqMsgHeader}

/-- Where a loop over headers finds the data of the `k`-th. -/
def walkOffset (data : ℕ) (hs : List DaqMsgHeader) (k : ℕ) : ℕ :=
  data + ((hs.take k).map DaqMsgHeader.blockSize).sum

theorem walkOffset_cons (h : DaqMsgHeader) (k : ℕ) :
    walkOffset data (h :: hs) (k + 1) = walkOffset (data + h.blockSize) hs k := by
  simp only [walkOffset, List.take_succ_cons, List.map_cons, List.sum_cons]
  omega

theorem statsLoop_ok (hok : ∀ k h, hs[k]? = some h →
      h.dataCrc = receivedCrc base d (walkOffset data hs k) h.dataBlockSize.toNat) :
    ∀ dcu ∈ statsLoop base d dataEnd hs data, dcu.badDataCrc = false := by
  induction hs generalizing data with
  | nil => simp [statsLoop]
  | cons h hs ih =>
    have htail : ∀ k h', hs[k]? = some h' → h'.dataCrc
        = receivedCrc base d (walkOffset (data + h.blockSize) hs k) h'.dataBlockSize.toNat := by
      intro k h' hk
      rw [← walkOffset_cons]
      exact hok (k + 1) h' hk
    have hhead := hok 0 h rfl
    unfold statsLoop
    split
    · split
      · simp
      · -- a model without data does not move the pointer
        next hno =>
        have hzero : h.blockSize = 0 := by
          simp only [UInt32.lt_iff_toNat_lt, UInt32.toNat_zero] at hno
          rw [DaqMsgHeader.blockSize, UInt32.toNat_add]
          omega
        rw [hzero, Nat.add_zero] at htail
        exact ih htail
    · split
      · simp
      · intro dcu hdcu
        obtain rfl | hdcu := List.mem_cons.mp hdcu
        · simpa [walkOffset] using hhead.symm
        · exact ih htail dcu hdcu

/-- `DCStats` gets to every model of a message that says its own size. -/
theorem map_dcuId_statsLoop (hend : walkOffset data hs hs.length ≤ dataEnd)
    (hid : ∀ h ∈ hs, h.dcuId ≠ 0 ∧ h.dcuId.toNat < dcuCount) :
    (statsLoop base d dataEnd hs data).map SeenDcu.dcuId = hs.map DaqMsgHeader.dcuId := by
  induction hs generalizing data with
  | nil => rfl
  | cons h hs ih =>
    have hh := hid h List.mem_cons_self
    rw [List.length_cons, walkOffset_cons] at hend
    have hle : data + h.blockSize ≤ dataEnd := by
      have hoff : data + h.blockSize ≤ walkOffset (data + h.blockSize) hs hs.length := by
        simp only [walkOffset]
        omega
      omega
    unfold statsLoop
    rw [if_neg (by simpa using hh), if_neg (by omega), List.map_cons, List.map_cons,
      ih hend fun h' hh' => hid h' (List.mem_cons_of_mem h hh')]

/-- Every DCU on the map was put there by a header. -/
theorem mapDcus_some {endData curBlock : ℕ} {lookup lookup' : ℕ → Option ZmqDcu}
    (hmap : mapDcus endData hs curBlock data lookup = some lookup') {j : ℕ} {z : ZmqDcu}
    (hz : lookup' j = some z) : lookup j = some z ∨ ∃ k h, hs[k]? = some h ∧
      z = ⟨curBlock + k, walkOffset data hs k, h.dataCrc, h.timeSec⟩ := by
  induction hs generalizing curBlock data lookup with
  | nil =>
    obtain rfl : lookup = lookup' := by simpa [mapDcus] using hmap
    exact Or.inl hz
  | cons h hs ih =>
    unfold mapDcus at hmap
    simp only at hmap
    split at hmap
    · simp at hmap
    · obtain hold | ⟨k, h', hk, rfl⟩ := ih hmap
      · -- an entry that was there before, or that of this header
        split at hold
        · exact Or.inl hold
        · by_cases hj : j = h.dcuId.toNat
          · subst hj
            rw [Function.update_self, Option.some.injEq] at hold
            exact Or.inr ⟨0, h, rfl, by simp [← hold, walkOffset]⟩
          · rw [Function.update_of_ne hj] at hold
            exact Or.inl hold
      · refine Or.inr ⟨k + 1, h', hk, ?_⟩
        rw [walkOffset_cons]
        simp only [ZmqDcu.mk.injEq, and_true]
        omega

theorem getElem?_models {k : ℕ} {h : DaqMsgHeader} (hk : d.models[k]? = some h) :
    k < d.header.dcuTotalModels ∧ h = d.header.dcuheader k := by
  obtain ⟨hlt, rfl⟩ := List.getElem?_eq_some_iff.mp hk
  simpa [DaqMultiDcuData.models] using hlt

theorem CrcsMatch.received (hd : CrcsMatch charSigned d) (base : ℕ) {k : ℕ} {h : DaqMsgHeader}
    (hk : d.models[k]? = some h) :
    h.dataCrc = receivedCrc base d (walkOffset 0 d.models k) h.dataBlockSize.toNat := by
  obtain ⟨hlt, rfl⟩ := getElem?_models hk
  rw [receivedCrc_eq charSigned, walkOffset, Nat.zero_add]
  exact hd k hlt

/-- `DCStats` finds no fault with the checksums. -/
theorem CrcsMatch.statsRun (hd : CrcsMatch charSigned d) (base : ℕ) :
    ∀ dcu ∈ statsRun base d, dcu.badDataCrc = false := by
  unfold LocalDc.statsRun
  split
  · simp
  · exact statsLoop_ok fun k h hk => hd.received base hk

theorem CrcsMatch.producerCrcOk (hd : CrcsMatch charSigned d) (base : ℕ)
    {lookup : ℕ → Option ZmqDcu} (hmap : dcuMap d = some lookup) {j : ℕ} {z : ZmqDcu}
    (hz : lookup j = some z) : producerCrcOk base d z = true := by
  obtain hnone | ⟨k, h, hk, rfl⟩ := mapDcus_some hmap hz
  · simp at hnone
  · obtain ⟨-, hh⟩ := getElem?_models hk
    have hcrc := hd.received base hk
    simp only [LocalDc.producerCrcOk, beq_iff_eq, Nat.zero_add]
    rw [hcrc, hh]

end Receivers

/-! ## Agreement -/

/-- Builder and receivers agree on the message `d` of the models `rs`. -/
structure Agrees (charSigned : Bool) (lastCycle : ℕ) (rs : List FrontEnd) (d : DaqMultiDcuData) :
    Prop where
  dcuTotalModels : d.header.dcuTotalModels = rs.length
  fullDataBlockSize : d.header.fullDataBlockSize = (d.models.map DaqMsgHeader.blockSize).sum
  recovered : recover d = rs.map (FrontEnd.shared lastCycle)
  crcsMatch : CrcsMatch charSigned d
  statsRun : ∀ base, ∀ dcu ∈ statsRun base d, dcu.badDataCrc = false
  statsSeen : ∀ base, 0 < d.header.fullDataBlockSize →
    (∀ fe ∈ rs, fe.ipc.dcuId ≠ 0 ∧ fe.ipc.dcuId.toNat < dcuCount) →
    (LocalDc.statsRun base d).map SeenDcu.dcuId = rs.map fun fe => fe.ipc.dcuId
  producer : ∀ base lookup, dcuMap d = some lookup → ∀ j z, lookup j = some z →
    producerCrcOk base d z = true

/-- The checksum of every model is taken over bytes that have been copied and stay: the length
in the front end's block is not clamped, and it is not above the size of the copy, unless
nothing is copied behind it (the size can only be smaller where the sum of two sizes is taken
modulo `2 ^ 32`). -/
def CrcInCopy (lastCycle : ℕ) (rs : List FrontEnd) : Prop :=
  ∀ i fe, rs[i]? = some fe → (fe.crcLength lastCycle).toNat ≤ daqDcuBlockSize ∧
    ((fe.crcLength lastCycle).toNat ≤ fe.dataXferSize lastCycle ∨
      xferSum lastCycle (rs.drop (i + 1)) = 0)

section Agreement

variable {rs : List FrontEnd} {d : DaqMultiDcuData} {fe : FrontEnd} {i : ℕ}

theorem map_dcuId_message (charSigned : Bool) (lastCycle : ℕ) (rs : List FrontEnd)
    (d : DaqMultiDcuData) :
    (message charSigned lastCycle rs d).models.map DaqMsgHeader.dcuId
      = rs.map fun fe => fe.ipc.dcuId := by
  have h := congrArg (List.map Recovered.dcuId)
    (recover_message charSigned lastCycle rs d)
  simpa [recover, DaqMultiDcuData.models, Function.comp_def, FrontEnd.shared] using h

/-- All but the checksums holds in any case. -/
theorem agrees_of_crcsMatch (hlen : rs.length ≤ 128) (hfit : Fits lastCycle rs)
    (hcrc : CrcsMatch charSigned (message charSigned lastCycle rs d)) :
    Agrees charSigned lastCycle rs (message charSigned lastCycle rs d) := by
  have hfull := fullDataBlockSize_message charSigned d hlen hfit
  have hsum : (message charSigned lastCycle rs d).header.fullDataBlockSize
      = ((message charSigned lastCycle rs d).models.map DaqMsgHeader.blockSize).sum := by
    rw [hfull, map_blockSize_message, xferSum]
  refine ⟨dcuTotalModels_message, hsum, recover_message charSigned lastCycle rs d, hcrc,
    hcrc.statsRun, ?_, fun base lookup hmap j z hz => hcrc.producerCrcOk base hmap hz⟩
  intro base hpos hid
  have hne : rs.length ≠ 0 := by
    intro h
    obtain rfl := List.eq_nil_of_length_eq_zero h
    simp [hfull, xferSum] at hpos
  unfold LocalDc.statsRun
  rw [dcuTotalModels_message, if_neg (by simp only [dcuCount]; omega), map_dcuId_statsLoop,
    map_dcuId_message]
  · rw [walkOffset, List.take_length, ← hsum, Nat.zero_add]
  · intro h hh
    have hmem : h.dcuId ∈ rs.map fun fe => fe.ipc.dcuId := by
      rw [← map_dcuId_message charSigned lastCycle rs d]
      exact List.mem_map_of_mem hh
    obtain ⟨fe, hfe, heq⟩ := List.mem_map.mp hmem
    rw [← heq]
    exact hid fe hfe

/-- The checksum of a model, as it was taken and as the receivers take it. -/
theorem crcsMatch_message_iff :
    CrcsMatch charSigned (message charSigned lastCycle rs d) ↔ ∀ i fe, rs[i]? = some fe →
      dataCrc charSigned (crcMem charSigned lastCycle rs d i) (xferSum lastCycle (rs.take i))
          (fe.crcLength lastCycle)
        = dataCrc charSigned (message charSigned lastCycle rs d).dataBlock
          (xferSum lastCycle (rs.take i)) (fe.dataBlockSize lastCycle) := by
  constructor
  · intro h i fe hi
    obtain ⟨old, hold⟩ := dcuheader_message charSigned lastCycle d hi
    have hcrc := h i (by rw [dcuTotalModels_message]; exact (List.getElem?_eq_some_iff.mp hi).1)
    rw [hold, offset_message] at hcrc
    exact hcrc
  · intro h i hi
    rw [dcuTotalModels_message] at hi
    have hget := List.getElem?_eq_getElem hi
    obtain ⟨old, hold⟩ := dcuheader_message charSigned lastCycle d hget
    rw [hold, offset_message]
    exact h i _ hget

theorem xferSum_take_succ (hi : rs[i]? = some fe) :
    xferSum lastCycle (rs.take (i + 1))
      = xferSum lastCycle (rs.take i) + fe.dataXferSize lastCycle := by
  rw [List.take_add_one, hi, Option.toList_some, xferSum, List.map_append, List.sum_append]
  rfl

theorem xferSum_split (lastCycle : ℕ) (hi : rs[i]? = some fe) :
    xferSum lastCycle rs = xferSum lastCycle (rs.take i) + fe.dataXferSize lastCycle
      + xferSum lastCycle (rs.drop (i + 1)) := by
  rw [← xferSum_take_succ hi]
  conv_lhs => rw [← List.take_append_drop (i + 1) rs]
  rw [xferSum, List.map_append, List.sum_append]
  rfl

/-- The memory of the message, from the memory at the checksum of model `i` on. -/
theorem message_dataBlock_eq (i : ℕ) :
    (message charSigned lastCycle rs d).dataBlock
      = (loadAll charSigned lastCycle (rs.drop (i + 1)) (loadAll charSigned lastCycle
          (rs.take (i + 1)) (loadStart d))).ixDataBlock.dataBlock := by
  rw [← loadAll_append, List.take_append_drop]
  rfl

/-- Bytes that have been copied stay, and so do all others if nothing more is copied. -/
theorem crcMem_stays (hi : rs[i]? = some fe) {j : ℕ}
    (hj : j < fe.dataXferSize lastCycle ∨ xferSum lastCycle (rs.drop (i + 1)) = 0) :
    crcMem charSigned lastCycle rs d i (xferSum lastCycle (rs.take i) + j)
      = (message charSigned lastCycle rs d).dataBlock (xferSum lastCycle (rs.take i) + j) := by
  have hz := zbuffer_loadAll charSigned lastCycle (rs.take (i + 1)) (loadStart d)
  rw [show (loadStart d).zbuffer = 0 from rfl, Nat.zero_add, xferSum_take_succ hi] at hz
  rw [message_dataBlock_eq i, crcMem]
  symm
  by_cases hlt : j < fe.dataXferSize lastCycle
  · exact dataBlock_loadAll_of_lt (by omega)
  · exact dataBlock_loadAll_of_ge (by omega)

theorem crcsMatch_of_crcInCopy (h : CrcInCopy lastCycle rs) :
    CrcsMatch charSigned (message charSigned lastCycle rs d) := by
  rw [crcsMatch_message_iff]
  intro i fe hi
  obtain ⟨hblock, hcopy⟩ := h i fe hi
  have hsize : fe.dataBlockSize lastCycle = fe.crcLength lastCycle := by
    rw [FrontEnd.dataBlockSize, if_neg (by omega)]
  have hbytes : bytesAt (crcMem charSigned lastCycle rs d i) (xferSum lastCycle (rs.take i))
        (fe.crcLength lastCycle).toNat
      = bytesAt (message charSigned lastCycle rs d).dataBlock (xferSum lastCycle (rs.take i))
        (fe.crcLength lastCycle).toNat :=
    bytesAt_congr fun j hj => crcMem_stays hi (hcopy.imp_left fun hle => by omega)
  rw [hsize, dataCrc, dataCrc, hbytes]

/-- The message memory with one byte set. -/
def poke (d : DaqMultiDcuData) (p : ℕ) (c : UInt8) : DaqMultiDcuData :=
  { d with dataBlock := Function.update d.dataBlock p c }

/-- The memory at a checksum shows a byte that was not copied, and is else the same. -/
theorem bytesAt_crcMem_poke (hi : rs[i]? = some fe) {k n : ℕ}
    (hcopy : fe.dataXferSize lastCycle ≤ k) (c : UInt8) :
    bytesAt (crcMem charSigned lastCycle rs (poke d (xferSum lastCycle (rs.take i) + k) c) i)
        (xferSum lastCycle (rs.take i)) n
      = (bytesAt (crcMem charSigned lastCycle rs d i)
          (xferSum lastCycle (rs.take i)) n).set k c := by
  apply List.ext_getElem (by simp)
  intro j hj _
  rw [length_bytesAt] at hj
  simp only [List.getElem_set, bytesAt, List.getElem_map, List.getElem_range, crcMem]
  by_cases hjk : k = j
  · subst hjk
    rw [if_pos rfl, dataBlock_loadAll_of_ge]
    · exact Function.update_self ..
    · rw [xferSum_take_succ hi]
      simp only [loadStart]
      omega
  · rw [if_neg hjk]
    refine dataBlock_loadAll_congr rfl (Or.inl ?_)
    exact Function.update_of_ne (by omega) ..

/-- A checksum that takes in a byte which is not the model's follows that byte, and the data
that the receivers see does not. -/
theorem not_crcsMatch_poke (charSigned : Bool) (d : DaqMultiDcuData) (hi : rs[i]? = some fe)
    {k : ℕ} (hcopy : fe.dataXferSize lastCycle ≤ k) (hcrc : k < (fe.crcLength lastCycle).toNat)
    (hk : (fe.dataBlockSize lastCycle).toNat ≤ k ∨
      xferSum lastCycle (rs.take i) + k < xferSum lastCycle rs) :
    ∃ c, ¬ CrcsMatch charSigned (message charSigned lastCycle rs
      (poke d (xferSum lastCycle (rs.take i) + k) c)) := by
  by_contra hall
  push Not at hall
  -- the receivers see the same data, whatever the byte was
  have hseen : ∀ c, dataCrc charSigned (message charSigned lastCycle rs
          (poke d (xferSum lastCycle (rs.take i) + k) c)).dataBlock
          (xferSum lastCycle (rs.take i)) (fe.dataBlockSize lastCycle)
        = dataCrc charSigned (message charSigned lastCycle rs d).dataBlock
          (xferSum lastCycle (rs.take i)) (fe.dataBlockSize lastCycle) := by
    intro c
    rw [dataCrc, dataCrc, bytesAt_congr]
    intro j hj
    rw [message, message, LoadState.finish, LoadState.finish]
    refine dataBlock_loadAll_congr rfl ?_
    by_cases hjk : j = k
    · right
      simp only [loadStart]
      omega
    · left
      exact Function.update_of_ne (by omega) ..
  have htaken := fun c => (crcsMatch_message_iff.mp (hall c) i fe hi).trans (hseen c)
  have heq := congrArg UInt32.toBitVec ((htaken 0).trans (htaken 1).symm)
  simp only [dataCrc, bytesAt_crcMem_poke hi hcopy] at heq
  have hptr := Drv.crcLen_injective _ heq
  rw [List.map_set, List.map_set] at hptr
  have hbyte := Drv.crcPtr_set_inj (by simpa using hcrc) hptr
  exact absurd hbyte (by decide)

theorem crcInCopy_of_forall_crcsMatch (d : DaqMultiDcuData) (hfit : Fits lastCycle rs)
    (h : ∀ d, CrcsMatch charSigned (message charSigned lastCycle rs d)) :
    CrcInCopy lastCycle rs := by
  intro i fe hi
  have hcopy : fe.dataXferSize lastCycle ≤ daqDcuBlockSize :=
    hfit fe (List.mem_of_getElem? hi)
  have hsplit := xferSum_split lastCycle hi
  refine ⟨?_, ?_⟩
  · -- the last byte of a checksum that is too long is behind the block
    by_contra hlong
    have hsize : (fe.dataBlockSize lastCycle).toNat = daqDcuBlockSize := by
      rw [FrontEnd.dataBlockSize, if_pos (by omega)]
      rfl
    have hlast : fe.dataXferSize lastCycle ≤ (fe.crcLength lastCycle).toNat - 1 := by omega
    obtain ⟨c, hc⟩ := not_crcsMatch_poke charSigned d hi hlast (by omega) (Or.inl (by omega))
    exact hc (h _)
  · -- the first byte that was not copied is written by a later model
    by_contra hno
    push Not at hno
    obtain ⟨c, hc⟩ := not_crcsMatch_poke charSigned d hi le_rfl hno.1 (Or.inr (by omega))
    exact hc (h _)

end Agreement

/-- Whenever `loadMessageBuffer` returns a length for a set of front ends, it builds a message
that the receivers agree with, whatever the message memory held before, if and only if every
checksum is taken over copied bytes. -/
theorem loadMessageBuffer_agrees_iff (charSigned : Bool) (lastCycle : ℕ) (fes : FrontEnds)
    {d₀ : DaqMultiDcuData} {r₀ : ℕ × DaqMultiDcuData}
    (hret : loadMessageBuffer charSigned lastCycle fes d₀ = .ok r₀) :
    (∀ d len msg, loadMessageBuffer charSigned lastCycle fes d = .ok (len, msg) →
        Agrees charSigned lastCycle fes.ready msg) ↔
      CrcInCopy lastCycle fes.ready := by
  have hfit := (loadMessageBuffer_eq_ok.mp hret).1
  have hlen : fes.ready.length ≤ 128 := (List.length_filter_le ..).trans fes.nsys_le
  constructor
  · intro h
    have hmatch : ∀ d, CrcsMatch charSigned (message charSigned lastCycle fes.ready d) := by
      intro d
      have hok := loadMessageBuffer_eq_ok.mpr
        ⟨hfit, Prod.eta (loadAll charSigned lastCycle fes.ready (loadStart d)).finish⟩
      exact (h d _ _ hok).crcsMatch
    exact crcInCopy_of_forall_crcsMatch d₀ hfit hmatch
  · intro h d len msg hok
    obtain ⟨-, hr⟩ := loadMessageBuffer_eq_ok.mp hok
    obtain rfl : msg = message charSigned lastCycle fes.ready d := congrArg Prod.snd hr
    exact agrees_of_crcsMatch hlen hfit (crcsMatch_of_crcInCopy h)

/-- A model that says it has `n` bytes of data, and no test points. -/
def plainFrontEnd (n : UInt32) : FrontEnd where
  ipc := { dcuId := 5, bp := fun _ => { crc := n } }
  tpTable := {}
  data := fun _ => 0
  modelrate := 16384
  dataRdy := true

/-- Memory that was never written to. -/
def emptyMessage : DaqMultiDcuData where
  header := { dcuTotalModels := 0, fullDataBlockSize := 0, dcuheader := fun _ => {} }
  dataBlock := fun _ => 0

theorem fits_plainFrontEnd : Fits 0 [plainFrontEnd 64] ∧ Fits 0 [plainFrontEnd 262145] := by
  simp only [Fits, List.forall_mem_singleton]
  decide

theorem loadMessageBuffer_agrees_64 : ∃ len msg,
    loadMessageBuffer true 0 ⟨[plainFrontEnd 64], by decide⟩ emptyMessage = .ok (len, msg) ∧
      Agrees true 0 [plainFrontEnd 64] msg := by
  have hret : loadMessageBuffer true 0 ⟨[plainFrontEnd 64], by decide⟩ emptyMessage = .ok (_, _) :=
    loadMessageBuffer_eq_ok.mpr ⟨fits_plainFrontEnd.1, Prod.eta _⟩
  refine ⟨_, _, hret, (loadMessageBuffer_agrees_iff true 0 _ hret).mpr ?_ _ _ _ hret⟩
  intro i fe hi
  obtain ⟨rfl, rfl⟩ : i = 0 ∧ fe = plainFrontEnd 64 := by
    cases i with
    | zero => exact ⟨rfl, by simpa [FrontEnds.ready, plainFrontEnd] using hi.symm⟩
    | succ i => simp [FrontEnds.ready, plainFrontEnd] at hi
  decide

/-- The checksum of zeros is that of their number. -/
theorem dataCrc_zero (charSigned : Bool) {mem : ℕ → UInt8} (hmem : ∀ p, mem p = 0) (pos : ℕ)
    (n : UInt32) : dataCrc charSigned mem pos n = ⟨Drv.crcLen n.toBitVec 0⟩ := by
  have hzeros : (bytesAt mem pos n.toNat).map UInt8.toBitVec = List.replicate n.toNat 0 := by
    simp [bytesAt, hmem, List.map_const']
  rw [dataCrc, hzeros, Drv.crcPtr_zeros]

/-- A model whose length is one byte too large: the checksum is over that byte as well. -/
theorem loadMessageBuffer_not_agrees : ∃ len msg,
    loadMessageBuffer true 0 ⟨[plainFrontEnd 262145], by decide⟩ emptyMessage = .ok (len, msg) ∧
      ¬ Agrees true 0 [plainFrontEnd 262145] msg := by
  refine ⟨_, _, loadMessageBuffer_eq_ok.mpr ⟨fits_plainFrontEnd.2, Prod.eta _⟩, fun hagree => ?_⟩
  have hmatch : CrcsMatch true (message true 0 [plainFrontEnd 262145] emptyMessage) :=
    hagree.crcsMatch
  have hcrc := crcsMatch_message_iff.mp hmatch 0 (plainFrontEnd 262145) rfl
  have hmem : ∀ p, crcMem true 0 [plainFrontEnd 262145] emptyMessage 0 p = 0 := by
    intro p
    rw [crcMem_eq rfl]
    exact ite_self 0
  have hmsg : ∀ p, (message true 0 [plainFrontEnd 262145] emptyMessage).dataBlock p = 0 := hmem
  have hsize : (plainFrontEnd 262145).dataBlockSize 0 = 262144 := by decide
  have hlength : (plainFrontEnd 262145).crcLength 0 = 262145 := rfl
  rw [dataCrc_zero true hmem, dataCrc_zero true hmsg, hsize, hlength] at hcrc
  -- the two lengths differ in their first byte, which a step does not forget
  have hlen := congrArg UInt32.toBitVec hcrc
  exact absurd (Drv.crcLen_low_inj (by decide) (by decide) (by decide) hlen) (by decide)

end AdvLigoRts.LocalDc
