import AdvLigoRts.Lib.Extent
import AdvLigoRts.PubSub.RecvPayloads
import Mathlib.Algebra.Order.BigOperators.Group.List
import Mathlib.Algebra.Order.Ring.Nat

/-!
# The memory that `ingest` touches

The loop of `ingest` tests the end of the slot before it copies a block, and never the end of the
message.
-/

namespace AdvLigoRts.PubSub

open BufferEntry PvLib

/-! ## The copies -/

/-- The copies that the loop of `ingest` makes, each with what it reads of the message and what it
writes of the slot. -/
def blockCopies : List DaqMsgHeader → ℕ → ℕ → ℕ → List (Extent × Extent)
  | [], _, _, _ => []
  | curHeader :: rest, inputData, data, dcuTotalModels =>
    if curHeader.dcuId = 0 then blockCopies rest inputData data dcuTotalModels
    else if dcuTotalModels ≥ daqTransitMaxDcu then []
    else if data + curHeader.blockSize > daqTransitDcDataBlockSize then []
    else (⟨inputData, curHeader.blockSize⟩, ⟨data, curHeader.blockSize⟩) ::
      blockCopies rest (inputData + curHeader.blockSize) (data + curHeader.blockSize)
        (dcuTotalModels + 1)

/-- `std::copy` from the message to the slot. -/
def copyBytes (input : DaqMultiDcuData) (dataBlock : ℕ → UInt8) (c : Extent × Extent) : ℕ → UInt8 :=
  fun j => if c.2.start ≤ j ∧ j < c.2.start + c.1.size then
    input.dataBlock (c.1.start + (j - c.2.start)) else dataBlock j

/-- The copies that `ingest` makes of a message. -/
def BufferEntry.copies (e : BufferEntry) (input : DaqMultiDcuData) : List (Extent × Extent) :=
  if keyOf input < e.latest then []
  else blockCopies input.models 0 (e.opened input).data (e.opened input).count

theorem dataBlock_ingestModels (key : GpsKey) (timestamp : ℤ) (input : DaqMultiDcuData)
    (hs : List DaqMsgHeader) (inputData : ℕ) (e : BufferEntry) :
    (ingestModels key timestamp input hs inputData e).2.ifoData.dataBlock =
      (blockCopies hs inputData e.data e.count).foldl (copyBytes input) e.ifoData.dataBlock := by
  induction hs generalizing inputData e with
  | nil => rfl
  | cons h hs ih =>
    unfold ingestModels blockCopies
    by_cases hid : h.dcuId = 0
    · rw [if_pos hid, if_pos hid]
      exact ih inputData e
    · rw [if_neg hid, if_neg hid]
      by_cases hfull : e.count ≥ daqTransitMaxDcu
      · rw [if_pos (show e.ifoData.header.dcuTotalModels ≥ _ from hfull), if_pos hfull]
        rfl
      · rw [if_neg (show ¬ e.ifoData.header.dcuTotalModels ≥ _ from hfull), if_neg hfull]
        dsimp only
        by_cases hend : e.data + h.blockSize > daqTransitDcDataBlockSize
        · rw [if_pos (show (e.putHeader e.ifoData.header.dcuTotalModels h).data + h.blockSize >
            daqTransitDcDataBlockSize from hend), if_pos hend]
          rfl
        · rw [if_neg (show ¬ (e.putHeader e.ifoData.header.dcuTotalModels h).data + h.blockSize >
            daqTransitDcDataBlockSize from hend), if_neg hend, ih]
          rfl

/-- The copies of a message, one after the other, are what `ingest` does to the data block. -/
theorem dataBlock_ingest (e : BufferEntry) (t : Tracking) (timestamp : ℤ)
    (input : DaqMultiDcuData) :
    (e.ingest t timestamp input).1.ifoData.dataBlock =
      (e.copies input).foldl (copyBytes input) e.ifoData.dataBlock := by
  unfold BufferEntry.copies
  by_cases hkey : keyOf input < e.latest
  · unfold BufferEntry.ingest
    rw [if_neg (not_lt.mpr hkey.le), if_pos hkey, if_pos hkey]
    rfl
  · obtain ⟨e₀, r, hifo₀, hdata₀, rfl, hifo, -⟩ := ingest_of_not_older t timestamp hkey
    have hopened : (e.opened input).ifoData.dataBlock = e.ifoData.dataBlock := by
      unfold BufferEntry.opened
      split
      · rfl
      · rfl
    have hcount : e₀.count = (e.opened input).count := by
      rw [BufferEntry.count, hifo₀]
      rfl
    rw [if_neg hkey, hifo, dataBlock_ingestModels, hifo₀, hdata₀, hcount, hopened]

/-! ## What they read and write -/

/-- The bytes of some headers, added up without wrapping. -/
def exactSize (hs : List DaqMsgHeader) : ℕ :=
  (hs.map fun h => h.dataBlockSize.toNat + h.tpBlockSize.toNat).sum

variable {hs : List DaqMsgHeader}

theorem within_slot_of_mem_blockCopies {inputData data n : ℕ} {c : Extent × Extent}
    (hc : c ∈ blockCopies hs inputData data n) : c.2.Within daqTransitDcDataBlockSize := by
  induction hs generalizing inputData data n with
  | nil => cases hc
  | cons h hs ih =>
    unfold blockCopies at hc
    split at hc
    · exact ih hc
    · split at hc
      · cases hc
      · split at hc
        · cases hc
        · rename_i hend
          rcases List.mem_cons.mp hc with rfl | hc
          · apply Extent.within_of_le
            exact not_lt.mp hend
          · exact ih hc

/-- The loop reads `n` bytes in all where it has room for models of `n` bytes. -/
theorem blockCopies_within_iff {inputData data n limit : ℕ} :
    (∀ c ∈ blockCopies hs inputData data n, c.1.Within limit) ↔
      ∀ m ≤ (storable hs).length, n + m ≤ daqTransitMaxDcu →
        data + totalSize ((storable hs).take m) ≤ daqTransitDcDataBlockSize →
        totalSize ((storable hs).take m) = 0 ∨
          inputData + totalSize ((storable hs).take m) ≤ limit := by
  have hzero : totalSize [] = 0 := rfl
  induction hs generalizing inputData data n with
  | nil =>
    have hnil : storable [] = [] := rfl
    simp [blockCopies, hnil, hzero]
  | cons h hs ih =>
    unfold blockCopies
    by_cases hid : h.dcuId = 0
    · have hskip : storable (h :: hs) = storable hs := by simp [storable, hid]
      rw [if_pos hid, hskip]
      exact ih
    · have hkeep : storable (h :: hs) = h :: storable hs := by simp [storable, hid]
      have hsize : ∀ l, totalSize (h :: l) = h.blockSize + totalSize l := totalSize_append [h]
      rw [if_neg hid, hkeep]
      by_cases hfull : n ≥ daqTransitMaxDcu
      · rw [if_pos hfull]
        refine ⟨fun _ m _ hcount _ => ?_, fun _ c hc => by cases hc⟩
        obtain rfl : m = 0 := by omega
        exact .inl hzero
      · rw [if_neg hfull]
        by_cases hend : data + h.blockSize > daqTransitDcDataBlockSize
        · rw [if_pos hend]
          refine ⟨fun _ m _ _ hroom => ?_, fun _ c hc => by cases hc⟩
          cases m with
          | zero => exact .inl hzero
          | succ m =>
            rw [List.take_succ_cons, hsize] at hroom
            omega
        · have htail : (∀ c ∈ blockCopies hs (inputData + h.blockSize) (data + h.blockSize) (n + 1),
              c.1.Within limit) ↔ _ := ih
          rw [if_neg hend, List.forall_mem_cons, htail, Extent.within_iff]
          dsimp only
          constructor
          · rintro ⟨hone, hrest⟩ m hm hcount hroom
            cases m with
            | zero => exact .inl hzero
            | succ m =>
              rw [List.take_succ_cons, hsize] at hroom ⊢
              have htail := hrest m (Nat.le_of_succ_le_succ hm) (by omega) (by omega)
              omega
          · intro hall
            refine ⟨?_, fun m hm hcount hroom => ?_⟩
            · have hfirst : totalSize ((h :: storable hs).take 1) = h.blockSize := hsize []
              have hone := hall 1 (by simp) (by omega) (by omega)
              rwa [hfirst] at hone
            · have hmore := hall (m + 1) (Nat.succ_le_succ hm) (by omega) (by
                rw [List.take_succ_cons, hsize]
                omega)
              rw [List.take_succ_cons, hsize] at hmore
              omega

/-! ## One message -/

/-- The write pointer stands behind the blocks of the stored models, and so says the header. -/
structure BufferEntry.Exact (e : BufferEntry) : Prop where
  header_eq : e.data = e.ifoData.header.fullDataBlockSize
  models_eq : e.data = exactSize e.ifoData.models

/-- Every byte that `ingest` reads is one of the message, and every byte it writes one of the
slot. -/
def BufferEntry.InBounds (e : BufferEntry) (input : DaqMultiDcuData) : Prop :=
  ∀ c ∈ e.copies input,
    c.1.Within daqTransitFeDataBlockSize ∧ c.2.Within daqTransitDcDataBlockSize

/-- As many models as the slot has room for have no more bytes than a message. -/
def BufferEntry.RoomForMessage (e : BufferEntry) (input : DaqMultiDcuData) : Prop :=
  ¬ keyOf input < e.latest → ∀ m ≤ (storable input.models).length,
    (e.opened input).count + m ≤ daqTransitMaxDcu →
    (e.opened input).data + totalSize ((storable input.models).take m) ≤
      daqTransitDcDataBlockSize →
    exactSize ((storable input.models).take m) ≤ daqTransitFeDataBlockSize

theorem exactSize_append (as bs : List DaqMsgHeader) :
    exactSize (as ++ bs) = exactSize as + exactSize bs := by
  rw [exactSize, List.map_append, List.sum_append]
  rfl

theorem blockSize_eq (h : DaqMsgHeader) :
    h.blockSize = (h.dataBlockSize.toNat + h.tpBlockSize.toNat) % 2 ^ 32 :=
  UInt32.toNat_add ..

theorem totalSize_le_exactSize (hs : List DaqMsgHeader) : totalSize hs ≤ exactSize hs := by
  apply List.sum_le_sum
  intro h _
  rw [blockSize_eq]
  exact Nat.mod_le _ _

/-- Where one of the sums wraps, they are less in all. -/
theorem totalSize_take_eq (h : totalSize hs = exactSize hs) (m : ℕ) :
    totalSize (hs.take m) = exactSize (hs.take m) := by
  have hsplit := List.take_append_drop m hs
  have htotal := totalSize_append (hs.take m) (hs.drop m)
  have hexact := exactSize_append (hs.take m) (hs.drop m)
  rw [hsplit] at htotal hexact
  have hfront := totalSize_le_exactSize (hs.take m)
  have hback := totalSize_le_exactSize (hs.drop m)
  omega

theorem totalSize_eq_of_lt (h : exactSize hs < 2 ^ 32) : totalSize hs = exactSize hs := by
  apply congrArg List.sum
  apply List.map_congr_left
  intro a ha
  rw [blockSize_eq, Nat.mod_eq_of_lt]
  apply Nat.lt_of_le_of_lt _ h
  exact List.single_le_sum (fun x _ => Nat.zero_le x) _ (List.mem_map_of_mem ha)

/-- The header and the write pointer move together, and do not wrap before the slot is full. -/
theorem fullDataBlockSize_ingestModels (key : GpsKey) (timestamp : ℤ) (input : DaqMultiDcuData)
    (hs : List DaqMsgHeader) (inputData : ℕ) {e : BufferEntry}
    (heq : e.data = e.ifoData.header.fullDataBlockSize) :
    let r := (ingestModels key timestamp input hs inputData e).2
    r.data = r.ifoData.header.fullDataBlockSize := by
  induction hs generalizing inputData e with
  | nil => exact heq
  | cons h hs ih =>
    unfold ingestModels
    split
    · exact ih inputData heq
    · split
      · exact heq
      · dsimp only
        split
        · exact heq
        · rename_i hend
          apply ih
          show e.data + h.blockSize = (e.ifoData.header.fullDataBlockSize + h.blockSize) % 2 ^ 32
          rw [← heq, Nat.mod_eq_of_lt]
          exact Nat.lt_of_le_of_lt (not_lt.mp hend) (by decide)

theorem BufferEntry.Exact.opened {e : BufferEntry} (h : e.Exact) (input : DaqMultiDcuData) :
    (e.opened input).Exact := by
  unfold BufferEntry.opened
  split
  · exact ⟨rfl, rfl⟩
  · exact h

section Copied

variable {input : DaqMultiDcuData} {e r : BufferEntry} {m n : ℕ}

theorem Copied.room (h : Copied input input.models 0 e r m) (hcount : e.count ≤ daqTransitMaxDcu)
    (hdata : e.data ≤ daqTransitDcDataBlockSize) :
    m ≤ (storable input.models).length ∧ e.count + m ≤ daqTransitMaxDcu ∧
      e.data + totalSize ((storable input.models).take m) ≤ daqTransitDcDataBlockSize := by
  cases m with
  | zero => exact ⟨Nat.zero_le _, hcount, hdata⟩
  | succ m =>
    obtain ⟨hlen, hfree, hsize⟩ := (h.lt_iff m).mp (Nat.lt_succ_self m)
    exact ⟨hlen, hfree, hsize⟩

theorem Copied.le_of_room (h : Copied input input.models 0 e r m)
    (hlen : n ≤ (storable input.models).length) (hcount : e.count + n ≤ daqTransitMaxDcu)
    (hdata : e.data + totalSize ((storable input.models).take n) ≤ daqTransitDcDataBlockSize) :
    n ≤ m := by
  cases n with
  | zero => exact Nat.zero_le m
  | succ n => exact (h.lt_iff n).mpr ⟨hlen, hcount, hdata⟩

/-- The models that are copied have fewer bytes than a message exactly if all that is read is in
the message and no sum of sizes wraps. -/
theorem Copied.bounds_iff (h : Copied input input.models 0 e r m)
    (hcount : e.count ≤ daqTransitMaxDcu) (hdata : e.data ≤ daqTransitDcDataBlockSize) :
    ((∀ c ∈ blockCopies input.models 0 e.data e.count, c.1.Within daqTransitFeDataBlockSize) ∧
      totalSize ((storable input.models).take m) = exactSize ((storable input.models).take m)) ↔
    ∀ n ≤ (storable input.models).length, e.count + n ≤ daqTransitMaxDcu →
      e.data + totalSize ((storable input.models).take n) ≤ daqTransitDcDataBlockSize →
      exactSize ((storable input.models).take n) ≤ daqTransitFeDataBlockSize := by
  obtain ⟨hlen, hfree, hsize⟩ := h.room hcount hdata
  rw [blockCopies_within_iff]
  constructor
  · intro ⟨hread, hexact⟩ n hn hcn hdn
    have hpre := totalSize_take_eq hexact n
    rw [List.take_take, Nat.min_eq_left (h.le_of_room hn hcn hdn)] at hpre
    have hbytes := hread n hn hcn hdn
    rw [hpre, Nat.zero_add] at hbytes
    omega
  · intro hall
    refine ⟨fun n hn hcn hdn => ?_, ?_⟩
    · right
      rw [Nat.zero_add]
      exact (totalSize_le_exactSize _).trans (hall n hn hcn hdn)
    · apply totalSize_eq_of_lt
      exact Nat.lt_of_le_of_lt (hall m hlen hfree hsize) (by decide)

end Copied

/-- A slot with no more in it than it has room for. -/
structure BufferEntry.Fits (e : BufferEntry) : Prop where
  count_le : e.count ≤ daqTransitMaxDcu
  data_le : e.data ≤ daqTransitDcDataBlockSize

theorem BufferEntry.Fits.opened {e : BufferEntry} (h : e.Fits) (input : DaqMultiDcuData) :
    (e.opened input).Fits := by
  unfold BufferEntry.opened
  split
  · exact ⟨Nat.zero_le _, Nat.zero_le _⟩
  · exact h

theorem ingest_of_older {e : BufferEntry} (t : Tracking) (timestamp : ℤ) {input : DaqMultiDcuData}
    (hkey : keyOf input < e.latest) :
    e.ingest t timestamp input = (e, { t with discards := t.discards + 1 }) := by
  unfold BufferEntry.ingest
  rw [if_neg (not_lt.mpr hkey.le), if_pos hkey]

theorem BufferEntry.Fits.ingest {e : BufferEntry} (h : e.Fits) (t : Tracking) (timestamp : ℤ)
    (input : DaqMultiDcuData) : (e.ingest t timestamp input).1.Fits := by
  by_cases hkey : keyOf input < e.latest
  · rw [ingest_of_older t timestamp hkey]
    exact h
  · obtain ⟨m, hcopied⟩ := exists_copied_ingest t timestamp hkey
    have hopened := h.opened input
    obtain ⟨-, hcount, hdata⟩ := hcopied.room hopened.count_le hopened.data_le
    refine ⟨?_, ?_⟩
    · rw [hcopied.count_eq]
      exact hcount
    · rw [hcopied.data_eq]
      exact hdata

theorem BufferEntry.Exact.header_ingest {e : BufferEntry} (h : e.Exact) (t : Tracking)
    (timestamp : ℤ) (input : DaqMultiDcuData) :
    (e.ingest t timestamp input).1.data =
      (e.ingest t timestamp input).1.ifoData.header.fullDataBlockSize := by
  by_cases hkey : keyOf input < e.latest
  · rw [ingest_of_older t timestamp hkey]
    exact h.header_eq
  · obtain ⟨e₀, r, hifo₀, hdata₀, rfl, hifo, hdata⟩ := ingest_of_not_older t timestamp hkey
    rw [hifo, hdata]
    apply fullDataBlockSize_ingestModels
    rw [hifo₀, hdata₀]
    exact (h.opened input).header_eq

theorem BufferEntry.Exact.ingest_iff {e : BufferEntry} (h : e.Exact) (hfits : e.Fits)
    (t : Tracking) (timestamp : ℤ) (input : DaqMultiDcuData) :
    (e.InBounds input ∧ (e.ingest t timestamp input).1.Exact) ↔ e.RoomForMessage input := by
  unfold BufferEntry.InBounds BufferEntry.RoomForMessage BufferEntry.copies
  by_cases hkey : keyOf input < e.latest
  · rw [if_pos hkey, ingest_of_older t timestamp hkey]
    exact ⟨fun _ hnot => absurd hkey hnot, fun _ => ⟨fun c hc => absurd hc List.not_mem_nil, h⟩⟩
  · obtain ⟨m, hcopied⟩ := exists_copied_ingest t timestamp hkey
    have hopened := h.opened input
    have hroom := hfits.opened input
    have hexact : (e.ingest t timestamp input).1.Exact ↔
        totalSize ((storable input.models).take m) =
          exactSize ((storable input.models).take m) := by
      have hbefore := hopened.models_eq
      have hdata := hcopied.data_eq
      have hmodels : exactSize (e.ingest t timestamp input).1.ifoData.models = _ :=
        congrArg exactSize hcopied.models_eq
      rw [exactSize_append] at hmodels
      refine ⟨fun hafter => ?_, fun heq => ⟨h.header_ingest t timestamp input, ?_⟩⟩
      · have hsum := hafter.models_eq
        omega
      · omega
    have hreads : (∀ c ∈ blockCopies input.models 0 (e.opened input).data (e.opened input).count,
        c.1.Within daqTransitFeDataBlockSize ∧ c.2.Within daqTransitDcDataBlockSize) ↔
        ∀ c ∈ blockCopies input.models 0 (e.opened input).data (e.opened input).count,
          c.1.Within daqTransitFeDataBlockSize :=
      forall₂_congr fun c hc => and_iff_left (within_slot_of_mem_blockCopies hc)
    rw [if_neg hkey, hreads, hexact, hcopied.bounds_iff hroom.count_le hroom.data_le]
    exact ⟨fun hall _ => hall, fun hall => hall hkey⟩

/-! ## Every run -/

/-- The copies of the operation are in bounds. -/
def ReceiveBuffer.InBounds (N : ℕ) (r : ReceiveBuffer) : RecvAction → Prop
  | .ingest _ input => malformed input = false → (r.buffer (slotOf N input)).InBounds input
  | .processSliceAt _ => True

def ReceiveBuffer.RoomForMessage (N : ℕ) (r : ReceiveBuffer) : RecvAction → Prop
  | .ingest _ input => malformed input = false → (r.buffer (slotOf N input)).RoomForMessage input
  | .processSliceAt _ => True

/-- What holds of every slot and is kept by `ingest` and `process_if` on one slot is kept by the
operations on the buffer. -/
theorem ReceiveBuffer.exec_buffer {N : ℕ} {r : ReceiveBuffer} {P : BufferEntry → Prop}
    (h : ∀ j, P (r.buffer j)) {a : RecvAction}
    (hingest : ∀ timestamp input, a = .ingest timestamp input → malformed input = false →
      P ((r.buffer (slotOf N input)).ingest r.tracking timestamp input).1)
    (hlate : ∀ e : BufferEntry, P e → P { e with isLate := true }) (j : ℕ) :
    P ((r.exec N a).buffer j) := by
  cases a with
  | ingest timestamp input =>
    unfold ReceiveBuffer.exec ReceiveBuffer.ingest
    dsimp only
    cases hmal : malformed input with
    | true =>
      rw [if_pos rfl]
      exact h j
    | false =>
      rw [if_neg Bool.false_ne_true]
      by_cases hj : j = slotOf N input
      · subst hj
        simp only [Function.update_self]
        exact hingest timestamp input rfl hmal
      · simp only [Function.update_of_ne hj]
        exact h j
  | processSliceAt processKey =>
    have hprocess : ∀ e : BufferEntry, P e → P (e.processIf processKey).2 := by
      intro e he
      unfold BufferEntry.processIf
      split
      · exact he
      · exact hlate e he
    unfold ReceiveBuffer.exec ReceiveBuffer.processSliceAt
    dsimp only
    by_cases hj : j = cycleToIndex N processKey.cycle
    · subst hj
      rw [Function.update_self]
      exact hprocess _ (h _)
    · rw [Function.update_of_ne hj]
      exact h j

theorem fits_exec {N : ℕ} {r : ReceiveBuffer} (h : ∀ j, (r.buffer j).Fits) (a : RecvAction)
    (j : ℕ) : ((r.exec N a).buffer j).Fits :=
  ReceiveBuffer.exec_buffer h (fun _ _ _ _ => (h _).ingest _ _ _)
    (fun _ he => ⟨he.count_le, he.data_le⟩) j

theorem exec_in_bounds_iff {N : ℕ} {r : ReceiveBuffer}
    (h : ∀ j, (r.buffer j).Exact ∧ (r.buffer j).Fits) (a : RecvAction) :
    (r.InBounds N a ∧ ∀ j, ((r.exec N a).buffer j).Exact) ↔ r.RoomForMessage N a := by
  have hlate : ∀ e : BufferEntry, e.Exact → BufferEntry.Exact { e with isLate := true } :=
    fun _ he => ⟨he.header_eq, he.models_eq⟩
  cases a with
  | processSliceAt processKey =>
    refine ⟨fun _ => trivial, fun _ => ⟨trivial, ?_⟩⟩
    exact ReceiveBuffer.exec_buffer (fun j => (h j).1) (fun _ _ ha => nomatch ha) hlate
  | ingest timestamp input =>
    obtain ⟨hexact, hfits⟩ := h (ReceiveBuffer.slotOf N input)
    have hone := fun t => hexact.ingest_iff hfits t timestamp input
    constructor
    · intro ⟨hbounds, hall⟩ hmal
      apply (hone r.tracking).mp
      refine ⟨hbounds hmal, ?_⟩
      have hslot := hall (ReceiveBuffer.slotOf N input)
      unfold ReceiveBuffer.exec ReceiveBuffer.ingest at hslot
      dsimp only at hslot
      rw [hmal, if_neg Bool.false_ne_true] at hslot
      simp only [Function.update_self] at hslot
      exact hslot
    · intro hroom
      refine ⟨fun hmal => ((hone r.tracking).mpr (hroom hmal)).1, ?_⟩
      apply ReceiveBuffer.exec_buffer (fun j => (h j).1) _ hlate
      intro timestamp' input' ha hmal
      cases ha
      exact ((hone r.tracking).mpr (hroom hmal)).2

/-- In a run, all copies are in bounds and all sizes exact exactly if no message has more bytes than
its block, among the models that its slot has room for. -/
theorem ingest_in_bounds_iff (N : ℕ) (as : List RecvAction) :
    StepsMeet (ReceiveBuffer.exec N)
        (fun r a => r.InBounds N a ∧ ∀ j, ((r.exec N a).buffer j).Exact) .start as ↔
      StepsMeet (ReceiveBuffer.exec N) (ReceiveBuffer.RoomForMessage N) .start as := by
  apply stepsMeet_iff fun r => ∀ j, (r.buffer j).Exact ∧ (r.buffer j).Fits
  · intro r a h
    exact exec_in_bounds_iff h a
  · intro r a h hroom j
    exact ⟨((exec_in_bounds_iff h a).mpr hroom).2 j, fits_exec (fun j => (h j).2) a j⟩
  · intro j
    exact ⟨⟨rfl, rfl⟩, ⟨Nat.zero_le _, Nat.zero_le _⟩⟩

/-- One model that says it has twice the bytes of a message. -/
def twoMessages : DaqMultiDcuData where
  header :=
    { dcuTotalModels := 1
      fullDataBlockSize := 0x200000
      dcuheader := fun _ => { dcuId := 5, timeSec := 10, dataBlockSize := 0x200000 } }
  dataBlock := fun _ => 0

/-- `ingest` reads the bytes behind the message. -/
theorem twoMessages_read_behind : ¬ StepsMeet (ReceiveBuffer.exec 16)
    (fun r a => r.InBounds 16 a ∧ ∀ j, ((r.exec 16 a).buffer j).Exact) .start
    [.ingest 0 twoMessages] := by
  intro h
  have hread := h.1.1 (by decide +kernel) (⟨0, 0x200000⟩, ⟨0, 0x200000⟩) (by decide +kernel)
  exact absurd hread.1 (by decide +kernel)

end AdvLigoRts.PubSub
