import AdvLigoRts.Include.DaqCore
import AdvLigoRts.Lib.ByteMem

/-!
# The daqm shared-memory transport

`DaqMPublisherInstance::publish` of pub_plugin_daq_m.cc writes a message into the slot of its
cycle and then sets `curCycle`; `DaqMSub::sub_loop` of sub_plugin_daq_m.cc reads the slot
that `curCycle` names. A message is raw memory: both sides look at the fields of a
`daq_multi_dcu_header_t` at their offsets in it.

The two sides compute the place of a slot with `unsigned int` arithmetic, so that it is only
known modulo 2^32. Where the last offset does not wrap, the sixteen slots are apart and lie
in the segment, and what one side writes the other side reads.
-/

namespace AdvLigoRts.PubSub

open PvLib

/-- `calculate_cycle_data_size`, with the `std::size_t` difference and its truncation to
`unsigned int`. -/
def calculateCycleDataSize (sizeInMb : ℕ) : ℕ :=
  let size := sizeInMb * 1024 * 1024 % 2 ^ 64
  let cycleDataSize :=
    (size + 2 ^ 64 - sizeofDaqMultiCycleHeader) % 2 ^ 64 / daqNumDataBlocks % 2 ^ 32
  cycleDataSize - cycleDataSize % 8

/-- A `pub_sub::Message`: the memory its data pointer leads to, and its length. -/
structure Message where
  data : ℕ → UInt8
  length : ℕ

namespace Message

def bytes (msg : Message) : List UInt8 := bytesAt msg.data 0 msg.length

def dcuTotalModels (msg : Message) : ℕ := loadU32 msg.data 0

def fullDataBlockSize (msg : Message) : ℕ := loadU32 msg.data 4

def cycle (msg : Message) : ℕ := loadU32 msg.data 20

def timeSec (msg : Message) : ℕ := loadU32 msg.data 24

end Message

/-- The shared `daq_multi_cycle_data_t`, its `dataBlock` as long as the segment is. -/
structure DaqMSegment where
  curCycle : ℕ
  maxCycle : ℕ
  cycleDataSize : ℕ
  dataBlock : ℕ → UInt8

/-- `cycle * cycle_data_size`, an `unsigned int` product. -/
def slotOffset (cycle cycleDataSize : ℕ) : ℕ := cycle * cycleDataSize % 2 ^ 32

/-- The constructor of `DaqMPublisherInstance`, on the segment it opens. -/
def DaqMSegment.openPublisher (sizeInMb : ℕ) (dest : DaqMSegment) : DaqMSegment :=
  { dest with
    maxCycle := daqNumDataBlocks
    cycleDataSize := calculateCycleDataSize sizeInMb }

/-- `DaqMPublisherInstance::publish`; `none` is a message without data. -/
def DaqMSegment.publish (cycleDataSize : ℕ) (dest : DaqMSegment) :
    Option Message → Except String DaqMSegment
  | none => .ok dest
  | some msg =>
    if msg.length > cycleDataSize then .error "Overflow of the daqm memory buffer"
    else if msg.dcuTotalModels < 1 then .ok dest
    else if msg.cycle ≥ daqNumDataBlocks then .error "Invalid cycle number"
    else
      .ok { dest with
        dataBlock := blit dest.dataBlock (slotOffset msg.cycle cycleDataSize) msg.data msg.length
        curCycle := msg.cycle }

/-- The messages that `publish` writes into a slot. -/
def Message.Accepted (cycleDataSize : ℕ) (msg : Message) : Prop :=
  msg.length ≤ cycleDataSize ∧ 1 ≤ msg.dcuTotalModels ∧ msg.cycle < daqNumDataBlocks

instance (cycleDataSize : ℕ) (msg : Message) : Decidable (msg.Accepted cycleDataSize) :=
  inferInstanceAs (Decidable (_ ∧ _))

/-- The segment after a call of `publish`, whether or not it throws. -/
def DaqMSegment.afterPublish (cycleDataSize : ℕ) (dest : DaqMSegment) (msg : Option Message) :
    DaqMSegment :=
  match dest.publish cycleDataSize msg with
  | .ok dest' => dest'
  | .error _ => dest

/-- The segment after a sequence of calls. -/
def DaqMSegment.publishAll (cycleDataSize : ℕ) (dest : DaqMSegment)
    (msgs : List (Option Message)) : DaqMSegment :=
  msgs.foldl (afterPublish cycleDataSize) dest

/-- What `handler_` is called with. -/
structure SubMessage where
  key : ℕ
  message : List UInt8

/-- Where the body of `sub_loop` reads when `waitNextCycle` has returned `curCycle`. -/
def DaqMSegment.readOffset (shmem : DaqMSegment) (curCycle : ℕ) : Option ℕ :=
  if curCycle > daqNumDataBlocks then none
  else some (slotOffset curCycle shmem.cycleDataSize)

/-- The body of `sub_loop` after `waitNextCycle` has returned `curCycle`: the message handed
on, or `none` where the loop continues without one. -/
def DaqMSegment.subLoopBody (shmem : DaqMSegment) (curCycle : ℕ) : Option SubMessage :=
  match shmem.readOffset curCycle with
  | none => none
  | some off =>
    if loadU32 shmem.dataBlock off < 1 then none
    else
      let msgSize := sizeofDaqMultiDcuHeader + loadU32 shmem.dataBlock (off + 4)
      let msgSize := if msgSize > sizeofDaqDcData then sizeofDaqDcData else msgSize
      let dest := bytesAt shmem.dataBlock off msgSize
      some
        { key := loadU32 shmem.dataBlock (off + 24) * 2 ^ 4 ||| curCycle % 16
          message := dest }

/-! ## The slots -/

variable {sizeInMb cds : ℕ}

/-- Offsets that do not wrap are the products themselves. -/
theorem slotOffset_eq {k : ℕ} (hfit : 15 * cds < 2 ^ 32) (hk : k < daqNumDataBlocks) :
    slotOffset k cds = k * cds := by
  have hk15 : k ≤ 15 := Nat.le_of_lt_succ hk
  have hle : k * cds ≤ 15 * cds := Nat.mul_le_mul_right cds hk15
  exact Nat.mod_eq_of_lt (by omega)

/-- Two slots have no byte in common. -/
theorem slots_apart {k l : ℕ} (hfit : 15 * cds < 2 ^ 32) (hk : k < daqNumDataBlocks)
    (hl : l < daqNumDataBlocks) (hne : k ≠ l) :
    slotOffset k cds + cds ≤ slotOffset l cds ∨ slotOffset l cds + cds ≤ slotOffset k cds := by
  rw [slotOffset_eq hfit hk, slotOffset_eq hfit hl, ← Nat.succ_mul, ← Nat.succ_mul]
  rcases Nat.lt_or_gt_of_ne hne with hlt | hgt
  · exact Or.inl (Nat.mul_le_mul_right cds hlt)
  · exact Or.inr (Nat.mul_le_mul_right cds hgt)

theorem slot_in_segment {k : ℕ} (hfit : 15 * calculateCycleDataSize sizeInMb < 2 ^ 32)
    (hk : k < daqNumDataBlocks) :
    sizeofDaqMultiCycleHeader + slotOffset k (calculateCycleDataSize sizeInMb)
      + calculateCycleDataSize sizeInMb ≤ sizeInMb * 1024 * 1024 % 2 ^ 64 := by
  rw [slotOffset_eq hfit hk]
  have hk15 : k ≤ 15 := Nat.le_of_lt_succ hk
  have hle : k * calculateCycleDataSize sizeInMb ≤ 15 * calculateCycleDataSize sizeInMb :=
    Nat.mul_le_mul_right _ hk15
  suffices hall : sizeofDaqMultiCycleHeader + 16 * calculateCycleDataSize sizeInMb
      ≤ sizeInMb * 1024 * 1024 % 2 ^ 64 by omega
  revert hfit
  simp only [calculateCycleDataSize, sizeofDaqMultiCycleHeader, daqNumDataBlocks]
  omega

/-! ## What a call of `publish` does -/

/-- A call of `publish` writes an accepted message into its slot, and nothing otherwise. -/
theorem afterPublish_eq (cds : ℕ) (dest : DaqMSegment) (msg : Option Message) :
    (∃ m, msg = some m ∧ m.Accepted cds ∧ dest.afterPublish cds msg =
      { dest with
        dataBlock := blit dest.dataBlock (slotOffset m.cycle cds) m.data m.length
        curCycle := m.cycle }) ∨
    ((∀ m, msg = some m → ¬ m.Accepted cds) ∧ dest.afterPublish cds msg = dest) := by
  unfold DaqMSegment.afterPublish
  cases msg with
  | none => exact Or.inr ⟨by simp, rfl⟩
  | some m =>
    simp only [DaqMSegment.publish, Message.Accepted, Option.some.injEq, forall_eq',
      exists_eq_left']
    by_cases hlen : m.length > cds
    · right
      simp only [if_pos hlen, and_true]
      omega
    by_cases hmodels : m.dcuTotalModels < 1
    · right
      simp only [if_neg hlen, if_pos hmodels, and_true]
      omega
    by_cases hcycle : m.cycle ≥ daqNumDataBlocks
    · right
      simp only [if_neg hlen, if_neg hmodels, if_pos hcycle, and_true]
      omega
    · left
      simp only [if_neg hlen, if_neg hmodels, if_neg hcycle, and_true]
      omega

/-- The slot of cycle `k` holds the message `msg`. -/
def DaqMSegment.SlotHolds (cds : ℕ) (seg : DaqMSegment) (k : ℕ) (msg : Message) : Prop :=
  ∀ j < msg.length, seg.dataBlock (slotOffset k cds + j) = msg.data j

theorem slotHolds_afterPublish (dest : DaqMSegment) {msg : Message} (hacc : msg.Accepted cds) :
    (dest.afterPublish cds (some msg)).SlotHolds cds msg.cycle msg ∧
      (dest.afterPublish cds (some msg)).curCycle = msg.cycle := by
  rcases afterPublish_eq cds dest (some msg) with ⟨m, hm, -, heq⟩ | ⟨hno, -⟩
  · cases hm
    rw [heq]
    exact ⟨fun j hj => blit_inside hj, rfl⟩
  · exact absurd hacc (hno msg rfl)

/-- A call that does not write this slot leaves its message there. -/
theorem slotHolds_other {dest : DaqMSegment} {msg : Message} {k : ℕ} {other : Option Message}
    (hfit : 15 * cds < 2 ^ 32) (hk : k < daqNumDataBlocks) (hlen : msg.length ≤ cds)
    (hne : ∀ m, other = some m → m.Accepted cds → m.cycle ≠ k)
    (h : dest.SlotHolds cds k msg) : (dest.afterPublish cds other).SlotHolds cds k msg := by
  rcases afterPublish_eq cds dest other with ⟨m, hm, hacc, heq⟩ | ⟨-, heq⟩
  · rw [heq]
    intro j hj
    have happart := slots_apart hfit hk hacc.2.2 (hne m hm hacc).symm
    have hmlen := hacc.1
    show blit dest.dataBlock _ _ _ _ = _
    rw [blit_outside (by omega)]
    exact h j hj
  · rw [heq]
    exact h

theorem slotHolds_publishAll {dest : DaqMSegment} {msg : Message} {k : ℕ}
    {others : List (Option Message)} (hfit : 15 * cds < 2 ^ 32) (hk : k < daqNumDataBlocks)
    (hlen : msg.length ≤ cds)
    (hne : ∀ m, some m ∈ others → m.Accepted cds → m.cycle ≠ k)
    (h : dest.SlotHolds cds k msg) : (dest.publishAll cds others).SlotHolds cds k msg := by
  induction others generalizing dest with
  | nil => exact h
  | cons other rest ih =>
    have hfirst : (dest.afterPublish cds other).SlotHolds cds k msg := by
      apply slotHolds_other hfit hk hlen _ h
      intro m hm
      exact hne m (by simp [hm])
    exact ih (fun m hm => hne m (List.mem_cons_of_mem _ hm)) hfirst

theorem cycleDataSize_afterPublish (dest : DaqMSegment) (msg : Option Message) :
    (dest.afterPublish cds msg).cycleDataSize = dest.cycleDataSize := by
  rcases afterPublish_eq cds dest msg with ⟨m, -, -, heq⟩ | ⟨-, heq⟩
  · rw [heq]
  · rw [heq]

/-- No call changes the stride the subscriber goes by. -/
theorem cycleDataSize_publishAll (dest : DaqMSegment) (msgs : List (Option Message)) :
    (dest.publishAll cds msgs).cycleDataSize = dest.cycleDataSize := by
  induction msgs generalizing dest with
  | nil => rfl
  | cons msg rest ih => exact (ih _).trans (cycleDataSize_afterPublish dest msg)

theorem subLoopBody_eq {seg : DaqMSegment} {msg : Message} (hacc : msg.Accepted cds)
    (hlen : msg.length = sizeofDaqMultiDcuHeader + msg.fullDataBlockSize)
    (hsize : seg.cycleDataSize = cds) (h : seg.SlotHolds cds msg.cycle msg) :
    seg.subLoopBody msg.cycle = some
      { key := msg.timeSec * 2 ^ 4 ||| msg.cycle % 16
        message := msg.bytes.take sizeofDaqDcData } := by
  obtain ⟨-, hmodels, hcycle⟩ := hacc
  have hheader : sizeofDaqMultiDcuHeader = 272392 := rfl
  -- the header fields are in the message, hence in the slot
  have hfield : ∀ f, f + 4 ≤ sizeofDaqMultiDcuHeader →
      loadU32 seg.dataBlock (slotOffset msg.cycle cds + f) = loadU32 msg.data f := by
    intro f hf
    apply loadU32_congr
    intro j hj
    rw [Nat.add_assoc]
    exact h (f + j) (by omega)
  have htotal := hfield 0 (by omega)
  have hfull := hfield 4 (by omega)
  have htime := hfield 24 (by omega)
  rw [Nat.add_zero] at htotal
  have hread : seg.readOffset msg.cycle = some (slotOffset msg.cycle cds) := by
    simp only [DaqMSegment.readOffset, hsize, if_neg (show ¬ msg.cycle > daqNumDataBlocks by omega)]
  have hpos : ¬ loadU32 msg.data 0 < 1 := Nat.not_lt.mpr hmodels
  have hmin : (if sizeofDaqMultiDcuHeader + loadU32 msg.data 4 > sizeofDaqDcData
      then sizeofDaqDcData else sizeofDaqMultiDcuHeader + loadU32 msg.data 4)
      = min sizeofDaqDcData msg.length := by
    rw [hlen]
    unfold Message.fullDataBlockSize
    split <;> omega
  simp only [DaqMSegment.subLoopBody, hread, htotal, hfull, htime, if_neg hpos, hmin]
  refine congrArg some ?_
  simp only [Message.timeSec, Message.bytes, bytesAt_take, SubMessage.mk.injEq, true_and]
  apply bytesAt_congr
  intro j hj
  rw [Nat.zero_add]
  exact h j (by omega)

/-! ## Both sides together -/

/-- What one side writes the other side reads, where the offset of the last slot fits in an
`unsigned int`: an accepted message comes out of its slot as it went in, up to the
`sizeof( daq_dc_data_t )` bytes that a subscriber takes, whatever is published for other cycles
before it is read; and a subscriber that sees any `curCycle` but `DAQ_NUM_DATA_BLOCKS` reads
one of the sixteen slots, which are apart and inside the segment, or none. -/
theorem daqM_round_trip (sizeInMb : ℕ)
    (hfit : 15 * calculateCycleDataSize sizeInMb < 2 ^ 32) (seg : DaqMSegment)
    (hagree : seg.cycleDataSize = calculateCycleDataSize sizeInMb) :
    (∀ msg : Message, msg.Accepted (calculateCycleDataSize sizeInMb) →
      msg.length = sizeofDaqMultiDcuHeader + msg.fullDataBlockSize →
      ∀ later : List (Option Message),
      (∀ m, some m ∈ later → m.Accepted (calculateCycleDataSize sizeInMb) →
        m.cycle ≠ msg.cycle) →
      (seg.afterPublish (calculateCycleDataSize sizeInMb) (some msg)).curCycle = msg.cycle ∧
      ((seg.afterPublish (calculateCycleDataSize sizeInMb) (some msg)).publishAll
          (calculateCycleDataSize sizeInMb) later).subLoopBody msg.cycle = some
        { key := msg.timeSec * 2 ^ 4 ||| msg.cycle % 16
          message := msg.bytes.take sizeofDaqDcData }) ∧
    (∀ curCycle < 2 ^ 32, curCycle ≠ daqNumDataBlocks →
      seg.readOffset curCycle = none ∨
      ∃ k < daqNumDataBlocks,
        seg.readOffset curCycle = some (slotOffset k (calculateCycleDataSize sizeInMb))) ∧
    (∀ k < daqNumDataBlocks,
      sizeofDaqMultiCycleHeader + slotOffset k (calculateCycleDataSize sizeInMb)
          + calculateCycleDataSize sizeInMb ≤ sizeInMb * 1024 * 1024 % 2 ^ 64 ∧
      ∀ l < daqNumDataBlocks, k ≠ l →
        slotOffset k (calculateCycleDataSize sizeInMb) + calculateCycleDataSize sizeInMb
            ≤ slotOffset l (calculateCycleDataSize sizeInMb) ∨
        slotOffset l (calculateCycleDataSize sizeInMb) + calculateCycleDataSize sizeInMb
            ≤ slotOffset k (calculateCycleDataSize sizeInMb)) := by
  refine ⟨?_, ?_, ?_⟩
  · intro msg hacc hlen later hlater
    obtain ⟨hholds, hcur⟩ := slotHolds_afterPublish seg hacc
    refine ⟨hcur, ?_⟩
    apply subLoopBody_eq hacc hlen
    · rw [cycleDataSize_publishAll, cycleDataSize_afterPublish]
      exact hagree
    · exact slotHolds_publishAll hfit hacc.2.2 hacc.1 hlater hholds
  · intro c _ hc
    unfold DaqMSegment.readOffset
    split
    · exact Or.inl rfl
    · exact Or.inr ⟨c, by omega, by rw [hagree]⟩
  · intro k hk
    exact ⟨slot_in_segment hfit hk, fun l hl hne => slots_apart hfit hk hl hne⟩

/-- A message longer than `daq_dc_data_t` is not what the subscriber takes of it. -/
theorem Message.take_bytes_ne (msg : Message) (h : sizeofDaqDcData < msg.length) :
    msg.bytes.take sizeofDaqDcData ≠ msg.bytes := by
  intro heq
  have hlen := congrArg List.length heq
  rw [Message.bytes, List.length_take, length_bytesAt] at hlen
  omega

/-- A message of one model for `cycle`, with a data block of `full` zero bytes. -/
def zeroMessage (cycle full : ℕ) : Message where
  data i :=
    if i = 0 then 1
    else if 4 ≤ i ∧ i < 8 then UInt8.ofNat (full / 256 ^ (i - 4))
    else if i = 20 then UInt8.ofNat cycle
    else 0
  length := sizeofDaqMultiDcuHeader + full

/-- Cycle 3 is read after cycle 4 has been published too, in a buffer of 100 MB. -/
theorem daqM_round_trip_100 :
    ((((⟨0, 0, 0, fun _ => 0⟩ : DaqMSegment).openPublisher 100).afterPublish
        (calculateCycleDataSize 100) (some (zeroMessage 3 1000))).publishAll
        (calculateCycleDataSize 100) [some (zeroMessage 4 0)]).subLoopBody 3
      = some { key := 3, message := (zeroMessage 3 1000).bytes.take sizeofDaqDcData } :=
  ((daqM_round_trip 100 (by decide) ((⟨0, 0, 0, fun _ => 0⟩ : DaqMSegment).openPublisher 100)
    rfl).1 (zeroMessage 3 1000) (by decide) (by decide) [some (zeroMessage 4 0)]
    (by simp only [List.mem_singleton, Option.some.injEq, forall_eq]; decide)).2

/-- The transport does not reproduce every accepted message, and the check of the cycle number lets
one value too many pass. -/
theorem daqM_not_round_trip :
    (let cds := calculateCycleDataSize 101
      let msg := zeroMessage 3 6346736
      msg.Accepted cds ∧ msg.length = sizeofDaqMultiDcuHeader + msg.fullDataBlockSize ∧
      ∃ r, (((⟨0, 0, 0, fun _ => 0⟩ : DaqMSegment).openPublisher 101).afterPublish cds
        (some msg)).subLoopBody msg.cycle = some r ∧ r.message ≠ msg.bytes) ∧
    (∀ k < daqNumDataBlocks,
      ((⟨0, 0, 0, fun _ => 0⟩ : DaqMSegment).openPublisher 100).readOffset 16
        ≠ some (slotOffset k (calculateCycleDataSize 100)) ∧
      ((⟨0, 0, 0, fun _ => 0⟩ : DaqMSegment).openPublisher 100).readOffset 16 ≠ none) ∧
    (let cds := calculateCycleDataSize 8192
      let msg := zeroMessage 1 8
      msg.Accepted cds ∧ msg.length = sizeofDaqMultiDcuHeader + msg.fullDataBlockSize ∧
      (((⟨0, 0, 0, fun _ => 0⟩ : DaqMSegment).openPublisher 8192).publishAll cds
        [some msg, some (zeroMessage 9 8)]).subLoopBody msg.cycle = none) := by
  refine ⟨?_, ?_, ?_⟩
  · have hacc : (zeroMessage 3 6346736).Accepted (calculateCycleDataSize 101) := by decide
    have hlen : (zeroMessage 3 6346736).length
        = sizeofDaqMultiDcuHeader + (zeroMessage 3 6346736).fullDataBlockSize := by decide
    have hlong : sizeofDaqDcData < (zeroMessage 3 6346736).length := by decide
    have hne := Message.take_bytes_ne _ hlong
    refine ⟨hacc, hlen, _, subLoopBody_eq hacc hlen ?_ (slotHolds_afterPublish _ hacc).1, ?_⟩
    · exact cycleDataSize_afterPublish _ _
    · dsimp only
      exact hne
  · decide
  · have hacc : (zeroMessage 1 8).Accepted (calculateCycleDataSize 8192) := by decide
    have hlen : (zeroMessage 1 8).length
        = sizeofDaqMultiDcuHeader + (zeroMessage 1 8).fullDataBlockSize := by decide
    refine ⟨hacc, hlen, ?_⟩
    -- the first word of slot 1 is now a zero word of the message of cycle 9
    unfold DaqMSegment.subLoopBody DaqMSegment.readOffset
    rw [if_neg (by decide)]
    exact if_pos (by decide +kernel)

end AdvLigoRts.PubSub
