import AdvLigoRts.Include.DaqCore
import AdvLigoRts.Lib.Extent
import AdvLigoRts.Lib.Machine

/-!
# The reads of `ShMemReceiver`

`receive_data` of `src/daqd/shmem_receiver.hh` read by read. Each read of shared memory is a step of
its own, which sees the segment as it is at that time; between two reads the other processes may
write any words. A step says which bytes it touches. What is done with the data, and when the stall
is signalled, is left to the model of the whole receiver.
-/

namespace AdvLigoRts.Daqd

open PvLib

/-! ## Places -/

/-- Where `curCycle` lies in the segment. -/
def curCycleOffset : ℕ := 0

/-- Where `maxCycle` lies in the segment. -/
def maxCycleOffset : ℕ := 4

/-- Where `cycleDataSize` lies in the segment. -/
def cycleDataSizeOffset : ℕ := 8

/-- Where `header.dcuTotalModels` lies in a slot. -/
def totalDcusOffset : ℕ := 0

/-- Where `header.fullDataBlockSize` lies in a slot. -/
def fullDataBlockSizeOffset : ℕ := 4

/-- Where `header.dcuheader[ 0 ].timeSec` lies in a slot. -/
def timeSecOffset : ℕ := 4 * 2 + 4 * 4

/-- The words that are read: those of the header, and those of a slot by the offset of the slot in
`dataBlock`. -/
structure ShmemWords where
  curCycle : UInt32
  maxCycle : UInt32
  cycleDataSize : UInt32
  totalDcus : ℕ → UInt32
  fullDataBlockSize : ℕ → UInt32
  timeSec : ℕ → UInt32

/-- What a step does with memory. -/
inductive ShmemAccess
  /-- It reads a word of the header of the segment. -/
  | header (x : Extent)
  /-- It reads bytes of the slot of `cycle`, from `field` on, for slots of `stride` bytes. -/
  | slot (cycle stride : UInt32) (field : ℕ) (x : Extent)
  /-- It copies this number of bytes to `data_`. -/
  | copied (n : ℕ)
  /-- `verify_cycle_state` does not throw. -/
  | verified (cycleDataSize maxCycle : UInt32)
deriving DecidableEq, Repr

/-! ## The steps -/

inductive SlotUse
  /-- `get_gps` of the first cycle. -/
  | first
  /-- `get_total_dcus` in the condition of the poll loop. -/
  | poll (maxCycle : UInt32)
  /-- `get_gps` in the search of `handle_cycle_jumps`. -/
  | jumpGps (prev newCycle maxCycle : UInt32)
  /-- `get_total_dcus` there. -/
  | jumpTotal (newCycle maxCycle : UInt32)
  /-- The copy of the block. -/
  | block
deriving DecidableEq, Repr

/-- The read that comes next, with the local variables that are needed from there on. -/
inductive ReadPc
  /-- `*cycle_ptr` at the start of a call. -/
  | enter
  /-- `*cycle_ptr` behind the lines for the first call. -/
  | current
  /-- `get_max_cycle( )` before the poll loop. -/
  | maxCycle (curCycle : UInt32)
  /-- `*cycle_ptr` behind `wait( )`. -/
  | wait (maxCycle : UInt32)
  /-- `verify_cycle_state` behind it. -/
  | verifyWait (curCycle maxCycle : UInt32)
  /-- `get_max_cycle( )` behind the poll loop. -/
  | maxAgain (curCycle : UInt32)
  /-- `verify_cycle_state` behind it. -/
  | verify (curCycle maxCycle : UInt32)
  /-- `shmem_->header.cycleDataSize`, to find the slot of a cycle. -/
  | stride (cycle : UInt32) (use : SlotUse)
  /-- The slot. -/
  | slot (cycle stride : UInt32) (use : SlotUse)
  /-- `verify_cycle_state` has thrown; the next step is the next call. -/
  | thrown
deriving DecidableEq, Repr

/-- The members `prev_cycle_` and `prev_gps_`, and where `receive_data` is. -/
structure ShmemReader where
  prevCycle : UInt32 := 0xffffffff
  prevGps : UInt32 := 0xffffffff
  pc : ReadPc := .enter
deriving DecidableEq, Repr

/-- `cycle * cycle_stride`, a product of `unsigned int`s. -/
def slotOffset (cycle stride : UInt32) : ℕ := (cycle * stride).toNat

/-- The condition of the poll loop, up to its first read. -/
def pollPc (prevCycle curCycle maxCycle : UInt32) : ReadPc :=
  if curCycle = prevCycle then .wait maxCycle else .stride curCycle (.poll maxCycle)

/-- The condition of the search in `handle_cycle_jumps`. -/
def jumpPc (prev nextCycle newCycle maxCycle : UInt32) : ReadPc :=
  if nextCycle = newCycle then .stride newCycle .block
  else .stride nextCycle (.jumpGps prev newCycle maxCycle)

/-- The test of `verify_cycle_state` that reads nothing. -/
def Nonsensical (curCycle maxCycle : UInt32) : Prop := maxCycle ≤ curCycle ∨ 64 < maxCycle

instance (curCycle maxCycle : UInt32) : Decidable (Nonsensical curCycle maxCycle) := by
  unfold Nonsensical
  infer_instance

/-- The other test, whose product is one of `unsigned int`s. -/
def Overflows (shmemSize : ℕ) (cycleDataSize maxCycle : UInt32) : Prop :=
  shmemSize < (cycleDataSize * maxCycle).toNat + sizeofDaqMultiCycleHeader

instance (shmemSize : ℕ) (cycleDataSize maxCycle : UInt32) :
    Decidable (Overflows shmemSize cycleDataSize maxCycle) := by
  unfold Overflows
  infer_instance

/-- Where the call goes on after the look at a slot; `block` ends the call. -/
def afterSlot (s : ShmemReader) (w : ShmemWords) (cycle : UInt32) (off : ℕ) :
    SlotUse → ShmemReader
  | .first => { s with prevGps := w.timeSec off, pc := .current }
  | .poll maxCycle =>
    { s with pc := if w.totalDcus off = 0 then .wait maxCycle else .maxAgain cycle }
  | .jumpGps prev newCycle maxCycle =>
    let expectedGps := if cycle < prev then s.prevGps + 1 else s.prevGps
    { s with
      pc :=
        if w.timeSec off = expectedGps then .stride cycle (.jumpTotal newCycle maxCycle)
        else jumpPc cycle ((cycle + 1) % maxCycle) newCycle maxCycle }
  | .jumpTotal newCycle maxCycle =>
    { s with
      pc :=
        if w.totalDcus off ≠ 0 then .stride cycle .block
        else jumpPc cycle ((cycle + 1) % maxCycle) newCycle maxCycle }
  | .block => ⟨cycle, w.timeSec off, .enter⟩

namespace ShmemReader

/-- One read, and what is done up to the next one. -/
def step (shmemSize : ℕ) (s : ShmemReader) (w : ShmemWords) : ShmemReader :=
  match s.pc with
  | .enter =>
    if s.prevCycle = 0xffffffff then
      { s with prevCycle := w.curCycle, pc := .stride w.curCycle .first }
    else { s with pc := .maxCycle w.curCycle }
  | .current => { s with pc := .maxCycle w.curCycle }
  | .maxCycle curCycle => { s with pc := pollPc s.prevCycle curCycle w.maxCycle }
  | .wait maxCycle => { s with pc := .verifyWait w.curCycle maxCycle }
  | .verifyWait curCycle maxCycle =>
    if Nonsensical curCycle maxCycle ∨ Overflows shmemSize w.cycleDataSize maxCycle then
      { s with pc := .thrown }
    else { s with pc := pollPc s.prevCycle curCycle maxCycle }
  | .maxAgain curCycle => { s with pc := .verify curCycle w.maxCycle }
  | .verify curCycle maxCycle =>
    if Nonsensical curCycle maxCycle ∨ Overflows shmemSize w.cycleDataSize maxCycle then
      { s with pc := .thrown }
    else
      { s with
        pc := jumpPc s.prevCycle ((s.prevCycle + 1) % maxCycle) curCycle maxCycle }
  | .stride cycle use => { s with pc := .slot cycle w.cycleDataSize use }
  | .slot cycle stride use => afterSlot s w cycle (slotOffset cycle stride) use
  | .thrown => { s with pc := .enter }

end ShmemReader

/-- The receiver and the segment. -/
structure ShmemSystem where
  reader : ShmemReader
  words : ShmemWords

inductive ShmemAct
  /-- The receiver reads. -/
  | read
  /-- Another process leaves these words in the segment. -/
  | write (words : ShmemWords)

def ShmemSystem.step (shmemSize : ℕ) (s : ShmemSystem) : ShmemAct → ShmemSystem
  | .read => { s with reader := s.reader.step shmemSize s.words }
  | .write words => { s with words }

/-! ## What the steps touch -/

/-- A read of `size` bytes of a slot. -/
def slotAccess (cycle stride : UInt32) (field size : ℕ) : ShmemAccess :=
  .slot cycle stride field
    ⟨sizeofDaqMultiCycleHeader + slotOffset cycle stride + field, size⟩

def headerAccess (offset : ℕ) : ShmemAccess := .header ⟨offset, 4⟩

def copySize (fullDataBlockSize : UInt32) : ℕ := sizeofDaqMultiDcuHeader + fullDataBlockSize.toNat

def slotAccesses (w : ShmemWords) (cycle stride : UInt32) : SlotUse → List ShmemAccess
  | .first | .jumpGps _ _ _ => [slotAccess cycle stride timeSecOffset 4]
  | .poll _ | .jumpTotal _ _ => [slotAccess cycle stride totalDcusOffset 4]
  | .block =>
    let size := copySize (w.fullDataBlockSize (slotOffset cycle stride))
    [slotAccess cycle stride fullDataBlockSizeOffset 4, slotAccess cycle stride 0 size,
      .copied size]

/-- `verify_cycle_state`. -/
def verifyAccesses (shmemSize : ℕ) (w : ShmemWords) (curCycle maxCycle : UInt32) :
    List ShmemAccess :=
  if Nonsensical curCycle maxCycle then []
  else if Overflows shmemSize w.cycleDataSize maxCycle then [headerAccess cycleDataSizeOffset]
  else [headerAccess cycleDataSizeOffset, .verified w.cycleDataSize maxCycle]

/-- What a step touches. -/
def ShmemReader.accesses (shmemSize : ℕ) (s : ShmemReader) (w : ShmemWords) : List ShmemAccess :=
  match s.pc with
  | .enter | .current | .wait _ => [headerAccess curCycleOffset]
  | .maxCycle _ | .maxAgain _ => [headerAccess maxCycleOffset]
  | .verifyWait curCycle maxCycle | .verify curCycle maxCycle =>
    verifyAccesses shmemSize w curCycle maxCycle
  | .stride _ _ => [headerAccess cycleDataSizeOffset]
  | .slot cycle stride use => slotAccesses w cycle stride use
  | .thrown => []

end AdvLigoRts.Daqd
