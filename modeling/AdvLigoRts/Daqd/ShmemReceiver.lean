import AdvLigoRts.Include.DaqCore
import AdvLigoRts.Lib.Lap
import AdvLigoRts.Lib.Machine

/-!
# `ShMemReceiver`: the model

`daqd`'s reader of the shared segment of `src/daqd/shmem_receiver.hh`, with the writer that
fills the segment. The two run concurrently: a step of the receiver is what `receive_data`
does between two of its reads of shared memory that a writer can come between, so each turn
of the poll loop and each turn of the search in `handle_cycle_jumps` is a step of its own.
-/

namespace AdvLigoRts.Daqd

open PvLib

/-! ## The shared segment -/

/-- The part of `daq_multi_cycle_header_t` that says how the segment is laid out, with the size that
the receiver mapped. -/
structure CycleLayout where
  maxCycle : ℕ
  cycleDataSize : ℕ
  shmemSize : ℕ
  maxCycle_pos : 0 < maxCycle
  maxCycle_lt : maxCycle < 2 ^ 32

/-- `daq_multi_cycle_data_t`. `slot c` is what lies at `c * cycleDataSize` in `dataBlock`. -/
structure CycleData where
  curCycle : ℕ
  slot : ℕ → DaqMultiDcuData

namespace CycleData

def getGps (shmem : CycleData) (cycle : ℕ) : UInt32 :=
  ((shmem.slot cycle).header.dcuheader 0).timeSec

def getTotalDcus (shmem : CycleData) (cycle : ℕ) : ℕ :=
  (shmem.slot cycle).header.dcuTotalModels

end CycleData

/-- The exceptions of `verify_cycle_state`. -/
inductive ShmemError where
  | nonsensical
  | overflow (cycleDataSize maxCycle headerSize shmemSize : ℕ)
deriving DecidableEq, Repr

/-- `sizeof( daq_multi_cycle_header_t )`, four `unsigned int`s. -/
def cycleHeaderSize : ℕ := 16

/-- `verify_cycle_state`. The product is one of `unsigned int`s, the sum a `size_t`. -/
def verifyCycleState (seg : CycleLayout) (curCycle : ℕ) : Except ShmemError Unit :=
  if seg.maxCycle ≤ curCycle ∨ 64 < seg.maxCycle then .error .nonsensical
  else if seg.shmemSize < seg.cycleDataSize * seg.maxCycle % 2 ^ 32 + cycleHeaderSize then
    .error (.overflow seg.cycleDataSize seg.maxCycle cycleHeaderSize seg.shmemSize)
  else .ok ()

/-! ## The receiver -/

/-- The value of `prev_cycle_` before the first call. -/
def noCycle : ℕ := 0xffffffff

/-- `ShMemReceiver`. -/
structure ShMemReceiver where
  prevCycle : ℕ := noCycle
  prevGps : UInt32 := 0xffffffff
  data : DaqMultiDcuData

/-- How one turn of the search in `handle_cycle_jumps` ends: with a `return`, or with new
values of `prev` and `next_cycle`. -/
inductive JumpTurn where
  | take (cycle : ℕ)
  | goOn (prev nextCycle : ℕ)
deriving DecidableEq, Repr

/-- One turn of the `while` loop in `handle_cycle_jumps`. -/
def jumpTurn (seg : CycleLayout) (shmem : CycleData) (prevGps : UInt32)
    (newCycle prev nextCycle : ℕ) : JumpTurn :=
  if nextCycle = newCycle then .take newCycle
  else
    -- `prev_gps_` is not advanced with `prev`, whatever the search has passed
    let expectedGps := if nextCycle < prev then prevGps + 1 else prevGps
    if shmem.getGps nextCycle = expectedGps ∧ shmem.getTotalDcus nextCycle ≠ 0 then
      .take nextCycle
    else .goOn nextCycle ((nextCycle + 1) % seg.maxCycle)

/-- The `while` loop in `handle_cycle_jumps`, when nothing is written meanwhile. -/
def jumpLoop (seg : CycleLayout) (shmem : CycleData) (prevGps : UInt32) (newCycle : ℕ) :
    ℕ → ℕ → ℕ → Option ℕ
  | 0, _, _ => none
  | fuel + 1, prev, nextCycle =>
    match jumpTurn seg shmem prevGps newCycle prev nextCycle with
    | .take cycle => some cycle
    | .goOn prev nextCycle => jumpLoop seg shmem prevGps newCycle fuel prev nextCycle

/-- `handle_cycle_jumps`, when nothing is written meanwhile. -/
def handleCycleJumps (seg : CycleLayout) (shmem : CycleData) (rx : ShMemReceiver)
    (newCycle fuel : ℕ) : Option ℕ :=
  let nextCycle := (rx.prevCycle + 1) % seg.maxCycle
  if newCycle = nextCycle then some newCycle
  else jumpLoop seg shmem rx.prevGps newCycle fuel rx.prevCycle nextCycle

/-- Where the receiver is: the local variables of `receive_data` and `handle_cycle_jumps`. -/
inductive RecvPc where
  /-- At the start of `receive_data`. -/
  | enter
  /-- At the condition of the poll loop. -/
  | poll (curCycle spinCount : ℕ)
  /-- In `wait( )`. -/
  | wait (spinCount : ℕ)
  /-- At the condition of the search in `handle_cycle_jumps`. -/
  | search (prev nextCycle newCycle : ℕ)
  /-- About to copy the block of a cycle. -/
  | copy (curCycle : ℕ)
  /-- Left by an exception. -/
  | thrown (e : ShmemError)
deriving DecidableEq, Repr

/-- What a step shows. -/
inductive RecvEvent where
  | quiet
  /-- `signal_stalled_( )`. -/
  | stalled
  | threw (e : ShmemError)
  /-- `receive_data` returned its buffer, which held this. -/
  | returned (data : DaqMultiDcuData)

namespace ShMemReceiver

/-- Copying the header of a block and the `fullDataBlockSize` bytes behind it over `data_`. -/
def copyBlock (rx : ShMemReceiver) (block : DaqMultiDcuData) : DaqMultiDcuData where
  header := block.header
  dataBlock := fun i =>
    if i < block.header.fullDataBlockSize then block.dataBlock i else rx.data.dataBlock i

/-- The first lines of `handle_cycle_jumps`, up to the search. -/
def enterJumps (rx : ShMemReceiver) (seg : CycleLayout) (newCycle : ℕ) : RecvPc :=
  let nextCycle := (rx.prevCycle + 1) % seg.maxCycle
  if newCycle = nextCycle then .copy newCycle else .search rx.prevCycle nextCycle newCycle

/-- One step of `receive_data`. -/
def step (rx : ShMemReceiver) (seg : CycleLayout) (shmem : CycleData) :
    RecvPc → Option (RecvEvent × RecvPc × ShMemReceiver)
  | .enter =>
    if rx.prevCycle = noCycle then
      -- the first call takes the current cycle as the previous one
      some (.quiet, .enter,
        { rx with prevCycle := shmem.curCycle, prevGps := shmem.getGps shmem.curCycle })
    else some (.quiet, .poll shmem.curCycle 0, rx)
  | .poll curCycle spinCount =>
    if curCycle = rx.prevCycle ∨ shmem.getTotalDcus curCycle = 0 then
      some (.quiet, .wait spinCount, rx)
    else
      match verifyCycleState seg curCycle with
      | .error e => some (.threw e, .thrown e, rx)
      | .ok () => some (.quiet, rx.enterJumps seg curCycle, rx)
  | .wait spinCount =>
    match verifyCycleState seg shmem.curCycle with
    | .error e => some (.threw e, .thrown e, rx)
    | .ok () =>
      -- the stall is signalled once in a call, however long it waits
      some (if spinCount + 1 = 2000 then .stalled else .quiet,
        .poll shmem.curCycle (spinCount + 1), rx)
  | .search prev nextCycle newCycle =>
    match jumpTurn seg shmem rx.prevGps newCycle prev nextCycle with
    | .take cycle => some (.quiet, .copy cycle, rx)
    | .goOn prev nextCycle => some (.quiet, .search prev nextCycle newCycle, rx)
  | .copy curCycle =>
    let data := rx.copyBlock (shmem.slot curCycle)
    some (.returned data, .enter, ⟨curCycle, (data.header.dcuheader 0).timeSec, data⟩)
  | .thrown _ => none

end ShMemReceiver

/-! ## The writer -/

/-- A writer numbers its cycles through: cycle `n` goes to slot `n % maxCycle` and is stamped
with the second `gps + n / maxCycle`. -/
structure CycleWriter (seg : CycleLayout) where
  gps : ℕ
  block : ℕ → DaqMultiDcuData
  stamped : ∀ n, ((block n).header.dcuheader 0).timeSec = UInt32.ofNat (gps + n / seg.maxCycle)

/-- Whether a cycle has data of any model. -/
def CycleWriter.nonEmpty {seg : CycleLayout} (w : CycleWriter seg) (n : ℕ) : Bool :=
  (w.block n).header.dcuTotalModels != 0

/-! ## Both together -/

/-- The segment, how far the writer is, and the receiver. -/
structure ShmemSys where
  shmem : CycleData
  written : ℕ
  published : ℕ
  rx : ShMemReceiver
  pc : RecvPc
  start : ℕ
  pos : ℕ

/-- A step of the writer or of the receiver. -/
inductive ShmemAction where
  /-- The writer fills the slot of its next cycle. -/
  | write
  /-- The writer sets `curCycle` to the cycle it has filled. -/
  | publish
  /-- The receiver does its next step. -/
  | receive
deriving DecidableEq, Repr

namespace ShmemSys

variable {seg : CycleLayout}

/-- A new receiver and a writer that has published cycle `n`. -/
def begin (w : CycleWriter seg) (n : ℕ) (slot : ℕ → DaqMultiDcuData) (data : DaqMultiDcuData) :
    ShmemSys where
  shmem := ⟨n % seg.maxCycle, Function.update slot (n % seg.maxCycle) (w.block n)⟩
  written := n
  published := n
  rx := { data }
  pc := .enter
  start := n
  pos := n

def Started (s : ShmemSys) : Prop := s.rx.prevCycle ≠ noCycle

instance (s : ShmemSys) : Decidable s.Started := by
  unfold Started
  infer_instance

/-- The values of `start` and `pos` after the receiver's next step: it starts at the cycle
that is current, and then stands at the cycle that last filled the slot it copies. -/
def track (seg : CycleLayout) (s : ShmemSys) : ℕ × ℕ :=
  if s.Started then
    match s.pc with
    | .copy cycle => (s.start, lastTurn seg.maxCycle s.written cycle)
    | _ => (s.start, s.pos)
  else (s.published, s.published)

def step (w : CycleWriter seg) (s : ShmemSys) : ShmemAction → Option (RecvEvent × ShmemSys)
  | .write =>
    if s.written = s.published then
      let n := s.written + 1
      some (.quiet, { s with
        written := n
        shmem := { s.shmem with
          slot := Function.update s.shmem.slot (n % seg.maxCycle) (w.block n) } })
    else none
  | .publish =>
    if s.written = s.published + 1 then
      some (.quiet, { s with
        published := s.written
        shmem := { s.shmem with curCycle := s.written % seg.maxCycle } })
    else none
  | .receive =>
    match s.rx.step seg s.shmem s.pc with
    | none => none
    | some (e, pc, rx) =>
      some (e, { s with rx, pc, start := (s.track seg).1, pos := (s.track seg).2 })

end ShmemSys

/-- The blocks that `receive_data` returned. -/
def returnedBlocks (tr : List RecvEvent) : List DaqMultiDcuData :=
  tr.filterMap fun
    | .returned data => some data
    | _ => none

end AdvLigoRts.Daqd
