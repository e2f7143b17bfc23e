import AdvLigoRts.Daqd.CircSystem
import AdvLigoRts.Include.DaqCore

/-!
# `producer::frame_writer`: the model

The producer of `src/daqd/producer_shmem.cc`. The receive thread (`frame_writer`) waits for
the end of a second, then takes one block after the other, checks that it continues the last
one, stamps it and hands it over; the second thread (`frame_writer_crc`) puts it into the
circular buffer as the next sixteenth. Buffers go round between the two over a
`work_queue`, whose queues are first in, first out.

The copying of the DCUs' data into a buffer has no part in the time stamps. A step of the
receive thread gets the buffer as that copying leaves it.
-/

namespace AdvLigoRts.Daqd

open PvLib

def dataBlocks : ℕ := daqNumDataBlocks

/-- A sixteenth of a second in nanoseconds, `1000000000 / 16`. -/
def nanoPer16th : ℕ := 1000000000 / 16

/-- The second a block is stamped with. -/
def gpsOf (block : DaqMultiDcuData) : ℕ := (block.header.dcuheader 0).timeSec.toNat

/-- Its sub-second field. Some senders put nanoseconds there, some the cycle number. -/
def fracOf (block : DaqMultiDcuData) : ℕ := (block.header.dcuheader 0).timeNSec.toNat

/-! ## The receive thread -/

def lastInSecond (frac : ℕ) : Bool := frac == dataBlocks - 1 || decide (937500000 ≤ frac)

/-- Why `frame_writer` calls `exit( 1 )`. -/
inductive ProducerExit where
  /-- "Unable to sync up to front ends after … attempts". -/
  | noSync (syncTries : ℕ)
  /-- "Dropped data from shmem or received 0 dcus". -/
  | dropped (gps frac prevGps prevFrac dcuTotalModels expectedGps expectedCycle : ℕ)
  /-- "Too many dcus …, this looks like corrupt data, aborting". -/
  | tooManyDcus (totalZmqModels : ℕ)
  /-- "The current datablock has overflowed, aborting". -/
  | overflowed
deriving DecidableEq, Repr

/-- Where the receive thread is. -/
inductive WriterPc where
  /-- In the loop that waits for the end of a second. -/
  | sync (syncTries : ℕ)
  /-- In the main loop, before the block of index `i`. -/
  | main (i prevGps prevFrac : ℕ)
  | exited (why : ProducerExit)
deriving DecidableEq, Repr

def maxSyncTries : ℕ := 10 * dataBlocks

/-- One turn of the loop that waits for the end of a second. -/
def syncTurn (syncTries : ℕ) (block : DaqMultiDcuData) : WriterPc :=
  let syncTries := syncTries + 1
  -- an empty block counts as a try but never ends the wait
  if block.header.dcuTotalModels = 0 then .sync syncTries
  else if lastInSecond (fracOf block) then .main 0 (gpsOf block) (fracOf block)
  else if maxSyncTries < syncTries then .exited (.noSync syncTries)
  else .sync syncTries

def expectedGps (prevGps prevFrac : ℕ) : ℕ :=
  if lastInSecond prevFrac then prevGps + 1 else prevGps

def expectedNano (prevFrac : ℕ) : ℕ :=
  let nano := prevFrac + nanoPer16th
  -- no nanoseconds are carried over into the next second
  if 1000000000 ≤ nano then 0 else nano

/-- `expected_cycle`, with a value out of band where the last field was no cycle number. -/
def expectedCycle (prevFrac : ℕ) : ℕ :=
  if prevFrac < dataBlocks then (prevFrac + 1) % dataBlocks else dataBlocks + 10

/-- The continuity check, for a block that has models in it. -/
def Continues (prevGps prevFrac gps frac : ℕ) : Prop :=
  gps = expectedGps prevGps prevFrac ∧
    (frac = expectedCycle prevFrac ∨ frac = expectedNano prevFrac)

instance (prevGps prevFrac gps frac : ℕ) : Decidable (Continues prevGps prevFrac gps frac) :=
  inferInstanceAs (Decidable (_ ∧ _))

/-- The loop over the models that moves `cur_dcu_zmq_ptr`; `none` when it has run past the
data block. -/
def walkModels (endData : ℕ) : List DaqMsgHeader → ℕ → Option ℕ
  | [], curDcuZmqPtr => some curDcuZmqPtr
  | h :: hs, curDcuZmqPtr =>
    let curDcuZmqPtr := curDcuZmqPtr + h.blockSize
    if endData < curDcuZmqPtr then none else walkModels endData hs curDcuZmqPtr

/-- The checks of the main loop on a received block. -/
def checkBlock (prevGps prevFrac : ℕ) (block : DaqMultiDcuData) : Except ProducerExit Unit :=
  let total := block.header.dcuTotalModels
  -- `gps` and `frac` are read from the first model
  let gps := if 0 < total then gpsOf block else prevGps
  let frac := if 0 < total then fracOf block else prevFrac
  if total = 0 ∨ ¬Continues prevGps prevFrac gps frac then
    .error (.dropped gps frac prevGps prevFrac total (expectedGps prevGps prevFrac)
      (expectedCycle prevFrac))
  else if daqTransitMaxDcu ≤ total then .error (.tooManyDcus total)
  else
    match walkModels daqTransitDcDataBlockSize block.models 0 with
    | none => .error .overflowed
    | some _ => .ok ()

/-! ## Both threads -/

/-- `producer_buf`: the vectors for `put16th_dpscattered`, with what they point at, and the
properties. -/
structure ProducerBuf where
  vmicPv : List CircBuffer.PutDpvec
  prop : BlockProp
deriving DecidableEq, Repr

/-- Stamping a buffer for the block of index `i`. -/
def ProducerBuf.stampTime (buf : ProducerBuf) (i gps : ℕ) : ProducerBuf :=
  { buf with prop := { buf.prop with gps := gps, gpsN := (nanoPer16th * (i % 16) : ℕ) } }

/-- The producer's two threads, their queues, and the circular buffer `daqd.b1` with its
consumers. -/
structure ProducerSys where
  pc : WriterPc
  /-- The queue `RECV_THREAD_INPUT`, which is `CRC_THREAD_OUTPUT`. -/
  recvInput : List ProducerBuf
  /-- The queue `RECV_THREAD_OUTPUT`, which is `CRC_THREAD_INPUT`. -/
  crcInput : List ProducerBuf
  /-- The buffer that `frame_writer_crc` is putting. -/
  putting : Option ProducerBuf
  b1 : CircSys

/-- A step of one of the producer's threads. -/
inductive ProducerAction where
  /-- `receive_data` returned `block`; `filled` is the buffer with its data copied. -/
  | receive (block : DaqMultiDcuData) (filled : ProducerBuf)
  /-- `frame_writer_crc` takes a buffer and starts its put. -/
  | put (zeroBadData : Bool)
  /-- The put is published and the buffer given back. -/
  | publish
  /-- A consumer of the circular buffer does something. -/
  | consumer (a : CircAction)

inductive ProducerEvent where
  | quiet
  /-- The receive thread has synchronised on this block. -/
  | synced (block : DaqMultiDcuData)
  /-- It has accepted this block and handed it over. -/
  | accepted (block : DaqMultiDcuData)
  /-- The put stored these properties with sixteenth `nbi16th` of block `nbi`. -/
  | wrote (nbi nbi16th : ℕ) (prop : BlockProp)

namespace ProducerSys

/-- The threads as they start, with the buffers for the work queue. -/
def start (bufs : List ProducerBuf) (b : CircBuffer) : ProducerSys where
  pc := .sync 0
  recvInput := bufs
  crcInput := []
  putting := none
  b1 := .start b

/-- The receive thread gets a block. In the main loop it waits for a buffer as well. -/
def receive (s : ProducerSys) (block : DaqMultiDcuData) (filled : ProducerBuf) :
    Option (ProducerEvent × ProducerSys) :=
  match s.pc with
  | .sync syncTries =>
    match syncTurn syncTries block with
    | .main i prevGps prevFrac =>
      some (.synced block, { s with pc := .main i prevGps prevFrac })
    | pc => some (.quiet, { s with pc })
  | .main i prevGps prevFrac =>
    match s.recvInput with
    | [] => none
    | _ :: recvInput =>
      match checkBlock prevGps prevFrac block with
      | .error why => some (.quiet, { s with pc := .exited why, recvInput })
      | .ok () =>
        some (.accepted block, { s with
          pc := .main (i + 1) (gpsOf block) (fracOf block)
          recvInput
          crcInput := s.crcInput ++ [filled.stampTime i (gpsOf block)] })
  | .exited _ => none

/-- What a put of one sixteenth has stored. -/
def wroteEvent (b1 : CircSys) : ProducerEvent :=
  match b1.pending with
  | some (.sixteenth nbi nbi16th) =>
    .wrote nbi nbi16th ((b1.buf.block nbi).prop16th nbi16th)
  | _ => .quiet

/-- `frame_writer_crc` up to the first section of the put. -/
def put (s : ProducerSys) (zeroBadData : Bool) : Option (ProducerEvent × ProducerSys) :=
  match s.putting, s.crcInput with
  | none, buf :: crcInput =>
    match s.b1.step (.write (.put16thDpscattered zeroBadData buf.vmicPv (some buf.prop))) with
    | none => none
    | some (_, b1) => some (wroteEvent b1, { s with putting := some buf, crcInput, b1 })
  | _, _ => none

/-- The rest of the loop of `frame_writer_crc`. -/
def publish (s : ProducerSys) : Option (ProducerEvent × ProducerSys) :=
  match s.putting with
  | none => none
  | some buf =>
    match s.b1.step .publish with
    | none => none
    | some (_, b1) =>
      some (.quiet, { s with putting := none, recvInput := s.recvInput ++ [buf], b1 })

def consumer (s : ProducerSys) : CircAction → Option (ProducerEvent × ProducerSys)
  | .write _ | .publish => none
  | a =>
    match s.b1.step a with
    | none => none
    | some (_, b1) => some (.quiet, { s with b1 })

/-- One step. After `exit( 1 )` there are none. -/
def step (s : ProducerSys) (a : ProducerAction) : Option (ProducerEvent × ProducerSys) :=
  match s.pc with
  | .exited _ => none
  | _ =>
    match a with
    | .receive block filled => s.receive block filled
    | .put zeroBadData => s.put zeroBadData
    | .publish => s.publish
    | .consumer a => s.consumer a

end ProducerSys

def syncedBlocks (tr : List ProducerEvent) : List DaqMultiDcuData :=
  tr.filterMap fun
    | .synced block => some block
    | _ => none

def acceptedBlocks (tr : List ProducerEvent) : List DaqMultiDcuData :=
  tr.filterMap fun
    | .accepted block => some block
    | _ => none

/-- The sixteenths that were written, with the properties stored with them, in order. -/
def writtenSixteenths (tr : List ProducerEvent) : List (ℕ × BlockProp) :=
  tr.filterMap fun
    | .wrote _ nbi16th prop => some (nbi16th, prop)
    | _ => none

end AdvLigoRts.Daqd
