import AdvLigoRts.Include.DaqCore
import AdvLigoRts.PubSub.GpsKey

/-!
# `receive_buffer`: the model

The data concentrator's buffer of `src/pub_sub_stream/recv_buffer.hh`. Each slot
(`buffer_entry`) collects the messages of one time; messages of a newer time clear it,
messages of an older time are discarded. Every operation runs under the slot's mutex, so it
is one step here. `time_now( )` is an argument.
-/

namespace AdvLigoRts.PubSub

/-- The counters that all slots of a buffer share. -/
structure Tracking where
  late : ℤ := 0
  discards : ℤ := 0
  span : ℤ := 0
deriving DecidableEq, Repr

/-- `buffer_entry`. `data` is the offset of the write pointer in `ifo_data.dataBlock`. -/
structure BufferEntry where
  latest : GpsKey
  ifoData : DaqMultiDcuData
  data : ℕ
  timeIngested : ℕ → ℤ
  firstInjestion : ℤ
  lastInjestion : ℤ
  isLate : Bool
  /-- The key of the message that header `i` came with. -/
  origin : ℕ → GpsKey

def keyOf (input : DaqMultiDcuData) : GpsKey :=
  let first := input.header.dcuheader 0
  .ofTime first.timeSec.toUInt64 first.cycle

namespace BufferEntry

/-- A slot as it is constructed. -/
def start : BufferEntry where
  latest := .zero
  ifoData := ⟨⟨0, 0, fun _ => {}⟩, fun _ => 0⟩
  data := 0
  timeIngested := fun _ => 0
  firstInjestion := 0
  lastInjestion := 0
  isLate := false
  origin := fun _ => .zero

def clear (e : BufferEntry) : BufferEntry :=
  { e with
    ifoData := { e.ifoData with
      header := { e.ifoData.header with dcuTotalModels := 0, fullDataBlockSize := 0 } }
    data := 0
    isLate := false }

/-- `ifo_data.header.dcuheader[ dest_index ] = cur_header`. -/
def putHeader (e : BufferEntry) (destIndex : ℕ) (curHeader : DaqMsgHeader) : BufferEntry :=
  { e with ifoData := { e.ifoData with header := { e.ifoData.header with
      dcuheader := Function.update e.ifoData.header.dcuheader destIndex curHeader } } }

/-- Copying a model's block behind the write pointer and counting the model. -/
def putBlock (e : BufferEntry) (key : GpsKey) (timestamp : ℤ) (input : DaqMultiDcuData)
    (inputData blockSize : ℕ) : BufferEntry :=
  let destIndex := e.ifoData.header.dcuTotalModels
  { e with
    ifoData :=
      { header := { e.ifoData.header with
          dcuTotalModels := destIndex + 1
          fullDataBlockSize := (e.ifoData.header.fullDataBlockSize + blockSize) % 2 ^ 32 }
        dataBlock := fun j =>
          if e.data ≤ j ∧ j < e.data + blockSize then input.dataBlock (inputData + (j - e.data))
          else e.ifoData.dataBlock j }
    data := e.data + blockSize
    timeIngested := Function.update e.timeIngested destIndex timestamp
    origin := Function.update e.origin destIndex key }

/-- The loop of `ingest` over the headers of the message, with the read pointer. -/
def ingestModels (key : GpsKey) (timestamp : ℤ) (input : DaqMultiDcuData) :
    List DaqMsgHeader → ℕ → BufferEntry → Bool × BufferEntry
  | [], _, e => (true, e)
  | curHeader :: rest, inputData, e =>
    if curHeader.dcuId = 0 then ingestModels key timestamp input rest inputData e
    else if e.ifoData.header.dcuTotalModels ≥ daqTransitMaxDcu then (false, e)
    else
      -- the header is written before the size is checked, but counted only after it
      let e := e.putHeader e.ifoData.header.dcuTotalModels curHeader
      if e.data + curHeader.blockSize > daqTransitDcDataBlockSize then (false, e)
      else ingestModels key timestamp input rest (inputData + curHeader.blockSize)
        (e.putBlock key timestamp input inputData curHeader.blockSize)

/-- The part of `ingest` after the comparison of the keys. -/
def accept (e : BufferEntry) (t : Tracking) (timestamp : ℤ) (input : DaqMultiDcuData) :
    BufferEntry × Tracking :=
  let t := if e.isLate then { t with late := t.late + 1 } else t
  let e := { e with lastInjestion := timestamp }
  match ingestModels (keyOf input) timestamp input input.models 0 e with
  -- `latest` is assigned behind the loop, so an early return leaves the old key
  | (true, e) => ({ e with latest := keyOf input }, t)
  | (false, e) => (e, t)

def ingest (e : BufferEntry) (t : Tracking) (timestamp : ℤ) (input : DaqMultiDcuData) :
    BufferEntry × Tracking :=
  if keyOf input > e.latest then
    accept { e.clear with firstInjestion := timestamp }
      { t with span := e.lastInjestion - e.firstInjestion } timestamp input
  else if keyOf input < e.latest then (e, { t with discards := t.discards + 1 })
  else accept e t timestamp input

/-- `process_if`: what the callback is given, if it runs, and the slot afterwards. -/
def processIf (e : BufferEntry) (processKey : GpsKey) : Option DaqMultiDcuData × BufferEntry :=
  if processKey ≠ e.latest then (none, e) else (some e.ifoData, { e with isLate := true })

end BufferEntry

/-- `receive_buffer< N >`; the buffer has slots `0` to `N - 1`. -/
structure ReceiveBuffer where
  latest : GpsKey
  tracking : Tracking
  buffer : ℕ → BufferEntry

def maxCycle : ℕ := 16

def cycleToIndex (N : ℕ) (cycle : UInt32) : ℕ := cycle.toNat % N

namespace ReceiveBuffer

def start : ReceiveBuffer := ⟨.zero, {}, fun _ => .start⟩

def slotOf (N : ℕ) (input : DaqMultiDcuData) : ℕ :=
  cycleToIndex N (input.header.dcuheader 0).cycle

/-- The test for empty and malformed messages. -/
def malformed (input : DaqMultiDcuData) : Bool :=
  decide (input.header.dcuTotalModels ≤ 0 ∨ input.header.dcuTotalModels > daqTransitMaxDcu ∨
    (input.header.dcuheader 0).cycle.toNat ≥ maxCycle)

/-- `receive_buffer::ingest`; nothing else runs while `latest_` is updated. -/
def ingest (N : ℕ) (r : ReceiveBuffer) (timestamp : ℤ) (input : DaqMultiDcuData) :
    ReceiveBuffer :=
  if malformed input then r
  else
    -- the slot's own lock is held for this
    let (e, t) := (r.buffer (slotOf N input)).ingest r.tracking timestamp input
    { latest := if less r.latest (keyOf input) then keyOf input else r.latest
      tracking := t
      buffer := Function.update r.buffer (slotOf N input) e }

/-- `process_slice_at`: what the callback is given, if it runs, and the buffer afterwards. -/
def processSliceAt (N : ℕ) (r : ReceiveBuffer) (processKey : GpsKey) :
    Option DaqMultiDcuData × ReceiveBuffer :=
  let index := cycleToIndex N processKey.cycle
  let (passed, e) := (r.buffer index).processIf processKey
  (passed, { r with buffer := Function.update r.buffer index e })

end ReceiveBuffer

/-- What senders and the main loop do to the buffer. -/
inductive RecvAction
  | ingest (timestamp : ℤ) (input : DaqMultiDcuData)
  | processSliceAt (processKey : GpsKey)

/-- One operation. -/
def ReceiveBuffer.exec (N : ℕ) (r : ReceiveBuffer) : RecvAction → ReceiveBuffer
  | .ingest timestamp input => r.ingest N timestamp input
  | .processSliceAt processKey => (r.processSliceAt N processKey).2

/-- The state after a sequence of operations. -/
def ReceiveBuffer.execAll (N : ℕ) (as : List RecvAction) : ReceiveBuffer :=
  as.foldl (ReceiveBuffer.exec N) .start

/-- The messages of a sequence of operations, in order of arrival. -/
def messages (as : List RecvAction) : List DaqMultiDcuData :=
  as.filterMap fun a => match a with
    | .ingest _ input => some input
    | .processSliceAt _ => none

end AdvLigoRts.PubSub
