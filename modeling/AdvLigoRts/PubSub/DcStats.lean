import AdvLigoRts.Lib.Machine
import AdvLigoRts.LocalDc.LocalDc

/-!
# `DCStats`: the model

`DCStats::run` of `src/pub_sub_stream/dc_stats.cc`: the status of every DCU, message after message.
`int` is `Int32` here; the sum of the counters is compared as an `uint64_t`, as in the source.
-/

namespace AdvLigoRts.PubSub

open LocalDc (receivedCrc)

/-! ## One DCU -/

/-- `DCUStats`. -/
structure DcuStats where
  expectedConfigCrc : Int32 := 0
  status : UInt32 := 0
  crcPerSec : Int32 := 0
  crcSum : Int32 := 0
  seenLastCycle : Bool := false
  processed : Bool := false
  processedThisCycle : Bool := false
deriving DecidableEq, Repr

namespace DcuStats

def clearSeenLastCycle (cur : DcuStats) : DcuStats := { cur with seenLastCycle := false }

def clearSeenLastCycleIfSkipped (cur : DcuStats) : DcuStats :=
  if cur.processedThisCycle then cur else cur.clearSeenLastCycle

def clearProcessedThisCycle (cur : DcuStats) : DcuStats := { cur with processedThisCycle := false }

def addCrcErr (cur : DcuStats) : DcuStats :=
  { cur with crcSum := cur.crcSum + 1, crcPerSec := cur.crcPerSec + 1 }

def clearEntries (cur : DcuStats) : DcuStats :=
  { cur with crcPerSec := 0, status := 0, processed := false }

def clearCrc (cur : DcuStats) : DcuStats := { cur with crcPerSec := 0, crcSum := 0 }

def dcuSkipped (cur : DcuStats) : DcuStats :=
  let cur := if cur.seenLastCycle then cur.addCrcErr else cur
  { cur with status := cur.status ||| 0xbad }

def markDcuIfSkippedThisCycle (cur : DcuStats) : DcuStats :=
  if cur.processedThisCycle then cur else cur.dcuSkipped

def markBadConfig (cur : DcuStats) : DcuStats := { cur with status := cur.status ||| 0x2000 }

def markBadDataCrc (cur : DcuStats) : DcuStats :=
  let cur := cur.addCrcErr
  { cur with status := cur.status ||| 0x4000 }

def markAsSeen (cur : DcuStats) : DcuStats := { cur with seenLastCycle := true }

/-- A DCU whose header `run` has got to: it is processed, and its configuration is compared. -/
def markProcessed (cur : DcuStats) (curHeader : DaqMsgHeader) : DcuStats :=
  let cur := { cur with processed := true, processedThisCycle := true }
  if curHeader.fileCrc ≠ cur.expectedConfigCrc.toUInt32 then cur.markBadConfig else cur

end DcuStats

/-! ## One message -/

/-- `for_each( dcu_status_, f )`. -/
def forEach (f : DcuStats → DcuStats) (dcuStatus : ℕ → DcuStats) : ℕ → DcuStats :=
  fun d => f (dcuStatus d)

/-- The loop of `run` over the headers, with `data` and `data_end` as offsets. -/
def runModels (base : ℕ) (entry : DaqMultiDcuData) (dataEnd : ℕ) :
    List DaqMsgHeader → ℕ → (ℕ → DcuStats) → (ℕ → DcuStats)
  | [], _, dcuStatus => dcuStatus
  | curHeader :: rest, data, dcuStatus =>
    if curHeader.dcuId = 0 ∨ dcuCount ≤ curHeader.dcuId.toNat then
      if 0 < curHeader.dataBlockSize ∨ 0 < curHeader.tpBlockSize then
        -- the model cannot be skipped safely
        forEach DcuStats.markDcuIfSkippedThisCycle dcuStatus
      else runModels base entry dataEnd rest data dcuStatus
    else
      let d := curHeader.dcuId.toNat
      let cur := (dcuStatus d).markProcessed curHeader
      if dataEnd < data + curHeader.blockSize then
        forEach DcuStats.markDcuIfSkippedThisCycle (Function.update dcuStatus d cur)
      else
        let cur := cur.markAsSeen
        let crc := receivedCrc base entry data curHeader.dataBlockSize.toNat
        let cur := if crc ≠ curHeader.dataCrc then cur.markBadDataCrc else cur
        runModels base entry dataEnd rest (data + curHeader.blockSize)
          (Function.update dcuStatus d cur)

/-- `dcuTotalModels` and `fullDataBlockSize` are in range. -/
def WellSized (entry : DaqMultiDcuData) : Prop :=
  entry.header.dcuTotalModels ≠ 0 ∧ entry.header.dcuTotalModels ≤ dcuCount ∧
    entry.header.fullDataBlockSize ≠ 0

instance (entry : DaqMultiDcuData) : Decidable (WellSized entry) := by
  unfold WellSized
  infer_instance

/-- The members of `DCStats` that `run` counts with, and its variables. -/
structure DcStats where
  dcuStatus : ℕ → DcuStats
  totalCrcCount : Int32 := 0
  prevTotalCrcCount : Int32 := 0
  requestClearCrc : Bool := false
  cycles : UInt64 := 1

/-- An `int` where an `uint64_t` is expected. -/
def toUInt64 (n : Int32) : UInt64 := n.toInt64.toUInt64

/-- An `uint64_t` that is stored in an `int`. -/
def toInt32 (n : UInt64) : Int32 := n.toUInt32.toInt32

namespace DcStats

/-- `run` up to its loop, with the configurations that were read. -/
def start (expectedConfigCrc : ℕ → Int32) : DcStats where
  dcuStatus := forEach DcuStats.clearEntries (forEach DcuStats.clearSeenLastCycle
    fun d => { expectedConfigCrc := expectedConfigCrc d })

/-- `boost::accumulate( dcu_status_, 0, total_crc_sum )`, which adds up in an `int`. -/
def crcSums (dcuStatus : ℕ → DcuStats) : Int32 :=
  (List.range dcuCount).foldl (fun val d => val + (dcuStatus d).crcSum) 0

/-- The status of the DCUs after the headers of a message. -/
def countMessage (base : ℕ) (s : DcStats) (entry : DaqMultiDcuData) : ℕ → DcuStats :=
  let dcuStatus := forEach DcuStats.clearProcessedThisCycle s.dcuStatus
  if WellSized entry then
    let dcuStatus :=
      runModels base entry entry.header.fullDataBlockSize entry.models 0 dcuStatus
    let dcuStatus := forEach DcuStats.markDcuIfSkippedThisCycle dcuStatus
    forEach DcuStats.clearSeenLastCycleIfSkipped dcuStatus
  else forEach DcuStats.addCrcErr dcuStatus

/-- The total after a message of which `dcuStatus` has been counted. -/
def countTotal (s : DcStats) (dcuStatus : ℕ → DcuStats) : DcStats :=
  let crcSum := toUInt64 (crcSums dcuStatus)
  { s with
    dcuStatus
    totalCrcCount := if crcSum > toUInt64 s.prevTotalCrcCount then
        toInt32 (toUInt64 s.totalCrcCount + (crcSum - toUInt64 s.prevTotalCrcCount))
      else s.totalCrcCount
    prevTotalCrcCount := toInt32 crcSum }

/-- What is done once a second. -/
def oneSecUpdate (s : DcStats) : DcStats :=
  let s := { s with dcuStatus := forEach DcuStats.clearEntries s.dcuStatus }
  if s.requestClearCrc then
    { s with
      dcuStatus := forEach DcuStats.clearCrc s.dcuStatus
      requestClearCrc := false
      prevTotalCrcCount := 0 }
  else s

/-- One turn of the loop of `run`. -/
def runMessage (base : ℕ) (s : DcStats) (entry : DaqMultiDcuData) : DcStats :=
  let dcuStatus := s.countMessage base entry
  let s :=
    if WellSized entry then
      let s := s.countTotal dcuStatus
      if s.cycles % 16 = 0 then s.oneSecUpdate else s
    else { s with dcuStatus }
  { s with cycles := s.cycles + 1 }

end DcStats

/-! ## Runs -/

inductive DcAct
  /-- `run` takes a message from the queue. -/
  | message (entry : DaqMultiDcuData)
  | requestClearCrc

inductive DcEvent
  /-- A message was counted: what it added to the `crc_sum` of each DCU, and the total after it. -/
  | message (entry : DaqMultiDcuData) (increment : ℕ → ℤ) (total : ℤ)
  | requested

/-- `DCStats`, with two numbers that are in no variable of the program: how many increments have
been made so far, and whether the last message was not well-sized. -/
structure DcSys where
  dc : DcStats
  made : ℤ := 0
  afterMalformed : Bool := false

/-- The increments of a message, before anything is cleared. -/
def DcStats.increment (base : ℕ) (s : DcStats) (entry : DaqMultiDcuData) (d : ℕ) : ℤ :=
  ((s.countMessage base entry d).crcSum - (s.dcuStatus d).crcSum).toInt

def DcSys.step (base : ℕ) (s : DcSys) : DcAct → Option (DcEvent × DcSys)
  | .message entry =>
    let dc := s.dc.runMessage base entry
    let increment := s.dc.increment base entry
    some (.message entry increment dc.totalCrcCount.toInt,
      { dc
        made := s.made + ((List.range dcuCount).map increment).sum
        afterMalformed := ¬ WellSized entry })
  | .requestClearCrc => some (.requested, { s with dc := { s.dc with requestClearCrc := true } })

end AdvLigoRts.PubSub
