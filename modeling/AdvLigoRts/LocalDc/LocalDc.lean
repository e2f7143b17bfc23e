import AdvLigoRts.Daqd.ChecksumCrc32
import AdvLigoRts.Drv.Crc
import AdvLigoRts.Include.DaqCore
import AdvLigoRts.Lib.ByteMem

/-!
# `local_dc`

`loadMessageBuffer` of `src/local_dc/local_dc.c` puts the data of the front ends that are ready
into one message. The subscriber `rmipc` of `src/pub_sub_stream` has the same function once more,
with its own front ends and its own message.

Shared memory and message memory are functions of the address. A checksum is taken over as many
bytes as the front end says, so it can run on into whatever the message memory held before.
-/

namespace AdvLigoRts.LocalDc

open PvLib

/-- `blockPropT`: what a front end says about one of its blocks. -/
structure BlockPropT where
  timeSec : UInt32 := 0
  timeNSec : UInt32 := 0
  /-- Front ends put the number of data bytes here. -/
  crc : UInt32 := 0
deriving DecidableEq, Inhabited, Repr

/-- `struct rmIpcStr`. -/
structure RmIpcStr where
  cycle : UInt32 := 0
  dcuId : UInt32 := 0
  crc : UInt32 := 0
  bp : ℕ → BlockPropT := fun _ => {}

/-- `cdsDaqNetGdsTpNum`. -/
structure CdsDaqNetGdsTpNum where
  count : UInt32 := 0
  tpNum : ℕ → UInt32 := fun _ => 0

/-- What the arrays hold for one model: `shmIpcPtr`, `shmTpTable`, `shmDataPtr`, `modelrates`
and `dataRdy`. -/
structure FrontEnd where
  ipc : RmIpcStr
  tpTable : CdsDaqNetGdsTpNum
  data : ℕ → UInt8
  modelrate : ℤ
  dataRdy : Bool

/-- The models, as many as the arrays of pointers have room for. -/
structure FrontEnds where
  models : List FrontEnd
  nsys_le : models.length ≤ 128

/-- The models with data in this cycle. -/
def FrontEnds.ready (fes : FrontEnds) : List FrontEnd := fes.models.filter FrontEnd.dataRdy

def bufSize : ℕ := daqDcuBlockSize * 2

/-! ## One model -/

namespace FrontEnd

/-- `crcLength`, an `int` that goes on as an `unsigned int` wherever it is used. -/
def crcLength (fe : FrontEnd) (lastCycle : ℕ) : UInt32 := (fe.ipc.bp lastCycle).crc

/-- `dataBlockSize`, clamped. -/
def dataBlockSize (fe : FrontEnd) (lastCycle : ℕ) : UInt32 :=
  if daqDcuBlockSize < (fe.crcLength lastCycle).toNat then UInt32.ofNat daqDcuBlockSize
  else fe.crcLength lastCycle

def tpCount (fe : FrontEnd) : UInt32 := fe.tpTable.count &&& 0xff

/-- `tpBlockSize`, from an expression of type `size_t`. -/
def tpBlockSize (fe : FrontEnd) : UInt32 :=
  UInt32.ofNat ((4 * fe.modelrate * fe.tpCount.toNat % 2 ^ 64).toNat / daqNumDataBlocks)

/-- The header of the model up to its checksum. -/
def header (fe : FrontEnd) (lastCycle : ℕ) (old : DaqMsgHeader) : DaqMsgHeader where
  dcuId := fe.ipc.dcuId
  fileCrc := fe.ipc.crc
  status := 2
  cycle := fe.ipc.cycle
  timeSec := (fe.ipc.bp lastCycle).timeSec
  timeNSec := (fe.ipc.bp lastCycle).timeNSec
  dataCrc := old.dataCrc
  dataBlockSize := fe.dataBlockSize lastCycle
  tpBlockSize := fe.tpBlockSize
  tpCount := fe.tpCount
  tpNum := (List.range fe.tpCount.toNat).map fe.tpTable.tpNum ++ old.tpNum.drop fe.tpCount.toNat

/-- `dataXferSize` before it is made an `int`. -/
def dataXferSize (fe : FrontEnd) (lastCycle : ℕ) : ℕ :=
  (fe.dataBlockSize lastCycle + fe.tpBlockSize).toNat

def dataBuff (fe : FrontEnd) (lastCycle : ℕ) : ℕ → UInt8 := fun j =>
  fe.data (lastCycle * bufSize + j)

end FrontEnd

/-- The checksum of the `length` bytes at `pos`. -/
def dataCrc (charSigned : Bool) (mem : ℕ → UInt8) (pos : ℕ) (length : UInt32) : UInt32 :=
  ⟨Drv.crcLen length.toBitVec
    (Drv.crcPtr charSigned ((bytesAt mem pos length.toNat).map UInt8.toBitVec) 0)⟩

/-! ## `loadMessageBuffer` -/

/-- How `loadMessageBuffer` ends without a length. -/
inductive LoadExit where
  /-- `return ( -1 )`. -/
  | overflow
  /-- `memcpy` with a negative `int` for its size. -/
  | fault
deriving DecidableEq, Repr

/-- The local variables of `loadMessageBuffer`, and the message it writes to. -/
structure LoadState where
  ixDataBlock : DaqMultiDcuData
  zbuffer : ℕ := 0
  sendLength : ℕ := sizeofDaqMultiDcuHeader
  db : ℕ := 0

variable (charSigned : Bool) (lastCycle : ℕ)

/-- A turn of the loop for a model that is ready and whose data fits. -/
def LoadState.load (s : LoadState) (fe : FrontEnd) : LoadState :=
  let xfer := fe.dataXferSize lastCycle
  let mem := blit s.ixDataBlock.dataBlock s.zbuffer (fe.dataBuff lastCycle) xfer
  let header := { fe.header lastCycle (s.ixDataBlock.header.dcuheader s.db) with
    dataCrc := dataCrc charSigned mem s.zbuffer (fe.crcLength lastCycle) }
  { ixDataBlock :=
      { header :=
          { s.ixDataBlock.header with
            fullDataBlockSize := (s.ixDataBlock.header.fullDataBlockSize + xfer) % 2 ^ 32
            dcuheader := Function.update s.ixDataBlock.header.dcuheader s.db header }
        dataBlock := mem }
    zbuffer := s.zbuffer + xfer
    sendLength := s.sendLength + xfer
    db := s.db + 1 }

/-- The loop over the models. -/
def loadLoop : List FrontEnd → LoadState → Except LoadExit LoadState
  | [], s => .ok s
  | fe :: fes, s =>
    if fe.dataRdy then
      -- as an `int`, a size from `2 ^ 31` on is negative and so passes the check
      if 2 ^ 31 ≤ fe.dataXferSize lastCycle then .error .fault
      else if daqDcuBlockSize < fe.dataXferSize lastCycle then .error .overflow
      else loadLoop fes (s.load charSigned lastCycle fe)
    else loadLoop fes s

/-- What is set before the loop. -/
def loadStart (ixDataBlock : DaqMultiDcuData) : LoadState where
  ixDataBlock := { ixDataBlock with header := { ixDataBlock.header with fullDataBlockSize := 0 } }

/-- What is set after it, and what is returned: the length of the message and the message. -/
def LoadState.finish (s : LoadState) : ℕ × DaqMultiDcuData :=
  (s.sendLength,
    { s.ixDataBlock with header := { s.ixDataBlock.header with dcuTotalModels := s.db } })

def loadMessageBuffer (fes : FrontEnds) (ixDataBlock : DaqMultiDcuData) :
    Except LoadExit (ℕ × DaqMultiDcuData) :=
  (loadLoop charSigned lastCycle fes.models (loadStart ixDataBlock)).map LoadState.finish

/-! ## The receivers of a message -/

open Daqd (ChecksumCrc32)

/-- The checksum that a receiver computes of `n` bytes of the data block from `pos` on. -/
def receivedCrc (base : ℕ) (d : DaqMultiDcuData) (pos n : ℕ) : UInt32 :=
  ⟨(ChecksumCrc32.reset.add (base + pos) ((d.slice pos n).map UInt8.toBitVec)).result⟩

/-! ## The producer -/

/-- What the producer notes of a DCU: `dcu_to_zmq_lookup`, `dcu_data_from_zmq`, `dcu_data_crc`
and `dcu_data_gps`. -/
structure ZmqDcu where
  block : ℕ
  data : ℕ
  crc : UInt32
  gps : UInt32
deriving DecidableEq, Repr

/-- The loop that maps out the DCUs of a message; `none` when `cur_dcu_zmq_ptr` has run past
the data block. -/
def mapDcus (endData : ℕ) :
    List DaqMsgHeader → ℕ → ℕ → (ℕ → Option ZmqDcu) → Option (ℕ → Option ZmqDcu)
  | [], _, _, lookup => some lookup
  | h :: hs, curBlock, curDcuZmqPtr, lookup =>
    let lookup :=
      if dcuCount ≤ h.dcuId.toNat then lookup
      else Function.update lookup h.dcuId.toNat
        (some ⟨curBlock, curDcuZmqPtr, h.dataCrc, h.timeSec⟩)
    let curDcuZmqPtr := curDcuZmqPtr + h.blockSize
    if endData < curDcuZmqPtr then none else mapDcus endData hs (curBlock + 1) curDcuZmqPtr lookup

def dcuMap (d : DaqMultiDcuData) : Option (ℕ → Option ZmqDcu) :=
  mapDcus daqTransitDcDataBlockSize d.models 0 0 fun _ => none

/-- The producer's check of the data of a DCU that is configured with the size its header has:
`rfm_crc` is the checksum of the bytes that were copied. -/
def producerCrcOk (base : ℕ) (d : DaqMultiDcuData) (z : ZmqDcu) : Bool :=
  z.crc == receivedCrc base d z.data (d.header.dcuheader z.block).dataBlockSize.toNat

/-! ## `DCStats` -/

/-- A model that `DCStats::run` has marked as seen. -/
structure SeenDcu where
  dcuId : UInt32
  /-- `mark_bad_data_crc` was called. -/
  badDataCrc : Bool
deriving DecidableEq, Repr

/-- The loop over the models. -/
def statsLoop (base : ℕ) (d : DaqMultiDcuData) (dataEnd : ℕ) :
    List DaqMsgHeader → ℕ → List SeenDcu
  | [], _ => []
  | h :: hs, data =>
    if h.dcuId = 0 ∨ dcuCount ≤ h.dcuId.toNat then
      -- a model that is skipped must not have data
      if 0 < h.dataBlockSize ∨ 0 < h.tpBlockSize then [] else statsLoop base d dataEnd hs data
    else if dataEnd < data + h.blockSize then []
    else
      ⟨h.dcuId, receivedCrc base d data h.dataBlockSize.toNat != h.dataCrc⟩ ::
        statsLoop base d dataEnd hs (data + h.blockSize)

/-- `DCStats::run` on one message: the models it has seen. -/
def statsRun (base : ℕ) (d : DaqMultiDcuData) : List SeenDcu :=
  if d.header.dcuTotalModels = 0 ∨ dcuCount < d.header.dcuTotalModels ∨
      d.header.fullDataBlockSize = 0 then []
  else statsLoop base d d.header.fullDataBlockSize d.models 0

end AdvLigoRts.LocalDc
