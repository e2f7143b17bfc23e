import Mathlib.Algebra.Ring.Nat
import Mathlib.Data.List.Basic

/-!
# `daq_core.h`

The structures that move DAQ data between front ends, data concentrator and `daqd`. Arrays
are functions of the index; what a message says about its own length is in the counts of its
header.
-/

namespace AdvLigoRts

def daqNumDataBlocks : ℕ := 16

def daqTransitMaxDcByteSec : ℕ := 0x6000000

def daqTransitDcDataBlockSize : ℕ := daqTransitMaxDcByteSec / daqNumDataBlocks

def daqTransitMaxFeByteSec : ℕ := 0x1000000

def daqTransitFeDataBlockSize : ℕ := daqTransitMaxFeByteSec / daqNumDataBlocks

def daqTransitMaxDcu : ℕ := 256

def dcuCount : ℕ := 256

/-- `DAQ_DCU_BLOCK_SIZE`, a sixteenth of `DAQ_DCU_SIZE`. -/
def daqDcuBlockSize : ℕ := 0x400000 / daqNumDataBlocks

def daqGdsMaxTpNum : ℕ := 0x100

/-- `sizeof( daq_msg_header_t )`: ten words and the test point table. -/
def sizeofDaqMsgHeader : ℕ := 4 * 10 + 4 * daqGdsMaxTpNum

/-- `sizeof( daq_multi_dcu_header_t )`: two words and the headers of the models. -/
def sizeofDaqMultiDcuHeader : ℕ := 4 * 2 + daqTransitMaxDcu * sizeofDaqMsgHeader

/-- `sizeof( daq_dc_data_t )`. -/
def sizeofDaqDcData : ℕ := sizeofDaqMultiDcuHeader + daqTransitDcDataBlockSize

/-- `sizeof( daq_multi_cycle_header_t )`: four words. -/
def sizeofDaqMultiCycleHeader : ℕ := 4 * 4

/-- `daq_msg_header_t`. -/
structure DaqMsgHeader where
  dcuId : UInt32 := 0
  fileCrc : UInt32 := 0
  status : UInt32 := 0
  cycle : UInt32 := 0
  timeSec : UInt32 := 0
  timeNSec : UInt32 := 0
  dataCrc : UInt32 := 0
  dataBlockSize : UInt32 := 0
  tpBlockSize : UInt32 := 0
  tpCount : UInt32 := 0
  tpNum : List UInt32 := []
deriving DecidableEq, Inhabited, Repr

/-- `dataBlockSize + tpBlockSize`, an `unsigned int` sum. -/
def DaqMsgHeader.blockSize (h : DaqMsgHeader) : ℕ := (h.dataBlockSize + h.tpBlockSize).toNat

/-- `daq_multi_dcu_header_t`. -/
structure DaqMultiDcuHeader where
  dcuTotalModels : ℕ
  fullDataBlockSize : ℕ
  dcuheader : ℕ → DaqMsgHeader

/-- `daq_multi_dcu_data_t` and `daq_dc_data_t`, which differ in the length of `dataBlock`
alone. -/
structure DaqMultiDcuData where
  header : DaqMultiDcuHeader
  dataBlock : ℕ → UInt8

namespace DaqMultiDcuData

/-- The headers in use, in order. -/
def models (d : DaqMultiDcuData) : List DaqMsgHeader :=
  (List.range d.header.dcuTotalModels).map d.header.dcuheader

/-- `n` bytes of the data block from `pos` on. -/
def slice (d : DaqMultiDcuData) (pos n : ℕ) : List UInt8 :=
  (List.range n).map fun j => d.dataBlock (pos + j)

/-- Where the data of model `i` starts: behind that of the models before it. -/
def offset (d : DaqMultiDcuData) (i : ℕ) : ℕ := ((d.models.take i).map DaqMsgHeader.blockSize).sum

/-- The bytes of all models. -/
def payload (d : DaqMultiDcuData) : List UInt8 :=
  d.slice 0 (d.models.map DaqMsgHeader.blockSize).sum

end DaqMultiDcuData

end AdvLigoRts
