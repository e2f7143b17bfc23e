import AdvLigoRts.Drv.Fm10Gen
import AdvLigoRts.Include.DaqCore
import AdvLigoRts.Lib.ByteMem

/-!
# `daqLib.c`

`daqWrite` collects the data of a front end, `src/include/drv/daqLib.c`. Every code cycle it
writes a sample of each channel and of each selected test point into the block of shared memory
that is being filled, reads the excitations, and at the end of a sixteenth of a second announces
the block. Once a second it looks for a new configuration and for new test point selections.

`sysRate` is the number of cycles in a sixteenth of a second. The tables are functions of the
index. What `daqWrite` finds in the memories of others at a cycle is its argument `DaqCall`.
-/

namespace AdvLigoRts.Drv

open PvLib

/-! ## Constants and structures -/

def dcuMaxChannels : ℕ := 512

def daqGdsMaxTpAllowed : ℕ := 64

def daqNumFmTp : ℕ := 3

def daq16kSampleSize : ℕ := 1024

def daqXferCycleFmd : ℕ := 2

def daqXferFmdPerCycle : ℕ := 100

def feErrorExcSet : ℕ := 0x100

def bufSize : ℕ := daqDcuBlockSize * 2

def daqDatatype16BitInt : ℕ := 1

def daqDatatype32BitInt : ℕ := 2

def daqDatatypeFloat : ℕ := 4

def daqDatatypeDouble : ℕ := 5

def daqDatatype32BitUint : ℕ := 7

def daqDataTypeSize (a : ℕ) : ℕ := [0, 2, 4, 8, 4, 8, 16, 4].getD a 0

def gdsMaxNfmTp : ℕ := 500

def gdsMaxNfmExc : ℕ := 50

def gds16kExcMin : ℕ := 1

def gds16kTpMin : ℕ := 10001

/-- `DAQ_SRC_FM_TP` and the other sources of a signal. -/
inductive DaqSrc where
  | fmTp
  | nfmTp
  | fmExc
  | nfmExc
deriving DecidableEq, Repr

/-- Not below `DAQ_SRC_FM_EXC`. -/
def DaqSrc.isExc : DaqSrc → Bool
  | .fmTp | .nfmTp => false
  | .fmExc | .nfmExc => true

/-- `DAQ_LKUP_TABLE`. -/
structure DaqLkupTable where
  type : DaqSrc
  sysNum : ℕ
  fmNum : ℕ
  sigNum : ℕ
  decFactor : ℕ
  offset : ℕ

/-- `DAQ_RANGE`: the numbers of the test points. -/
structure DaqRange where
  filtTpMin : ℕ
  filtTpMax : ℕ
  filtTpSize : ℕ
  xTpMin : ℕ
  xTpMax : ℕ
  filtExMin : ℕ
  filtExMax : ℕ
  filtExSize : ℕ
  xExMin : ℕ
  xExMax : ℕ

/-- The ranges that the controllers set, from the first excitation and the first test point. -/
def controllerRange (filtExMin filtTpMin maxModules : ℕ) : DaqRange where
  filtTpMin := filtTpMin
  filtTpMax := filtTpMin + maxModules * 3
  filtTpSize := maxModules * 3
  xTpMin := filtTpMin + maxModules * 3
  xTpMax := filtTpMin + maxModules * 3 + gdsMaxNfmTp
  filtExMin := filtExMin
  filtExMax := filtExMin + maxModules
  filtExSize := maxModules
  xExMin := filtExMin + maxModules
  xExMax := filtExMin + maxModules + gdsMaxNfmExc

/-- A channel of `DAQ_INFO_BLOCK`. -/
structure DaqTp where
  tpnum : ℕ
  dataType : ℕ
  dataRate : ℕ

/-- `DAQ_INFO_BLOCK`. -/
structure DaqInfoBlock where
  numChans : ℕ
  numEpicsInts : ℕ
  numEpicsFloats : ℕ
  numEpicsTotal : ℕ
  epicsdblDataOffset : ℕ
  cpyepics2times : Bool
  cpyIntSize : ℕ × ℕ
  numEpicsFiltXfers : ℕ
  numEpicsFiltsLast : ℕ
  configFileCrc : ℕ
  tp : ℕ → DaqTp

/-- `DAQ_XFER_INFO`. -/
structure DaqXferInfo where
  crcLength : ℤ
  totalSize : ℤ
  totalSizeNet : ℤ
  offsetAccum : ℕ
  fileCrc : ℕ

/-- An entry of `excTable`. -/
structure DaqExc where
  sigNum : ℕ
  sysNum : ℕ
  fmNum : ℕ
  offset : ℕ

/-- `rmIpcStr`, with the `cycle` and the `crc` of its blocks. -/
structure RmIpcStr where
  cycle : ℕ
  crc : ℕ
  dataBlockSize : ℤ
  bpCycle : ℕ → ℕ
  bpCrc : ℕ → ℤ

/-- `cdsDaqNetGdsTpNum`. -/
structure CdsDaqNetGdsTpNum where
  count : ℕ
  tpNum : ℕ → ℕ

/-- How a front end is built, and the conversions of its numbers. -/
structure DaqBuild (K : Type) where
  maxModules : ℕ
  cdsEpicsOutInts : ℕ
  coreBiquad : Bool
  dCoeff : ℕ → ℕ → K
  toShort : K → BitVec 16
  toInt : K → BitVec 32
  toUInt : K → BitVec 32
  toFloat : K → BitVec 32
  toDouble : K → BitVec 64
  uintToFloat : BitVec 32 → BitVec 32
  loadDouble : List UInt8 → K
  asUInt : (ℕ → K) → BitVec 32
  withUInt : (ℕ → K) → BitVec 32 → ℕ → K

/-- What `daqWrite` finds at a code cycle: the data of the filter modules and the other test
points, EPICS data, the excitations by block, channel and slot, the GDS tables, and the
configuration with its `reconfig` flag. -/
structure DaqCall (K : Type) where
  filterInput : ℕ → K
  inputTestpoint : ℕ → K
  testpoint : ℕ → K
  pFloatData : ℕ → K
  pEpics : ℕ → UInt8
  fmSettings : ℕ → Fin 4 → K
  swReq : ℕ → BitVec 32
  swMask : ℕ → BitVec 32
  output16Hz : ℕ → K
  output : ℕ → K
  swStatus : ℕ → BitVec 32
  excStatus : ℕ → ℕ → ℤ
  excData : ℕ → ℕ → ℕ → K
  gdsTp : ℕ → ℕ → ℕ
  reconfig : ℕ
  pInfo : DaqInfoBlock

/-- The static variables of `daqWrite` and the memories it writes. -/
structure DaqState (K : Type) where
  daqBlockNum : ℕ
  daqXmitBlockNum : ℕ
  excBlockNum : ℕ
  daqSlot : ℕ
  excSlot : ℕ
  pWriteBuffer : ℕ
  pEpicsFloat : ℕ
  xferInfo : DaqXferInfo
  localTable : ℕ → DaqLkupTable
  excTable : ℕ → DaqExc
  dataInfo : DaqInfoBlock
  tpStart : ℕ
  validTp : ℕ
  validTpNet : ℕ
  validEx : ℕ
  tpNum : ℕ → ℕ
  tpNumNet : ℕ → ℕ
  totalChans : ℕ
  dHistory : ℕ → ℕ → K
  exciteInput : ℕ → K
  excSignal : ℕ → K
  mem : ℕ → UInt8
  dipc : RmIpcStr
  tpPtr : CdsDaqNetGdsTpNum

/-! ## Configuration -/

/-- `daqConfig`: the local configuration and the bytes of DAQ data; `none` is the return of -1. -/
def daqConfig (maxModules cdsEpicsOutInts : ℕ) (dataInfo pInfo : DaqInfoBlock) :
    Option (DaqInfoBlock × ℕ) :=
  if pInfo.numChans > dcuMaxChannels then none
  else
    let rest := maxModules % daqXferFmdPerCycle
    let xfers := maxModules / daqXferFmdPerCycle + if rest ≠ 0 then 1 else 0
    let ii : ℤ := 4 * cdsEpicsOutInts
    let jj : ℤ := 4 * (pInfo.numEpicsInts - cdsEpicsOutInts : ℤ)
    let twice : Bool := ii % 8 ≠ 0 ∧ jj > 0
    let tp := fun k => if k < pInfo.numChans then pInfo.tp k else dataInfo.tp k
    let dataLength := (List.range pInfo.numChans).foldl
      (fun len k => len + daqDataTypeSize (tp k).dataType * (tp k).dataRate / daqNumDataBlocks)
      (4 * pInfo.numEpicsTotal)
    some ({ dataInfo with
      numChans := pInfo.numChans
      numEpicsInts := pInfo.numEpicsInts
      numEpicsFloats := pInfo.numEpicsFloats
      numEpicsTotal := pInfo.numEpicsTotal
      epicsdblDataOffset := (if ii % 8 ≠ 0 then 4 else 0) + if jj % 8 ≠ 0 then 4 else 0
      cpyepics2times := twice
      cpyIntSize := if twice then (ii.toNat, jj.toNat) else (pInfo.numEpicsInts * 4, 0)
      numEpicsFiltXfers := xfers + daqXferCycleFmd
      numEpicsFiltsLast := if rest ≠ 0 then rest else daqXferFmdPerCycle
      tp := tp }, dataLength)

/-- Where a channel gets its data from: the entry `lt` with the source of the test point. -/
def setSource (daqRange : DaqRange) (tpnum : ℕ) (lt : DaqLkupTable) : Option DaqLkupTable :=
  if daqRange.filtTpMin ≤ tpnum ∧ tpnum < daqRange.filtTpMax then
    let jj := tpnum - daqRange.filtTpMin
    let sysNum := jj / daqRange.filtTpSize
    let jj := jj - sysNum * daqRange.filtTpSize
    some { lt with
      type := .fmTp, sysNum := sysNum, fmNum := jj / daqNumFmTp, sigNum := jj % daqNumFmTp }
  else if daqRange.filtExMin ≤ tpnum ∧ tpnum < daqRange.filtExMax then
    some { lt with type := .fmExc, fmNum := tpnum - daqRange.filtExMin }
  else if daqRange.xTpMin ≤ tpnum ∧ tpnum < daqRange.xTpMax then
    some { lt with type := .nfmTp, sigNum := tpnum - daqRange.xTpMin }
  else if daqRange.xExMin ≤ tpnum ∧ tpnum < daqRange.xExMax then
    some { lt with
      type := .nfmExc, fmNum := tpnum - daqRange.xExMin, sigNum := tpnum - daqRange.xExMin }
  else none

/-- The body of the loop of `loadLocalTable`. An error is the return of -1. -/
def loadChannel (sysRate : ℕ) (dataInfo : DaqInfoBlock) (daqRange : DaqRange)
    (s : DaqXferInfo × (ℕ → DaqLkupTable)) (ii : ℕ) :
    Except (DaqXferInfo × (ℕ → DaqLkupTable)) (DaqXferInfo × (ℕ → DaqLkupTable)) :=
  let tp := dataInfo.tp ii
  if tp.dataRate / daqNumDataBlocks > sysRate then .error s
  else
    let decFactor := sysRate / (tp.dataRate / daqNumDataBlocks)
    let offset := s.1.offsetAccum + sysRate / decFactor * daqDataTypeSize tp.dataType
    let xferInfo := { s.1 with offsetAccum := offset }
    let lt := { s.2 ii with decFactor := decFactor }
    let next := { s.2 (ii + 1) with offset := offset }
    let table := Function.update (Function.update s.2 ii lt) (ii + 1) next
    match setSource daqRange tp.tpnum lt with
    | none => .error (xferInfo, table)
    | some lt => .ok (xferInfo, Function.update table ii lt)

/-- `loadLocalTable`, with the checksum of the configuration file. -/
def loadLocalTable (sysRate : ℕ) (pDxi : DaqXferInfo) (localTable : ℕ → DaqLkupTable)
    (dataInfo : DaqInfoBlock) (daqRange : DaqRange) (configFileCrc : ℕ) :
    Except (DaqXferInfo × (ℕ → DaqLkupTable)) (DaqXferInfo × (ℕ → DaqLkupTable)) :=
  let offset := 4 * dataInfo.numEpicsTotal
  let xferInfo := { pDxi with
    fileCrc := configFileCrc
    totalSize := pDxi.crcLength
    totalSizeNet := pDxi.crcLength
    offsetAccum := offset }
  let table := Function.update localTable 0 { localTable 0 with offset := offset }
  (List.range dataInfo.numChans).foldlM (loadChannel sysRate dataInfo daqRange) (xferInfo, table)

section Write

variable {K : Type} [Zero K] (B : DaqBuild K) (sysRate : ℕ) (daqRange : DaqRange)

/-- `daqWrite` with `DAQ_CONNECT`; `none` is the return of -1. -/
def daqConnect (s : DaqState K) (pInfo : DaqInfoBlock) : Option (DaqState K) :=
  match daqConfig B.maxModules B.cdsEpicsOutInts s.dataInfo pInfo with
  | none => none
  | some (dataInfo, crcLength) =>
    match loadLocalTable sysRate { s.xferInfo with crcLength := crcLength } s.localTable dataInfo
        daqRange pInfo.configFileCrc with
    | .error _ => none
    | .ok (xferInfo, localTable) => some { s with
        daqBlockNum := daqNumDataBlocks - 1
        daqXmitBlockNum := 0
        excBlockNum := 0
        daqSlot := sysRate - 1
        excSlot := 0
        dHistory := fun _ _ => 0
        pWriteBuffer := bufSize * 15
        dataInfo := dataInfo
        xferInfo := xferInfo
        localTable := localTable
        tpStart := xferInfo.offsetAccum
        totalChans := dataInfo.numChans
        tpNum := fun k => if k < daqGdsMaxTpAllowed then 0 else s.tpNum k
        tpNumNet := fun k => if k < daqGdsMaxTpAllowed then 0 else s.tpNumNet k
        validTp := 0
        validTpNet := 0 }

end Write

/-! ## The swing buffer -/

/-- The `n` bytes of a number, the low ones first. -/
def leBytes {w : ℕ} (n : ℕ) (x : BitVec w) : List UInt8 :=
  (List.range n).map fun i => UInt8.ofBitVec (x.extractLsb' (8 * i) 8)

@[simp] theorem length_leBytes {w n : ℕ} (x : BitVec w) : (leBytes n x).length = n := by
  simp [leBytes]

/-- The index of the sample in its array; the exclusive or swaps the samples of a `short`. -/
def sampleIndex (dataType decFactor daqSlot : ℕ) : ℕ :=
  if dataType = daqDatatype16BitInt then (daqSlot / decFactor) ^^^ 1
  else if dataType = daqDatatype32BitInt then daqSlot
  else daqSlot / decFactor

/-- The bytes of a sample as they are written. -/
def sampleSize (dataType : ℕ) : ℕ :=
  if dataType = daqDatatype16BitInt then 2
  else if dataType = daqDatatypeDouble then 8
  else 4

section Cycle

variable {K : Type} (B : DaqBuild K)

def sampleBytes (dataType decFactor : ℕ) (dWord : K) (dHistory : ℕ → K) : List UInt8 :=
  if dataType = daqDatatype16BitInt then leBytes 2 (B.toShort dWord)
  else if dataType = daqDatatypeDouble then leBytes 8 (B.toDouble dWord)
  else if dataType = daqDatatype32BitUint then
    leBytes 4 (if decFactor = 1 then B.toUInt dWord else B.toUInt dWord &&& B.asUInt dHistory)
  else if dataType = daqDatatype32BitInt then leBytes 4 (B.toInt dWord)
  else leBytes 4 (B.toFloat dWord)

@[simp] theorem length_sampleBytes (dataType decFactor : ℕ) (dWord : K) (dHistory : ℕ → K) :
    (sampleBytes B dataType decFactor dWord dHistory).length = sampleSize dataType := by
  unfold sampleBytes sampleSize
  split
  · rfl
  · split
    · rfl
    · split
      · rfl
      · split
        · rfl
        · rfl

variable [Zero K]

/-- The value of the signal of an entry. -/
def readSignal (s : DaqState K) (inp : DaqCall K) (lt : DaqLkupTable) : K :=
  match lt.type with
  | .fmTp =>
    match lt.sigNum with
    | 0 => inp.filterInput lt.fmNum
    | 1 => inp.inputTestpoint lt.fmNum
    | 2 => inp.testpoint lt.fmNum
    | _ => 0
  | .nfmTp => inp.pFloatData lt.sigNum
  | .fmExc => s.exciteInput lt.fmNum
  | .nfmExc => s.excSignal lt.fmNum

variable [Add K] [Sub K] [Mul K]

/-- The decimation filter of the factor, if there is one. -/
def decimate (decFactor : ℕ) (dWord : K) (dHistory : ℕ → K) : K × (ℕ → K) :=
  if decFactor ∈ [2, 4, 8, 16, 32, 64, 128, 256] then
    if B.coreBiquad then iirFilterBiquad (B.dCoeff decFactor) 3 dWord dHistory
    else iirFilter (B.dCoeff decFactor) 3 dWord dHistory
  else (dWord, dHistory)

/-- What the channel `ii` does in a cycle: the history it leaves and the sample it writes. -/
def channelStep (s : DaqState K) (inp : DaqCall K) (ii : ℕ) : (ℕ → K) × Option Write :=
  let lt := s.localTable ii
  let dataType := (s.dataInfo.tp ii).dataType
  let dWord := readSignal s inp lt
  let (dWord, dHistory) :=
    if dataType ≠ daqDatatype32BitUint then decimate B lt.decFactor dWord (s.dHistory ii)
    else (dWord, s.dHistory ii)
  if s.daqSlot % lt.decFactor = 0 then
    (dHistory, some {
      addr := s.pWriteBuffer + lt.offset +
        sampleIndex dataType lt.decFactor s.daqSlot * sampleSize dataType
      bytes := sampleBytes B dataType lt.decFactor dWord dHistory })
  else if dataType = daqDatatype32BitUint then
    (B.withUInt dHistory (if s.daqSlot % lt.decFactor = 1 then B.toUInt dWord
      else B.asUInt dHistory &&& B.toUInt dWord), none)
  else (dHistory, none)

def channelWrites (s : DaqState K) (inp : DaqCall K) : List Write :=
  (List.range s.totalChans).filterMap fun ii => (channelStep B s inp ii).2

/-- The data of a filter module for the DAQ, as floats. -/
def fmFloats (s : DaqState K) (inp : DaqCall K) (ii : ℕ) : List UInt8 :=
  ((List.ofFn fun j => B.toFloat (inp.fmSettings ii j)) ++ [
    B.uintToFloat (inp.swReq ii), B.uintToFloat (inp.swMask ii), B.toFloat (inp.filterInput ii),
    B.toFloat (s.exciteInput ii), B.toFloat (inp.output16Hz ii), B.toFloat (inp.output ii),
    B.uintToFloat (inp.swStatus ii)] : List (BitVec 32)).flatMap (leBytes 4)

/-- The writes of EPICS data, and `pEpicsFloat` behind them. -/
def epicsWrites (s : DaqState K) (inp : DaqCall K) : List Write × ℕ :=
  let info := s.dataInfo
  if s.daqSlot = 0 then
    let ints (off n : ℕ) := bytesAt inp.pEpics off n
    let (n, n') := info.cpyIntSize
    if info.cpyepics2times then
      ([⟨s.pWriteBuffer, ints 0 n⟩, ⟨s.pWriteBuffer + n, ints (n + 4) n'⟩], s.pEpicsFloat)
    else ([⟨s.pWriteBuffer, ints 0 n⟩], s.pEpicsFloat)
  else if s.daqSlot = 1 then
    let double (k : ℕ) := B.loadDouble
      (bytesAt inp.pEpics (info.numEpicsInts * 4 + info.epicsdblDataOffset + 8 * k) 8)
    let pEpicsFloat := s.pWriteBuffer + 4 * info.numEpicsInts
    ([⟨pEpicsFloat, (List.range info.numEpicsFloats).flatMap fun k =>
        leBytes 4 (B.toFloat (double k))⟩], pEpicsFloat + 4 * info.numEpicsFloats)
  else if daqXferCycleFmd ≤ s.daqSlot ∧ s.daqSlot < info.numEpicsFiltXfers then
    let jj := daqXferFmdPerCycle * (s.daqSlot - daqXferCycleFmd)
    let n := if s.daqSlot = info.numEpicsFiltXfers - 1 then info.numEpicsFiltsLast
      else daqXferFmdPerCycle
    ([⟨s.pEpicsFloat, (List.range' jj n).flatMap (fmFloats B s inp)⟩], s.pEpicsFloat + 44 * n)
  else ([], s.pEpicsFloat)

end Cycle

end AdvLigoRts.Drv
