import AdvLigoRts.Drv.DaqLib

/-!
# `daqWrite`

The code cycle of `daqLib.c`: behind the swing buffer come the excitations and, at the end of a
sixteenth of a second, the announcement of the block, the reconfiguration, the look at the GDS
tables and the lists for the network. `daqWrite` puts them together.
-/

namespace AdvLigoRts.Drv

open PvLib

variable {K : Type} [Zero K]

/-! ## Excitations -/

/-- The body of the loop over the excitations, on the entry `ii`. -/
def readExc (inp : DaqCall K) (s : DaqState K) (ii : ℕ) : DaqState K :=
  let lt := s.localTable ii
  if lt.type.isExc then
    let set := inp.excStatus s.excBlockNum lt.sigNum = 0
    let s := if set then { s with validEx := feErrorExcSet } else s
    let value := if set then inp.excData s.excBlockNum lt.sigNum s.excSlot else 0
    if lt.type = .fmExc then
      { s with exciteInput := Function.update s.exciteInput lt.fmNum value }
    else { s with excSignal := Function.update s.excSignal lt.fmNum value }
  else s

/-- Read the selected excitations for the next cycle. -/
def readExcs (sysRate : ℕ) (s : DaqState K) (inp : DaqCall K) : DaqState K :=
  let s := { s with excSlot := (s.excSlot + 1) % sysRate, validEx := 0 }
  let s := (List.range' s.dataInfo.numChans (s.totalChans - s.dataInfo.numChans)).foldl
    (readExc inp) s
  if s.excSlot = sysRate - 1 then
    { s with excBlockNum := (s.excBlockNum + 1) % daqNumDataBlocks }
  else s

/-! ## The end of a block -/

/-- The block is announced, and the next one is begun. -/
def announce (s : DaqState K) : DaqState K :=
  let n := s.daqXmitBlockNum
  let dipc := { s.dipc with
    crc := s.xferInfo.fileCrc
    dataBlockSize := s.xferInfo.totalSizeNet
    bpCycle := Function.update s.dipc.bpCycle n n
    bpCrc := Function.update s.dipc.bpCrc n s.xferInfo.crcLength
    cycle := n }
  let tpPtr := {
    count := s.validTpNet ||| s.validEx
    tpNum := fun k => if k < s.validTp then s.tpNumNet k else s.tpPtr.tpNum k }
  let next := (n + 1) % daqNumDataBlocks
  { s with
    dipc := dipc
    tpPtr := tpPtr
    daqBlockNum := (s.daqBlockNum + 1) % daqNumDataBlocks
    daqXmitBlockNum := next
    pWriteBuffer := bufSize * next }

section Reconfigure

variable (B : DaqBuild K) (sysRate : ℕ) (daqRange : DaqRange)

/-- A new configuration is loaded. The returns of -1 are not looked at. -/
def reconfigure (s : DaqState K) (pInfo : DaqInfoBlock) : DaqState K :=
  let config := daqConfig B.maxModules B.cdsEpicsOutInts s.dataInfo pInfo
  let (dataInfo, crcLength) : DaqInfoBlock × ℤ := match config with
    | none => (s.dataInfo, -1)
    | some (dataInfo, len) => (dataInfo, len)
  let xferInfo := { s.xferInfo with crcLength := crcLength }
  if crcLength ≠ 0 then
    let (xferInfo, localTable) := match loadLocalTable sysRate xferInfo s.localTable dataInfo
        daqRange pInfo.configFileCrc with
      | .error t => t
      | .ok t => t
    { s with
      dataInfo := dataInfo
      xferInfo := xferInfo
      localTable := localTable
      dHistory := fun k => if k < dataInfo.numChans then fun _ => 0 else s.dHistory k
      tpStart := xferInfo.offsetAccum
      totalChans := dataInfo.numChans }
  else { s with dataInfo := dataInfo, xferInfo := xferInfo }

/-- The local copies of the tables of test points and excitations. -/
structure GdsLists where
  tpnum : ℕ → ℕ
  excnum : ℕ → ℕ

/-- The loop of `in_the_lists`. -/
def inTheListsFrom (excTable : ℕ → DaqExc) (tp slot : ℕ) (l : GdsLists) :
    List ℕ → Bool × GdsLists
  | [] => (false, l)
  | i :: is =>
    if l.tpnum i = tp then (true, { l with tpnum := Function.update l.tpnum i 0 })
    else if l.excnum i = tp then
      if i ≠ (excTable slot).offset then (false, l)
      else (true, { l with excnum := Function.update l.excnum i 0 })
    else inTheListsFrom excTable tp slot l is

/-- `in_the_lists`: the number is found, and it is cleared from the lists. -/
def inTheLists (excTable : ℕ → DaqExc) (tp slot : ℕ) (l : GdsLists) : Bool × GdsLists :=
  inTheListsFrom excTable tp slot l (List.range daqGdsMaxTpAllowed)

/-- The entry of a slot without a number. -/
def DaqLkupTable.clear (lt : DaqLkupTable) : DaqLkupTable :=
  { lt with type := .fmTp, sysNum := 0, fmNum := 0, sigNum := 0, decFactor := 1 }

/-- `dataInfo` with the channel `k` as a float. -/
def DaqInfoBlock.setFloat (info : DaqInfoBlock) (k : ℕ) : DaqInfoBlock :=
  { info with tp := Function.update info.tp k { info.tp k with dataType := daqDatatypeFloat } }

/-- A deselected number leaves its slot `i`. -/
def deselectSlot (s : DaqState K) (i : ℕ) : DaqState K :=
  let ltSlot := s.dataInfo.numChans + i
  let lt := s.localTable ltSlot
  let fm := (s.excTable i).fmNum
  let exc := Function.update s.excTable i { s.excTable i with sigNum := 0 }
  let s := match lt.type with
    | .fmExc => { s with exciteInput := Function.update s.exciteInput fm 0, excTable := exc }
    | .nfmExc => { s with excSignal := Function.update s.excSignal fm 0, excTable := exc }
    | _ => s
  { s with
    tpNum := Function.update s.tpNum i 0
    localTable := Function.update s.localTable ltSlot lt.clear
    dataInfo := s.dataInfo.setFloat ltSlot }

/-- The body of the loop that clears deselected numbers. -/
def deselect (s : DaqState K × GdsLists) (i : ℕ) : DaqState K × GdsLists :=
  if s.1.tpNum i = 0 then s
  else
    let (found, l) := inTheLists s.1.excTable (s.1.tpNum i) i s.2
    if found then (s.1, l) else (deselectSlot s.1 i, l)

def emptySlot (tpNum : ℕ → ℕ) : Option ℕ :=
  (List.range daqGdsMaxTpAllowed).find? fun i => tpNum i = 0

/-- The slot gets a number and an entry for it. -/
def DaqState.putSlot (s : DaqState K) (slot tpn : ℕ) (lt : DaqLkupTable → DaqLkupTable) :
    DaqState K :=
  let ltSlot := s.dataInfo.numChans + slot
  { s with
    localTable := Function.update s.localTable ltSlot (lt (s.localTable ltSlot))
    dataInfo := s.dataInfo.setFloat ltSlot
    tpNum := Function.update s.tpNum slot tpn }

/-- A new test point number, in the empty slot. -/
def selectTp (s : DaqState K) (slot tpn : ℕ) : DaqState K :=
  if daqRange.filtTpMin ≤ tpn ∧ tpn < daqRange.filtTpMax then
    let jj := tpn - daqRange.filtTpMin
    let sysNum := jj / daqRange.filtTpSize
    let jj := jj - sysNum * daqRange.filtTpSize
    s.putSlot slot tpn fun lt => { lt with
      type := .fmTp, sysNum := sysNum, fmNum := jj / daqNumFmTp, sigNum := jj % daqNumFmTp,
      decFactor := 1 }
  else if daqRange.xTpMin ≤ tpn ∧ tpn < daqRange.xTpMax then
    s.putSlot slot tpn fun lt => { lt with
      type := .nfmTp, sigNum := tpn - daqRange.xTpMin, decFactor := 1 }
  else s

/-- A new excitation number from the place `ii` of its list, in the empty slot. -/
def selectExc (s : DaqState K) (slot tpn ii : ℕ) : DaqState K :=
  let put (src : DaqSrc) (sysNum fmNum : ℕ) : DaqState K :=
    let exc := { sigNum := tpn, sysNum := sysNum, fmNum := fmNum, offset := ii }
    let s := { s with excTable := Function.update s.excTable slot exc }
    s.putSlot slot tpn fun lt => { lt with
      type := src, sysNum := sysNum, fmNum := fmNum, sigNum := ii, decFactor := 1 }
  if daqRange.filtExMin ≤ tpn ∧ tpn < daqRange.filtExMax then
    let jj := tpn - daqRange.filtExMin
    put .fmExc (jj / daqRange.filtExSize) (jj % daqRange.filtExSize)
  else if daqRange.xExMin ≤ tpn ∧ tpn < daqRange.xExMax then put .nfmExc 0 (tpn - daqRange.xExMin)
  else s

/-- The loop that puts new numbers into empty slots, over the places of both lists; it ends when
no slot is empty. -/
def selectNew (l : GdsLists) (s : DaqState K) : List ℕ → DaqState K
  | [] => s
  | i :: is =>
    let exc := i ≥ daqGdsMaxTpAllowed
    let tpn := if exc then l.excnum (i - daqGdsMaxTpAllowed) else l.tpnum i
    if tpn = 0 then selectNew l s is
    else
      match emptySlot s.tpNum with
      | none => s
      | some slot =>
        let s := if exc then selectExc daqRange s slot tpn (i - daqGdsMaxTpAllowed)
          else selectTp daqRange s slot tpn
        selectNew l s is

/-- The number of slots up to the last one in use, of the first `n`. -/
def numTps (tpNum : ℕ → ℕ) : ℕ → ℕ
  | 0 => 0
  | n + 1 => if tpNum n ≠ 0 then n + 1 else numTps tpNum n

/-- The offset of the slot `i` is assigned. -/
def assignOffset (s : DaqState K) (i : ℕ) : DaqState K :=
  let ltSlot := s.dataInfo.numChans + i
  let lt := { s.localTable ltSlot with offset := s.xferInfo.offsetAccum }
  let xferInfo := { s.xferInfo with offsetAccum := s.xferInfo.offsetAccum + sysRate * 4 }
  { s with localTable := Function.update s.localTable ltSlot lt, xferInfo := xferInfo }

/-- The sizes and offsets of the slots up to the last one in use. -/
def countTps (s : DaqState K) : DaqState K :=
  let validTp := numTps s.tpNum daqGdsMaxTpAllowed
  let xferInfo := { s.xferInfo with
    totalSize := s.xferInfo.crcLength + validTp * sysRate * 4
    offsetAccum := s.tpStart }
  let s := { s with
    totalChans := s.dataInfo.numChans + validTp, validTp := validTp, xferInfo := xferInfo }
  (List.range validTp).foldl (assignOffset sysRate) s

/-- The local copies of the GDS tables, which for the 2K systems are one further. -/
def gdsLists (inp : DaqCall K) : GdsLists :=
  let offs := if sysRate < daq16kSampleSize then 1 else 0
  { excnum := inp.gdsTp offs, tpnum := inp.gdsTp (2 + offs) }

/-- The slots as the look at the GDS tables leaves them, before they are counted. -/
def updateSlots (s : DaqState K) (inp : DaqCall K) : DaqState K :=
  let r := (List.range daqGdsMaxTpAllowed).foldl deselect (s, gdsLists sysRate inp)
  selectNew daqRange r.2 r.1 (List.range (2 * daqGdsMaxTpAllowed))

/-- The look at the GDS tables, once a second. -/
def checkTps (s : DaqState K) (inp : DaqCall K) : DaqState K :=
  countTps sysRate (updateSlots sysRate daqRange s inp)

/-- The lists and sizes for the network. -/
def updateNet (s : DaqState K) : DaqState K :=
  { s with
    tpNumNet := fun k => if k < s.validTp then s.tpNum k else s.tpNumNet k
    validTpNet := s.validTp
    xferInfo := { s.xferInfo with totalSizeNet := s.xferInfo.totalSize } }

def endBlock (s : DaqState K) (inp : DaqCall K) : DaqState K :=
  let s := announce s
  let s := if inp.reconfig = 1 ∧ s.daqBlockNum = 0 then reconfigure B sysRate daqRange s inp.pInfo
    else s
  let s := if s.daqBlockNum = 15 then checkTps sysRate daqRange s inp else s
  if s.daqBlockNum = 0 then updateNet s else s

variable [Add K] [Sub K] [Mul K]

/-- The cycle up to the excitations: the samples and EPICS data are written. -/
def writeCycle (s : DaqState K) (inp : DaqCall K) : DaqState K :=
  let s := { s with daqSlot := (s.daqSlot + 1) % sysRate }
  let (epics, pEpicsFloat) := epicsWrites B s inp
  { s with
    mem := applyWrites s.mem (channelWrites B s inp ++ epics)
    dHistory := fun ii => if ii < s.totalChans then (channelStep B s inp ii).1 else s.dHistory ii
    pEpicsFloat := pEpicsFloat }

/-- `daqWrite` with `DAQ_WRITE`. -/
def daqWrite (s : DaqState K) (inp : DaqCall K) : DaqState K :=
  let s := readExcs sysRate (writeCycle B sysRate s inp) inp
  if s.daqSlot = sysRate - 1 then endBlock B sysRate daqRange s inp else s

/-- The cycles with these arguments, in order. -/
def cycles (s : DaqState K) (inps : List (DaqCall K)) : DaqState K :=
  inps.foldl (daqWrite B sysRate daqRange) s

end Reconfigure

end AdvLigoRts.Drv
