import Mathlib.Data.List.Basic
import Mathlib.Algebra.GroupWithZero.Nat

/-!
# Cards of the IOP and of a control application

The IOP writes a table of its cards to shared memory (`sendIoInfoToMbuf`): ADC cards first, then
DAC cards, then DIO entries. A control application gives the cards it uses local numbers
(`initmap`), looks them up in the table (`mapPciModules`), and compares the number of cards that
it found with the number that it expects (`rtFeInit`). Every use of an index of a fixed array is
checked here (`touch`); the source checks none of them.
-/

namespace AdvLigoRts.Fe

/-! ## The data model -/

/-- The card types of `cdsHardware.h`. -/
inductive CardType
  | gsc16AI64SSA
  | gsc18AISS6C
  | gsc16AO16
  | gsc20AO8
  | con32DO
  | acs16Dio
  | acs8Dio
  | gsc18AI32SSC1M
  | gsc18AO8
  | acs24Dio
  | con1616Dio
  | con6464Dio
  | cdo64
  | cdi64
deriving DecidableEq, Repr

/-- `CDS_CARDS`: the type and the instance of a card. -/
structure CdsCard where
  type : CardType
  inst : ℤ
deriving DecidableEq, Repr

def maxAdcModules : ℕ := 12
def maxDacModules : ℕ := 12
def maxDioModules : ℕ := 8
def maxIoModules : ℕ := 24

/-- The fixed arrays, by the record they are in. -/
inductive CArray
  | adcTable
  | adcMap
  | dacTable
  | dacMap
  | doTable
  | ioModel
  | tdsControl
deriving DecidableEq, Repr

def CArray.size : CArray → ℕ
  | .adcTable => maxAdcModules
  | .adcMap => maxAdcModules
  | .dacTable => maxDacModules
  | .dacMap => maxDacModules
  | .doTable => maxDioModules
  | .ioModel => maxIoModules
  | .tdsControl => 3

/-- An access to entry `i`; it fails if there is no such entry. -/
def touch (a : CArray) (i : ℕ) : Except CArray Unit := if i < a.size then .ok () else .error a

/-- `CDS_HARDWARE`, as far as cards are mapped. -/
structure CdsHardware where
  cardsUsed : List CdsCard := []
  adcCount : ℕ := 0
  adc16Count : ℕ := 0
  adc18Count : ℕ := 0
  adcType : ℕ → CardType := fun _ => .gsc16AI64SSA
  adcInstance : ℕ → ℤ := fun _ => 0
  adcConfig : ℕ → ℤ := fun _ => 0
  adcMap : ℕ → ℕ := fun _ => 0
  dacCount : ℕ := 0
  dac16Count : ℕ := 0
  dac18Count : ℕ := 0
  dac20Count : ℕ := 0
  dacType : ℕ → CardType := fun _ => .gsc16AI64SSA
  dacInstance : ℕ → ℤ := fun _ => 0
  dacConfig : ℕ → ℤ := fun _ => 0
  dacMap : ℕ → ℕ := fun _ => 0
  pciDac : ℕ → ℕ := fun _ => 0
  doCount : ℕ := 0
  dioCount : ℕ := 0
  doType : ℕ → CardType := fun _ => .gsc16AI64SSA
  doInstance : ℕ → ℤ := fun _ => 0
  pciDo : ℕ → ℤ := fun _ => 0
  cDo32lCount : ℕ := 0
  cDio6464lCount : ℕ := 0
  iiroDioCount : ℕ := 0
  iiroDio1Count : ℕ := 0

/-- `IO_MEM_DATA`, as far as cards are mapped. A `model` of `none` is the source's -1. -/
structure IoMemData where
  totalCards : ℕ := 0
  adcCount : ℕ := 0
  dacCount : ℕ := 0
  bioCount : ℕ := 0
  model : ℕ → Option CardType := fun _ => some .gsc16AI64SSA
  card : ℕ → ℤ := fun _ => 0
  ipc : ℕ → ℤ := fun _ => 0

/-! ## The IOP -/

/-- What `send_io_info_to_mbuf` works on. -/
structure SendState where
  ioMemData : IoMemData
  hw : CdsHardware
  tdsControl : ℕ → ℕ := fun _ => 0
  tdsCount : ℕ := 0
  kk : ℕ := 0

namespace SendState

/-- Entry `n` of the table. -/
def store (s : SendState) (n : ℕ) (type : CardType) (inst ipc : ℤ) : SendState :=
  { s with ioMemData := { s.ioMemData with
      model := Function.update s.ioMemData.model n (some type)
      card := Function.update s.ioMemData.card n inst
      ipc := Function.update s.ioMemData.ipc n ipc } }

/-- The body of the loop over the ADC cards. -/
def sendAdc (s : SendState) (ii : ℕ) : Except CArray SendState := do
  touch .adcTable ii
  touch .ioModel ii
  pure (s.store ii (s.hw.adcType ii) (s.hw.adcInstance ii) ii)

/-- The body of the loop over the DAC cards. -/
def sendDac (s : SendState) (ii : ℕ) : Except CArray SendState := do
  touch .dacTable ii
  touch .ioModel s.kk
  let s := s.store s.kk (s.hw.dacType ii) (s.hw.dacInstance ii) s.kk
  pure { s with
    hw := { s.hw with dacConfig := Function.update s.hw.dacConfig ii s.kk }
    kk := s.kk + 1 }

/-- The DIO cards that control the timing are noted on the way. -/
def noteTiming (s : SendState) (ii : ℕ) : Except CArray SendState := do
  if s.hw.doType ii = .con1616Dio then
    touch .tdsControl s.tdsCount
    pure { s with
      tdsControl := Function.update s.tdsControl s.tdsCount ii
      tdsCount := s.tdsCount + 1 }
  else pure s

/-- The body of the loop over the DIO entries. -/
def sendDo (s : SendState) (ii : ℕ) : Except CArray SendState := do
  touch .doTable ii
  let s ← s.noteTiming ii
  touch .ioModel s.kk
  pure { s.store s.kk (s.hw.doType ii) (s.hw.doInstance ii) (s.hw.pciDo ii) with kk := s.kk + 1 }

end SendState

/-- The table without entries. -/
def clearModels (totalcards : ℕ) (hw : CdsHardware) (ioMemData : IoMemData) : IoMemData :=
  { ioMemData with
    model := fun n => if n < maxIoModules then none else ioMemData.model n
    totalCards := totalcards
    adcCount := hw.adcCount
    dacCount := hw.dacCount
    bioCount := hw.doCount }

def sendIoInfoToMbuf (totalcards : ℕ) (hw : CdsHardware) (ioMemData : IoMemData) :
    Except CArray SendState := do
  let s : SendState := { ioMemData := clearModels totalcards hw ioMemData, hw := hw }
  let s ← (List.range hw.adcCount).foldlM SendState.sendAdc s
  let s ← (List.range hw.dacCount).foldlM SendState.sendDac { s with kk := hw.adcCount }
  (List.range hw.doCount).foldlM SendState.sendDo s

/-! ## The control application -/

/-- What `initmap` works on. -/
structure InitState where
  hw : CdsHardware
  dacCnt : ℕ := 0
  adcCnt : ℕ := 0

namespace InitState

/-- Request `i` has become the next local DAC card. -/
def withDac (s : InitState) (r : CdsCard) (i : ℕ) : InitState :=
  { s with
    hw := { s.hw with
      dacType := Function.update s.hw.dacType s.dacCnt r.type
      dacInstance := Function.update s.hw.dacInstance s.dacCnt r.inst
      dacConfig := Function.update s.hw.dacConfig s.dacCnt 0
      dacMap := Function.update s.hw.dacMap i s.dacCnt
      dacCount := s.hw.dacCount + 1
      dac18Count := if r.type = .gsc18AO8 then s.hw.dac18Count + 1 else s.hw.dac18Count
      dac16Count := if r.type = .gsc16AO16 then s.hw.dac16Count + 1 else s.hw.dac16Count
      dac20Count := if r.type = .gsc20AO8 then s.hw.dac20Count + 1 else s.hw.dac20Count }
    dacCnt := s.dacCnt + 1 }

def addDac (s : InitState) (r : CdsCard) (i : ℕ) : Except CArray InitState := do
  touch .dacTable s.dacCnt
  touch .dacMap i
  pure (s.withDac r i)

/-- Request `i` has become the next local ADC card. -/
def withAdc (s : InitState) (r : CdsCard) (i : ℕ) : InitState :=
  { s with
    hw := { s.hw with
      adcType := Function.update s.hw.adcType s.adcCnt r.type
      adcInstance := Function.update s.hw.adcInstance s.adcCnt r.inst
      adcConfig := Function.update s.hw.adcConfig s.adcCnt (-1)
      adcMap := Function.update s.hw.adcMap i s.adcCnt
      adcCount := s.hw.adcCount + 1
      adc16Count := if r.type = .gsc16AI64SSA then s.hw.adc16Count + 1 else s.hw.adc16Count
      adc18Count := if r.type = .gsc18AI32SSC1M then s.hw.adc18Count + 1 else s.hw.adc18Count }
    adcCnt := s.adcCnt + 1 }

def addAdc (s : InitState) (r : CdsCard) (i : ℕ) : Except CArray InitState := do
  touch .adcTable s.adcCnt
  touch .adcMap i
  pure (s.withAdc r i)

/-- The body of the second loop of `initmap`. -/
def addCard (s : InitState) (x : CdsCard × ℕ) : Except CArray InitState :=
  match x.1.type with
  | .gsc18AO8 | .gsc16AO16 | .gsc20AO8 => s.addDac x.1 x.2
  | .gsc16AI64SSA | .gsc18AI32SSC1M => s.addAdc x.1 x.2
  | _ => .ok s

end InitState

/-- The body of the first loop of `initmap`. -/
def clearMaps (hw : CdsHardware) (i : ℕ) : Except CArray CdsHardware := do
  touch .adcMap i
  touch .dacMap i
  pure { hw with
    adcMap := Function.update hw.adcMap i 0
    dacMap := Function.update hw.dacMap i 0 }

def initmap (hw : CdsHardware) : Except CArray CdsHardware := do
  let hw := { hw with adcCount := 0, dacCount := 0, dioCount := 0, doCount := 0 }
  let hw ← (List.range hw.cardsUsed.length).foldlM clearMaps hw
  let s ← hw.cardsUsed.zipIdx.foldlM InitState.addCard { hw := hw }
  pure s.hw

/-- What `mapPciModules` works on. The counters are of the model found behind the table. -/
structure MapState where
  hw : CdsHardware
  status : ℕ := 0
  doCnt : ℕ := 0
  do32Cnt : ℕ := 0
  doIIRO16Cnt : ℕ := 0
  doIIRO8Cnt : ℕ := 0

namespace MapState

/-- Request `jj` is the ADC card at entry `ii`. -/
def mapAdc (io : IoMemData) (jj : ℕ) (m : MapState) (ii : ℕ) : Except CArray MapState := do
  touch .adcMap jj
  touch .adcTable (m.hw.adcMap jj)
  pure { m with
    hw := { m.hw with
      adcConfig := Function.update m.hw.adcConfig (m.hw.adcMap jj) (io.ipc ii) }
    status := m.status + 1 }

/-- Request `jj` is the DAC card at entry `ii`. -/
def mapDac (io : IoMemData) (jj : ℕ) (m : MapState) (ii : ℕ) : Except CArray MapState := do
  touch .dacMap jj
  touch .dacTable (m.hw.dacMap jj)
  pure { m with
    hw := { m.hw with
      dacConfig := Function.update m.hw.dacConfig (m.hw.dacMap jj) (io.ipc ii)
      pciDac := Function.update m.hw.pciDac (m.hw.dacMap jj) ii }
    status := m.status + 1 }

/-- A DIO request is at entry `ii`: it gets the next local number. -/
def mapDo (io : IoMemData) (type : CardType) (doInstance : ℕ → ℤ) (found : ℕ)
    (count : CdsHardware → CdsHardware) (m : MapState) (ii : ℕ) : Except CArray MapState := do
  let kk := m.hw.doCount
  touch .doTable kk
  pure { m with
    hw := count { m.hw with
      doType := Function.update m.hw.doType kk type
      pciDo := Function.update m.hw.pciDo kk (io.ipc ii)
      doInstance := Function.update m.hw.doInstance kk (doInstance kk)
      doCount := m.hw.doCount + 1 }
    status := m.status + found }

/-- The body of the inner loop: request `jj` for the card `r`, entry `ii` of the table. -/
def mapEntry (io : IoMemData) (r : CdsCard) (jj : ℕ) (m : MapState) (ii : ℕ) :
    Except CArray MapState := do
  touch .ioModel ii
  let used (type : CardType) : Bool := r.type = type ∧ r.inst = io.card ii
  let count6464 (hw : CdsHardware) := { hw with cDio6464lCount := hw.cDio6464lCount + 1 }
  match io.model ii with
  | some .gsc16AI64SSA => if used .gsc16AI64SSA then mapAdc io jj m ii else pure m
  | some .gsc18AI32SSC1M => if used .gsc18AI32SSC1M then mapAdc io jj m ii else pure m
  | some .gsc16AO16 => if used .gsc16AO16 then mapDac io jj m ii else pure m
  | some .gsc18AO8 => if used .gsc18AO8 then mapDac io jj m ii else pure m
  | some .gsc20AO8 => if used .gsc20AO8 then mapDac io jj m ii else pure m
  | some .con6464Dio =>
    -- one half of the card, or only its outputs or its inputs
    if used .con6464Dio then mapDo io .con6464Dio (fun _ => m.doCnt) 2 count6464 m ii
    else if used .cdo64 then mapDo io .cdo64 (fun kk => kk) 1 count6464 m ii
    else if used .cdi64 then mapDo io .cdi64 (fun kk => kk) 1 count6464 m ii
    else pure m
  | some .con32DO =>
    if used .con32DO then
      mapDo io .con32DO (fun _ => m.do32Cnt) 1
        (fun hw => { hw with cDo32lCount := hw.cDo32lCount + 1 }) m ii
    else pure m
  | some .acs16Dio =>
    if used .acs16Dio then
      mapDo io .acs16Dio (fun _ => m.doIIRO16Cnt) 1
        (fun hw => { hw with iiroDio1Count := hw.iiroDio1Count + 1 }) m ii
    else pure m
  | some .acs8Dio =>
    if used .acs8Dio then
      mapDo io .acs8Dio (fun _ => m.doIIRO8Cnt) 1
        (fun hw => { hw with iiroDioCount := hw.iiroDioCount + 1 }) m ii
    else pure m
  | _ => pure m

/-- What follows the inner loop, which leaves `ii` at the number of cards. -/
def countModel (io : IoMemData) (m : MapState) : Except CArray MapState := do
  touch .ioModel io.totalCards
  let model := io.model io.totalCards
  pure { m with
    doCnt := if model = some .con6464Dio then m.doCnt + 1 else m.doCnt
    do32Cnt := if model = some .con32DO then m.do32Cnt + 1 else m.do32Cnt
    doIIRO16Cnt := if model = some .acs16Dio then m.doIIRO16Cnt + 1 else m.doIIRO16Cnt
    doIIRO8Cnt := if model = some .acs8Dio then m.doIIRO8Cnt + 1 else m.doIIRO8Cnt }

/-- The body of the outer loop. -/
def mapCard (io : IoMemData) (m : MapState) (x : CdsCard × ℕ) : Except CArray MapState := do
  let m ← (List.range io.totalCards).foldlM (mapEntry io x.1 x.2) m
  m.countModel io

end MapState

/-- `mapPciModules` of an application: the hardware record, and what the call returns. -/
def mapPciModules (io : IoMemData) (hw : CdsHardware) : Except CArray (CdsHardware × ℕ) := do
  let m ← hw.cardsUsed.zipIdx.foldlM (MapState.mapCard io) { hw := hw }
  pure (m.hw, m.status)

/-- What a requested card adds to `cards2map`. -/
def expectedCount : CardType → ℕ
  | .gsc16AI64SSA | .gsc18AI32SSC1M => 1
  | .gsc18AO8 | .gsc16AO16 | .gsc20AO8 => 1
  | .con6464Dio => 2
  | .con1616Dio | .cdi64 | .cdo64 | .acs8Dio | .con32DO => 1
  | _ => 0

/-- What `rt_fe_init` of an application makes of its cards. -/
structure FeInit where
  hw : CdsHardware
  /-- The call returns -5 here, as there is no ADC card. -/
  noAdc : Bool
  cardCountErr : Bool

/-- `rt_fe_init` of an application, as far as cards are mapped. -/
def rtFeInit (cardsUsed : List CdsCard) (io : IoMemData) : Except CArray FeInit := do
  let cards2map := (cardsUsed.map fun r => expectedCount r.type).sum
  let hw ← initmap { cardsUsed := cardsUsed }
  let (hw, status) ← mapPciModules io hw
  if hw.adcCount = 0 then pure ⟨hw, true, false⟩
  else pure ⟨hw, false, status ≠ cards2map⟩

end AdvLigoRts.Fe
