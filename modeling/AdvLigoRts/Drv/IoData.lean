import AdvLigoRts.Fe.CardMap
import Mathlib.Algebra.Group.Int.Defs

/-!
# The shared memory blocks of the DAC cards

The IOP and the applications exchange samples in the blocks `iodata` of the shared memory, one
block for each card, with a slot for each of the last `ioMemorySlots` clocks. An application
writes the values of its channels and then the cycle count (`appDacWrite`); the IOP takes the
values of a slot that has the right count (`iopDacWrite`). The upsampling filter is floating
point, so the values that come out of it are arguments here.
-/

namespace AdvLigoRts.Drv

open Fe (CardType)

def ioMemorySlots : ℕ := 4096
def dacStartCycle : ℕ := 4

/-- `MEM_DATA_BLOCK`. -/
structure MemDataBlock where
  timeSec : ℤ := 0
  cycle : ℤ := 0
  data : ℕ → ℤ := fun _ => 0

/-- `iodata`: the slots of the blocks. -/
abbrev IoData := ℕ → ℕ → MemDataBlock

def IoData.modify (io : IoData) (mm slot : ℕ) (f : MemDataBlock → MemDataBlock) : IoData :=
  Function.update io mm (Function.update (io mm) slot (f (io mm slot)))

/-! ## The DAC cards -/

/-- `limit`, as both sides choose it. -/
def overflowLimit : CardType → ℤ
  | .gsc18AO8 => 131060
  | .gsc20AO8 => 512240
  | _ => 32760

/-- `mask`, by its number of bits. -/
def maskBits : CardType → ℕ
  | .gsc18AO8 => 18
  | .gsc20AO8 => 21
  | _ => 16

def numOuts : CardType → ℕ
  | .gsc18AO8 => 8
  | .gsc20AO8 => 8
  | _ => 16

/-- The check for an overflow. -/
def clip (limit v : ℤ) : ℤ :=
  if v > limit ∨ v < -limit then if v > limit then limit else -limit else v

/-- The DAC cards of an IOP, and who has reserved which of their channels. -/
structure DacHardware (ι : Type) where
  adcCount : ℕ
  dacCount : ℕ
  dacType : ℕ → CardType
  iopIoRate : ℕ
  /-- The application that uses a channel of a card. -/
  owner : ℕ → ℕ → Option ι

namespace DacHardware

variable {ι : Type} (B : DacHardware ι)

def dacConfig (card : ℕ) : ℕ := B.adcCount + card
def limit (card : ℕ) : ℤ := overflowLimit (B.dacType card)
def outs (card : ℕ) : ℕ := numOuts (B.dacType card)

end DacHardware

/-! ## The application -/

/-- One store of `app_dac_write` into the block of a card. -/
inductive DacStore
  | data (card memCtr chan : ℕ) (dacOut : ℤ)
  | cycle (card memCtr ioClk : ℕ)
deriving DecidableEq

/-- A call of `app_dac_write`. -/
structure AppDacCall where
  /-- The cards that the application has found. -/
  cards : List ℕ
  oversampleTimes : ℕ
  iopDacEnable : Bool
  dacIn : ℕ → ℕ → ℕ → ℤ

section App

variable {ι : Type} [DecidableEq ι] (B : DacHardware ι) (app : ι) (call : AppDacCall)
  (ioMemCtrDac ioClkDac : ℕ)

/-- The stores of one pass over the channels of a card. -/
def appDacSlot (card kk : ℕ) : List DacStore :=
  let memCtr := (ioMemCtrDac + kk) % ioMemorySlots
  ((List.range (B.outs card)).filter fun ii => B.owner card ii = some app).map (fun ii =>
      let dacOut := clip (B.limit card) (call.dacIn card kk ii)
      .data card memCtr ii (if call.iopDacEnable then dacOut else 0)) ++
    if call.iopDacEnable then [.cycle card memCtr ((ioClkDac + kk) % B.iopIoRate)] else []

/-- `app_dac_write`: its stores in their order, each with the number of its pass. -/
def appDacWrite : List (ℕ × DacStore) :=
  call.cards.flatMap fun card => (List.range call.oversampleTimes).flatMap fun kk =>
    (appDacSlot B app call ioMemCtrDac ioClkDac card kk).map fun st => (kk, st)

/-- A store reaches the shared memory. -/
def DacStore.exec (io : IoData) : DacStore → IoData
  | .data card memCtr chan dacOut =>
    io.modify (B.dacConfig card) memCtr
      fun b => { b with data := Function.update b.data chan dacOut }
  | .cycle card memCtr ioClk =>
    io.modify (B.dacConfig card) memCtr fun b => { b with cycle := ioClk }

end App

/-! ## The IOP -/

/-- What `iop_dac_write` and `dac_status_update` work on. -/
structure IopDac where
  iodata : IoData := fun _ _ => {}
  ioClockDac : ℕ := 0
  ioMemCntrDac : ℕ := 0
  dacWriteEnable : ℕ := 0
  dacEnable : ℕ → Bool := fun _ => false
  dacChanErr : ℕ → ℕ := fun _ => 0
  dacOF : ℕ → Bool := fun _ => false
  dacOutLast : ℕ → ℕ → ℤ := fun _ _ => 0
  dacData : ℕ → ℕ → ℤ := fun _ _ => 0
  statTiming : ℕ → Bool := fun _ => false
  statOverflow : ℕ → Bool := fun _ => false
  /-- What the last call of `iop_dac_write` has returned. -/
  dkiTrip : Bool := false

/-- What the IOP finds at a call of `iop_dac_write`: whether the outputs are enabled, and the
signal that replaces the last channel of the first card if that is asked for. -/
structure IopDacCall where
  inDelay : ℕ := 0
  iopDacEnable : Bool := true
  dacDuoEnable : Bool := false
  duotone : ℤ := 0

namespace IopDac

variable {ι : Type} (B : DacHardware ι)

def slot (s : IopDac) (card : ℕ) : MemDataBlock := s.iodata (B.dacConfig card) s.ioMemCntrDac

/-- The application has set the right cycle count in time. -/
def stamped (s : IopDac) (inp : IopDacCall) (card : ℕ) : Bool :=
  (s.slot B card).cycle = s.ioClockDac ∨ inp.inDelay = 1

def checkCycle (s : IopDac) (inp : IopDacCall) (card : ℕ) : IopDac :=
  if s.stamped B inp card then { s with dacEnable := Function.update s.dacEnable card true }
  else { s with
    dacEnable := Function.update s.dacEnable card false
    dacChanErr := Function.update s.dacChanErr card (s.dacChanErr card + 1) }

/-- The values of the slot are used, and taken out of it. -/
def uses (s : IopDac) (inp : IopDacCall) (card : ℕ) : Bool :=
  s.dacChanErr card = 0 ∧ inp.iopDacEnable

/-- `dac_out` of a channel, before it is checked for an overflow. -/
def dacIn (s : IopDac) (inp : IopDacCall) (card chan : ℕ) : ℤ :=
  if inp.dacDuoEnable ∧ chan + 1 = B.outs card ∧ card = 0 then inp.duotone
  else if s.uses inp card then
    if inp.inDelay = 0 then (s.slot B card).data chan else s.dacOutLast card chan
  else 0

/-- `dac_out` of a channel. -/
def dacOut (s : IopDac) (inp : IopDacCall) (card chan : ℕ) : ℤ :=
  if inp.iopDacEnable then clip (B.limit card) (s.dacIn B inp card chan) else 0

/-- The loop over the channels of a card, and the slot after it. -/
def writeChannels (s : IopDac) (inp : IopDacCall) (card : ℕ) : IopDac :=
  let out (old : ℕ → ℤ) (chan : ℕ) : ℤ :=
    if chan < B.outs card then s.dacOut B inp card chan else old chan
  { s with
    dkiTrip := s.dkiTrip || !s.uses inp card
    dacOF := Function.update s.dacOF card (s.dacOF card ||
      (List.range (B.outs card)).any fun chan =>
        s.dacIn B inp card chan > B.limit card ∨ s.dacIn B inp card chan < -B.limit card)
    dacOutLast := Function.update s.dacOutLast card (out (s.dacOutLast card))
    dacData := Function.update s.dacData card fun chan =>
      if chan < B.outs card then s.dacOut B inp card chan % 2 ^ maskBits (B.dacType card)
      else s.dacData card chan
    iodata := s.iodata.modify (B.dacConfig card) s.ioMemCntrDac fun b =>
      { b with
        data := fun chan => if s.uses inp card ∧ chan < B.outs card then 0 else b.data chan
        cycle := -1 } }

/-- The body of the loop over the cards. -/
def writeCard (inp : IopDacCall) (s : IopDac) (card : ℕ) : IopDac :=
  (s.checkCycle B inp card).writeChannels B inp card

/-- The call goes through the cards. -/
def writes (s : IopDac) (inp : IopDacCall) : Bool :=
  s.dacWriteEnable > dacStartCycle ∧ inp.inDelay < 2

/-- The loop over the cards. -/
def writeCards (s : IopDac) (inp : IopDacCall) : IopDac :=
  if s.writes inp then (List.range B.dacCount).foldl (writeCard B inp) { s with dkiTrip := false }
  else { s with dkiTrip := false }

def iopDacWrite (s : IopDac) (inp : IopDacCall) : IopDac :=
  let s := s.writeCards B inp
  { s with
    ioClockDac := (s.ioClockDac + 1) % B.iopIoRate
    ioMemCntrDac := (s.ioMemCntrDac + 1) % ioMemorySlots
    dacWriteEnable := if s.dacWriteEnable < 10 then s.dacWriteEnable + 1 else s.dacWriteEnable }

def dacStatusUpdate (s : IopDac) : IopDac :=
  { s with
    statOverflow := fun jj => if jj < B.dacCount then !s.dacOF jj else s.statOverflow jj
    statTiming := fun jj => if jj < B.dacCount then s.dacChanErr jj = 0 else s.statTiming jj
    dacOF := fun jj => if jj < B.dacCount then false else s.dacOF jj
    dacChanErr := fun jj => if jj < B.dacCount then 0 else s.dacChanErr jj }

end IopDac

end AdvLigoRts.Drv
