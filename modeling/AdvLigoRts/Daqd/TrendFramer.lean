import AdvLigoRts.Daqd.TrendBlock
import Mathlib.Algebra.Order.Ring.Nat

/-!
# The trend framers

`trender_c::framer` and `trender_c::minute_framer` collect the blocks of `tb` and of `mtb` in the
arrays of a frame, one array for each suffix of a channel, and write the frame when its last slot is
filled. The arrays are allocated once, with whatever was in memory, and used for all frames. The
two functions have a loop of their own each, and differ in their constants and in that only one of
them zeroes the slots for which no data is received.
-/

namespace AdvLigoRts.Daqd

/-- The numbers in which the two functions differ. -/
structure TrendFramer where
  /-- `frame_length_blocks` -/
  frameLengthBlocks : ℕ
  /-- The seconds of a block. -/
  slotSecs : ℕ
  /-- Frames begin at the multiples of this. -/
  alignSecs : ℕ
  /-- The third argument of `update_dir`. -/
  registeredSecs : ℕ
  /-- The last argument of `getDirFileNames`. -/
  namedSecs : ℕ
  /-- Missing data is zeroed. -/
  zeroes : Bool
  blocks_pos : 0 < frameLengthBlocks
  slot_pos : 0 < slotSecs
  align_eq : alignSecs = slotSecs * frameLengthBlocks
  registered_pos : 0 < registeredSecs
  registered_le : registeredSecs ≤ namedSecs

/-- `framer`, where `tb` has `blocks` blocks. -/
def TrendFramer.framer (blocks : ℕ) (h : 0 < blocks) : TrendFramer where
  frameLengthBlocks := blocks
  slotSecs := 1
  alignSecs := blocks
  registeredSecs := blocks
  namedSecs := blocks
  zeroes := true
  blocks_pos := h
  slot_pos := Nat.one_pos
  align_eq := (Nat.one_mul blocks).symm
  registered_pos := h
  registered_le := le_refl blocks

/-- `minute_framer`: `mtb` has `SECPERMIN` blocks. -/
def TrendFramer.minuteFramer : TrendFramer where
  frameLengthBlocks := 60
  slotSecs := 60
  alignSecs := 3600
  registeredSecs := 60
  namedSecs := 60 * 60
  zeroes := false
  blocks_pos := by decide
  slot_pos := by decide
  align_eq := rfl
  registered_pos := by decide
  registered_le := by decide

/-! ## Trend channels -/

/-- The suffixes of the trend channels, in their order. -/
inductive TrendSuffix
  | min
  | max
  | n
  | rms
  | mean
deriving DecidableEq, Repr

/-- What a slot of an array holds. -/
inductive TrendValue (R : Type)
  | word (bits : ℕ)
  | double (x : R)

namespace TrendSuffix

/-- `trender_c::bps`, which is set for three types only. -/
def bps : TrendSuffix → DaqDataT → ℕ
  | .min, .int16 | .max, .int16 | .n, .int16 => 4
  | .min, .float32 | .max, .float32 | .n, .float32 => 4
  | .min, .double64 | .max, .double64 => 8
  | .n, .double64 => 4
  | .rms, .int16 | .rms, .float32 | .rms, .double64 => 8
  | .mean, .int16 | .mean, .float32 | .mean, .double64 => 8
  | _, _ => 0

/-- The size of a value in the array of the trend channel. -/
def size : TrendSuffix → DaqDataT → ℕ
  | .min, .double64 | .max, .double64 => 8
  | .min, _ | .max, _ | .n, _ => 4
  | .rms, _ | .mean, _ => 8

variable {R : Type}

def zero [Zero R] : TrendSuffix → TrendValue R
  | .min | .max | .n => .word 0
  | .rms | .mean => .double 0

/-- What is copied from the block of a channel whose member is `k`. -/
def sample (k : TrendMember) (b : TrendBlock R) : TrendSuffix → TrendValue R
  | .min => .word (b.min.bits k)
  | .max => .word (b.max.bits k)
  | .n => .word b.n.toUInt32.toNat
  | .rms => .double b.rms
  | .mean => .double b.mean

end TrendSuffix

/-! ## The loop -/

structure TrendChannels where
  numChannels : ℕ
  dataType : ℕ → DaqDataT

/-- The arrays of a frame, by channel, suffix and slot. -/
abbrev TrendArrays (R : Type) := ℕ → TrendSuffix → ℕ → TrendValue R

structure TrendFrame (R : Type) where
  gps : ℕ
  adc : TrendArrays R

/-- The state between two blocks: the next slot, which is 0 where a new frame begins, the start of
the frame, its arrays, and what has been written. -/
structure FramerState (R : Type) where
  i : ℕ
  fileGps : ℕ
  adc : TrendArrays R
  frames : List (TrendFrame R)

section

variable {R : Type} [Zero R]

/-- `memset( adc_ptr[ j ], 0, gps_mod * trend_channels[ j ].bps )` for all trend channels. -/
def zeroMissing (c : TrendChannels) (gpsMod : ℕ) (adc : TrendArrays R) : TrendArrays R :=
  fun j r i =>
    if j < c.numChannels ∧ (i + 1) * r.size (c.dataType j) ≤ gpsMod * r.bps (c.dataType j) then
      r.zero
    else adc j r i

/-- The copies from a block to slot `i`. -/
def storeBlock (c : TrendChannels) (i : ℕ) (blk : ℕ → TrendBlock R) (adc : TrendArrays R) :
    TrendArrays R := fun j r k =>
  if j < c.numChannels ∧ k = i then r.sample (.ofType (c.dataType j)) (blk j) else adc j r k

/-- The slot of the next block: the first one of a frame may go to a later slot. -/
def blockSlot (f : TrendFramer) (s : FramerState R) (gps : ℕ) : ℕ :=
  if s.i = 0 then gps % f.alignSecs / f.slotSecs else s.i

/-- `file_prop.gps`, which is taken from the first block of a frame, and aligned. -/
def blockFileGps (f : TrendFramer) (s : FramerState R) (gps : ℕ) : ℕ :=
  if s.i = 0 then gps - gps % f.alignSecs else s.fileGps

def blockArrays (f : TrendFramer) (c : TrendChannels) (s : FramerState R) (gps : ℕ) :
    TrendArrays R :=
  if s.i = 0 ∧ f.zeroes then zeroMissing c (gps % f.alignSecs) s.adc else s.adc

/-- What the loops do with the next block. -/
def framerBlock (f : TrendFramer) (c : TrendChannels) (s : FramerState R) (gps : ℕ)
    (blk : ℕ → TrendBlock R) : FramerState R :=
  let i := blockSlot f s gps
  let fileGps := blockFileGps f s gps
  let adc := storeBlock c i blk (blockArrays f c s gps)
  if i + 1 < f.frameLengthBlocks then { s with i := i + 1, fileGps, adc }
  else { i := 0, fileGps, adc, frames := s.frames ++ [⟨fileGps, adc⟩] }

/-- The function on the first `n` blocks of a stream that begins at `gps`; `memory` is what the
arrays hold when they are allocated. -/
def framerRun (f : TrendFramer) (c : TrendChannels) (memory : TrendArrays R) (gps : ℕ)
    (blocks : ℕ → ℕ → TrendBlock R) (n : ℕ) : FramerState R :=
  (List.range n).foldl (fun s m => framerBlock f c s (gps + m * f.slotSecs) (blocks m))
    ⟨0, 0, memory, []⟩

end

end AdvLigoRts.Daqd
