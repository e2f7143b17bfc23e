import AdvLigoRts.Lib.Extremum
import Mathlib.Order.Lattice

/-!
# `trend_block_t`

What the threads of `trender_c` pass on for a channel. The least and the largest value are unions
of an `int`, an `unsigned int`, a `float` and a `double`, kept here as two words; floating-point
numbers are compared by their bits. The arithmetic of `double` is left open.
-/

namespace AdvLigoRts.Daqd

open PvLib

/-- `daq_data_t`. -/
inductive DaqDataT
  | undefined
  | int16
  | int32
  | int64
  | float32
  | double64
  | complex32
  | uint32
deriving DecidableEq, Repr

/-- The union in `trend_block_t`: the word that `I`, `U` and `F` share with the low one of `D`, and
the high word of `D`. -/
structure TrendUnion where
  lo : UInt32 := 0
  hi : UInt32 := 0
deriving DecidableEq, Repr

/-- `trend_block_t`. -/
structure TrendBlock (R : Type) where
  min : TrendUnion
  max : TrendUnion
  n : Int32
  rms : R
  mean : R

def TrendBlock.zero {R : Type} [Zero R] : TrendBlock R := ⟨{}, {}, 0, 0, 0⟩

/-! ## Floating-point numbers as bits -/

/-- The number without its sign, for a format of `n` bits. -/
def floatMagnitude (n x : ℕ) : ℕ := x % 2 ^ (n - 1)

/-- Numbers in their order, the two zeros being one. -/
def floatKey (n x : ℕ) : ℤ :=
  if x / 2 ^ (n - 1) = 1 then -(floatMagnitude n x) else floatMagnitude n x

/-- `<` on numbers of `n` bits, of which `inf` is infinity: a NaN is not less than anything, and
nothing is less than it. -/
def FloatLt (n inf x y : ℕ) : Prop :=
  (floatMagnitude n x ≤ inf ∧ floatMagnitude n y ≤ inf) ∧ floatKey n x < floatKey n y

instance (n inf x y : ℕ) : Decidable (FloatLt n inf x y) := by
  unfold FloatLt
  infer_instance

theorem strictLess_floatLt (n inf : ℕ) : StrictLess (FloatLt n inf) where
  irrefl := fun _ h => lt_irrefl _ h.2
  trans := fun _ _ _ hab hbc => ⟨⟨hab.1.1, hbc.1.2⟩, lt_trans hab.2 hbc.2⟩

/-! ## The member of a type -/

/-- The member of the union that a channel uses. -/
inductive TrendMember
  | I
  | D
  | F
  | U
deriving DecidableEq, Repr

/-- The member that `minute_trend` compares. -/
def TrendMember.ofType : DaqDataT → TrendMember
  | .double64 => .D
  | .float32 => .F
  | .uint32 => .U
  | _ => .I

namespace TrendUnion

def bits (u : TrendUnion) : TrendMember → ℕ
  | .D => u.hi.toNat * 2 ^ 32 + u.lo.toNat
  | _ => u.lo.toNat

/-- `a.M < b.M` for a member `M`, on its bits. -/
def LtBits : TrendMember → ℕ → ℕ → Prop
  | .I, x, y => (UInt32.ofNat x).toInt32.toInt < (UInt32.ofNat y).toInt32.toInt
  | .U, x, y => x < y
  | .F, x, y => FloatLt 32 0x7f800000 x y
  | .D, x, y => FloatLt 64 0x7ff0000000000000 x y

instance (k : TrendMember) (x y : ℕ) : Decidable (LtBits k x y) :=
  match k with
  | .I => inferInstanceAs (Decidable (_ < _))
  | .U => inferInstanceAs (Decidable (x < y))
  | .F => inferInstanceAs (Decidable (FloatLt _ _ x y))
  | .D => inferInstanceAs (Decidable (FloatLt _ _ x y))

theorem strictLess_ltBits (k : TrendMember) : StrictLess (LtBits k) := by
  cases k with
  | I => exact StrictLess.of_key fun x : ℕ => (UInt32.ofNat x).toInt32.toInt
  | U => exact StrictLess.of_key fun x : ℕ => x
  | F | D => exact strictLess_floatLt _ _

/-- `a.M < b.M`. -/
def Lt (k : TrendMember) (a b : TrendUnion) : Prop := LtBits k (a.bits k) (b.bits k)

instance (k : TrendMember) (a b : TrendUnion) : Decidable (Lt k a b) := by
  unfold Lt
  infer_instance

/-- `dst.M = src.M`. -/
def assign (k : TrendMember) (dst src : TrendUnion) : TrendUnion :=
  match k with
  | .D => src
  | _ => { dst with lo := src.lo }

@[simp] theorem bits_assign (k : TrendMember) (dst src : TrendUnion) :
    (assign k dst src).bits k = src.bits k := by
  cases k with
  | I => rfl
  | D => rfl
  | F => rfl
  | U => rfl

end TrendUnion

end AdvLigoRts.Daqd
