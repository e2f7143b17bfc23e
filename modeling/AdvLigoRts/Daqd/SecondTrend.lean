import AdvLigoRts.Daqd.TrendBlock
import Mathlib.Algebra.Order.BigOperators.Group.List
import Mathlib.Algebra.Order.Ring.Abs
import Mathlib.Order.Bounds.Basic
import Mathlib.Tactic.Ring

/-!
# `trender_c::trend_loop_func`, integer channels

The function has the same loop for each type of data. What differs is the type of the product of
two samples: a `short` is promoted to `int` before, the others are multiplied as they are. Sums are
kept in a `double`; they are taken as exact.
-/

namespace AdvLigoRts.Daqd

/-- The local variables of the loop. -/
structure TrendSums (T : Type) where
  rms : ℤ
  mean : ℤ
  min : T
  max : T

section

variable {T : Type} [LT T] [DecidableLT T]

/-- A turn of the loop; `value` and `square` are conversions to `double`. -/
def trendTest (value square : T → ℤ) (s : TrendSums T) (test : T) : TrendSums T where
  rms := s.rms + square test
  mean := s.mean + value test
  min := if test < s.min then test else s.min
  max := if s.max < test then test else s.max

def trendLoop (value square : T → ℤ) (first : T) (rest : List T) : TrendSums T :=
  rest.foldl (trendTest value square) ⟨square first, value first, first, first⟩

end

/-- `( double )( test * test )` of an `unsigned int`. -/
def uint32Square (test : UInt32) : ℤ := (test * test).toNat

/-- `( double )( test * test )` of an `int`; a product that is none is taken to wrap. -/
def int32Square (test : Int32) : ℤ := (test * test).toInt

/-- `( double )( test * test )` of a `short`; the factors are promoted to `int`. -/
def int16Square (test : Int16) : ℤ := (test.toInt32 * test.toInt32).toInt

/-- `_32bit_uint`. -/
def uint32Trend (first : UInt32) (rest : List UInt32) : TrendSums UInt32 :=
  trendLoop (fun x => (x.toNat : ℤ)) uint32Square first rest

/-- `_32bit_integer`. -/
def int32Trend (first : Int32) (rest : List Int32) : TrendSums Int32 :=
  trendLoop Int32.toInt int32Square first rest

/-- `_16bit_integer`. -/
def int16Trend (first : Int16) (rest : List Int16) : TrendSums Int16 :=
  trendLoop Int16.toInt int16Square first rest

/-- The samples of a channel, of which there is one. -/
inductive IntegerSamples
  | int16 (first : Int16) (rest : List Int16)
  | int32 (first : Int32) (rest : List Int32)
  | uint32 (first : UInt32) (rest : List UInt32)

namespace IntegerSamples

/-- `sample_rate`. -/
def rate : IntegerSamples → ℕ
  | .int16 _ rest => rest.length + 1
  | .int32 _ rest => rest.length + 1
  | .uint32 _ rest => rest.length + 1

end IntegerSamples

section

variable {R : Type} [Zero R] [Div R] [NatCast R] [IntCast R]

/-- The assignments to `ttb[ j ]`; `word` is a number as the member of the union that is used. -/
def storeTrend {T : Type} (sqrt : R → R) (rate : ℕ) (word : T → UInt32) (s : TrendSums T)
    (ttb : TrendBlock R) : TrendBlock R where
  min := { ttb.min with lo := word s.min }
  max := { ttb.max with lo := word s.max }
  n := Int32.ofNat rate
  rms := sqrt ((s.rms : R) / (rate : R))
  mean := (s.mean : R) / (rate : R)

/-- `trend_loop_func`, where `bad` is the status word of the channel. -/
def trendLoopFunc (sqrt : R → R) (zeroBadData : Bool) (bad : Int32) (data : IntegerSamples)
    (ttb : TrendBlock R) : TrendBlock R :=
  if bad ≠ 0 ∧ zeroBadData then .zero
  else
    match data with
    | .uint32 first rest => storeTrend sqrt data.rate id (uint32Trend first rest) ttb
    | .int32 first rest => storeTrend sqrt data.rate Int32.toUInt32 (int32Trend first rest) ttb
    | .int16 first rest =>
      storeTrend sqrt data.rate (fun x => x.toInt32.toUInt32) (int16Trend first rest) ttb

end

/-! ## Where integer second trends are exact -/

open PvLib

/-! ## The loop -/

section

variable {T : Type} [LT T] [DecidableLT T] {value square : T → ℤ}

/-- What the loop has after the samples `data`. -/
structure TrendSumsOf (value square : T → ℤ) (data : List T) (s : TrendSums T) : Prop where
  rms : s.rms = (data.map square).sum
  mean : s.mean = (data.map value).sum
  min : Extremal (fun x y => value x < value y) data s.min
  max : Extremal (fun x y => value y < value x) data s.max

omit [LT T] [DecidableLT T] in
theorem trendSumsOf_singleton (first : T) :
    TrendSumsOf value square [first] ⟨square first, value first, first, first⟩ where
  rms := List.sum_singleton.symm
  mean := List.sum_singleton.symm
  min := extremal_singleton (StrictLess.of_key value) first
  max := extremal_singleton (StrictLess.of_key value).flip first

/-- One more sample. -/
theorem TrendSumsOf.test (hlt : ∀ x y : T, x < y ↔ value x < value y) {data : List T}
    {s : TrendSums T} (h : TrendSumsOf value square data s) (x : T) :
    TrendSumsOf value square (data ++ [x]) (trendTest value square s x) where
  rms := by
    rw [List.map_append, List.sum_append, List.map_singleton, List.sum_singleton, ← h.rms]
    rfl
  mean := by
    rw [List.map_append, List.sum_append, List.map_singleton, List.sum_singleton, ← h.mean]
    rfl
  min := by
    show Extremal _ _ (if x < s.min then x else s.min)
    by_cases hx : x < s.min
    · rw [if_pos hx]
      exact h.min.snoc_of_lt (StrictLess.of_key value) ((hlt _ _).mp hx)
    · rw [if_neg hx]
      exact h.min.snoc_of_not_lt fun hless => hx ((hlt _ _).mpr hless)
  max := by
    show Extremal _ _ (if s.max < x then x else s.max)
    by_cases hx : s.max < x
    · rw [if_pos hx]
      exact h.max.snoc_of_lt (StrictLess.of_key value).flip ((hlt _ _).mp hx)
    · rw [if_neg hx]
      exact h.max.snoc_of_not_lt fun hless => hx ((hlt _ _).mpr hless)

theorem trendLoop_sumsOf (hlt : ∀ x y : T, x < y ↔ value x < value y) (first : T)
    (rest : List T) :
    TrendSumsOf value square (first :: rest) (trendLoop value square first rest) := by
  induction rest using List.reverseRecOn with
  | nil => exact trendSumsOf_singleton first
  | append_singleton rest x ih =>
    unfold trendLoop
    rw [List.foldl_append]
    exact ih.test hlt x

omit [LT T] [DecidableLT T] in
theorem TrendSumsOf.isLeast {data : List T} {s : TrendSums T}
    (h : TrendSumsOf value square data s) : IsLeast {x | x ∈ data.map value} (value s.min) := by
  refine ⟨List.mem_map_of_mem h.min.1, fun x hx => ?_⟩
  obtain ⟨y, hy, rfl⟩ := List.mem_map.mp hx
  exact not_lt.mp (h.min.2 y hy)

omit [LT T] [DecidableLT T] in
theorem TrendSumsOf.isGreatest {data : List T} {s : TrendSums T}
    (h : TrendSumsOf value square data s) :
    IsGreatest {x | x ∈ data.map value} (value s.max) := by
  refine ⟨List.mem_map_of_mem h.max.1, fun x hx => ?_⟩
  obtain ⟨y, hy, rfl⟩ := List.mem_map.mp hx
  exact not_lt.mp (h.max.2 y hy)

end

/-! ## The product -/

/-- Two sums of which no term of the one is above that of the other. -/
theorem sum_map_eq_iff {T : Type} {f g : T → ℤ} (hle : ∀ x, f x ≤ g x) (l : List T) :
    (l.map f).sum = (l.map g).sum ↔ ∀ x ∈ l, f x = g x := by
  constructor
  · intro hsum x hx
    by_contra hne
    have hlt : f x < g x := lt_of_le_of_ne (hle x) hne
    have hless := List.sum_lt_sum f g (fun y _ => hle y) ⟨x, hx, hlt⟩
    exact absurd hsum (ne_of_lt hless)
  · intro h
    rw [List.map_congr_left h]

theorem uint32Square_le (x : UInt32) : uint32Square x ≤ (x.toNat : ℤ) ^ 2 := by
  unfold uint32Square
  rw [UInt32.toNat_mul, pow_two]
  exact_mod_cast Nat.mod_le _ _

theorem uint32Square_eq_iff (x : UInt32) :
    uint32Square x = (x.toNat : ℤ) ^ 2 ↔ x.toNat < 2 ^ 16 := by
  unfold uint32Square
  rw [UInt32.toNat_mul, pow_two]
  constructor
  · intro h
    have hmod : x.toNat * x.toNat % 2 ^ 32 = x.toNat * x.toNat := by exact_mod_cast h
    by_contra hbig
    have hge : 2 ^ 16 * 2 ^ 16 ≤ x.toNat * x.toNat :=
      Nat.mul_le_mul (not_lt.mp hbig) (not_lt.mp hbig)
    have hlt : x.toNat * x.toNat < 2 ^ 32 := hmod ▸ Nat.mod_lt _ (by norm_num)
    omega
  · intro hsmall
    have hlt : x.toNat * x.toNat < 2 ^ 16 * 2 ^ 16 := Nat.mul_lt_mul'' hsmall hsmall
    exact_mod_cast Nat.mod_eq_of_lt hlt

theorem bmod_eq_self_iff {y : ℤ} (h : 0 ≤ y) : y.bmod (2 ^ 32) = y ↔ y < 2 ^ 31 := by
  constructor
  · intro hy
    rw [← hy]
    exact Int.bmod_lt (by norm_num)
  · intro hy
    apply Int.bmod_eq_of_le
    · exact le_trans (neg_nonpos.mpr (by decide)) h
    · exact hy

theorem bmod_le_self {y : ℤ} (h : 0 ≤ y) : y.bmod (2 ^ 32) ≤ y := by
  by_cases hy : y < 2 ^ 31
  · exact le_of_eq ((bmod_eq_self_iff h).mpr hy)
  · have hlt : y.bmod (2 ^ 32) < 2 ^ 31 := Int.bmod_lt (by norm_num)
    exact le_trans (le_of_lt hlt) (not_lt.mp hy)

theorem int32Square_le (x : Int32) : int32Square x ≤ x.toInt ^ 2 := by
  unfold int32Square
  rw [Int32.toInt_mul, ← pow_two]
  exact bmod_le_self (sq_nonneg _)

theorem int32Square_eq_iff (x : Int32) : int32Square x = x.toInt ^ 2 ↔ x.toInt ^ 2 < 2 ^ 31 := by
  unfold int32Square
  rw [Int32.toInt_mul, ← pow_two]
  exact bmod_eq_self_iff (sq_nonneg _)

theorem int16Square_eq (x : Int16) : int16Square x = x.toInt ^ 2 := by
  unfold int16Square
  rw [Int32.toInt_mul, Int16.toInt_toInt32, ← pow_two, bmod_eq_self_iff (sq_nonneg _)]
  have hlow : -2 ^ 15 ≤ x.toInt := Int16.le_toInt x
  have hhigh : x.toInt < 2 ^ 15 := Int16.toInt_lt x
  have hsq : x.toInt ^ 2 ≤ (2 ^ 15) ^ 2 := sq_le_sq' hlow (le_of_lt hhigh)
  exact lt_of_le_of_lt hsq (by decide)

/-! ## All types -/

def TrendUnion.value (u : TrendUnion) : TrendMember → ℤ
  | .U => u.lo.toNat
  | _ => u.lo.toInt32.toInt

namespace IntegerSamples

/-- The member in which the extrema are kept. -/
def member : IntegerSamples → TrendMember
  | .uint32 _ _ => .U
  | _ => .I

def values : IntegerSamples → List ℤ
  | .int16 first rest => (first :: rest).map fun x => x.toInt
  | .int32 first rest => (first :: rest).map fun x => x.toInt
  | .uint32 first rest => (first :: rest).map fun x => (x.toNat : ℤ)

/-- What is accumulated for `rms`. -/
def rmsSum : IntegerSamples → ℤ
  | .int16 first rest => (int16Trend first rest).rms
  | .int32 first rest => (int32Trend first rest).rms
  | .uint32 first rest => (uint32Trend first rest).rms

/-- The square of each sample is a number of the type in which it is computed. -/
def SquaresFit : IntegerSamples → Prop
  | .int16 _ _ => True
  | .int32 first rest => ∀ x ∈ first :: rest, x.toInt ^ 2 < 2 ^ 31
  | .uint32 first rest => ∀ x ∈ first :: rest, x.toNat < 2 ^ 16

end IntegerSamples

/-! ## Each type -/

theorem int16Trend_sumsOf (first : Int16) (rest : List Int16) :
    TrendSumsOf Int16.toInt int16Square (first :: rest) (int16Trend first rest) :=
  trendLoop_sumsOf (fun _ _ => Int16.lt_iff_toInt_lt) first rest

theorem int32Trend_sumsOf (first : Int32) (rest : List Int32) :
    TrendSumsOf Int32.toInt int32Square (first :: rest) (int32Trend first rest) :=
  trendLoop_sumsOf (fun _ _ => Int32.lt_iff_toInt_lt) first rest

theorem uint32Trend_sumsOf (first : UInt32) (rest : List UInt32) :
    TrendSumsOf (fun x => (x.toNat : ℤ)) uint32Square (first :: rest) (uint32Trend first rest) :=
  trendLoop_sumsOf (fun _ _ => UInt32.lt_iff_toNat_lt.trans Nat.cast_lt.symm) first rest

theorem rmsSum_eq_iff (data : IntegerSamples) :
    data.rmsSum = (data.values.map fun x => x ^ 2).sum ↔ data.SquaresFit := by
  cases data with
  | int16 first rest =>
    have hrms := (int16Trend_sumsOf first rest).rms
    show (int16Trend first rest).rms = (List.map _ (List.map _ _)).sum ↔ True
    rw [List.map_map, hrms, iff_true]
    exact congrArg List.sum (List.map_congr_left fun x _ => int16Square_eq x)
  | int32 first rest =>
    have hrms := (int32Trend_sumsOf first rest).rms
    show (int32Trend first rest).rms = (List.map _ (List.map _ _)).sum ↔ _
    rw [List.map_map, hrms]
    refine (sum_map_eq_iff int32Square_le _).trans ?_
    exact forall₂_congr fun x _ => int32Square_eq_iff x
  | uint32 first rest =>
    have hrms := (uint32Trend_sumsOf first rest).rms
    show (uint32Trend first rest).rms = (List.map _ (List.map _ _)).sum ↔ _
    rw [List.map_map, hrms]
    refine (sum_map_eq_iff uint32Square_le _).trans ?_
    exact forall₂_congr fun x _ => uint32Square_eq_iff x

section

variable {R : Type} [Div R] [NatCast R] [IntCast R]

/-- The block is the trend of the samples, with `rms` as the sum of their squares. -/
structure TrendLoopSets (sqrt : R → R) (data : IntegerSamples) (rms : ℤ) (b : TrendBlock R) :
    Prop where
  n : b.n = Int32.ofNat data.rate
  min : IsLeast {x | x ∈ data.values} (b.min.value data.member)
  max : IsGreatest {x | x ∈ data.values} (b.max.value data.member)
  mean : b.mean = (data.values.sum : R) / (data.rate : R)
  rms : b.rms = sqrt ((rms : R) / (data.rate : R))

/-- What is stored is what the loop has. -/
theorem storeTrend_sets {T : Type} {value square : T → ℤ} {l : List T} {s : TrendSums T}
    (hs : TrendSumsOf value square l s) {data : IntegerSamples}
    (hvalues : data.values = l.map value) {word : T → UInt32}
    (hword : ∀ (u : TrendUnion) x, { u with lo := word x }.value data.member = value x)
    (sqrt : R → R) (ttb : TrendBlock R) :
    TrendLoopSets sqrt data s.rms (storeTrend sqrt data.rate word s ttb) where
  n := rfl
  min := by
    show IsLeast _ ({ ttb.min with lo := word s.min }.value data.member)
    rw [hword, hvalues]
    exact hs.isLeast
  max := by
    show IsGreatest _ ({ ttb.max with lo := word s.max }.value data.member)
    rw [hword, hvalues]
    exact hs.isGreatest
  mean := by
    rw [hvalues, ← hs.mean]
    rfl
  rms := rfl

theorem trendLoopFunc_sets [Zero R] (sqrt : R → R) {zeroBadData : Bool} {bad : Int32}
    (hdata : ¬ (bad ≠ 0 ∧ zeroBadData)) (data : IntegerSamples) (ttb : TrendBlock R) :
    TrendLoopSets sqrt data data.rmsSum (trendLoopFunc sqrt zeroBadData bad data ttb) := by
  unfold trendLoopFunc
  rw [if_neg hdata]
  cases data with
  | int16 first rest =>
    apply storeTrend_sets (int16Trend_sumsOf first rest) rfl
    intro u x
    show x.toInt32.toUInt32.toInt32.toInt = x.toInt
    rw [Int32.toInt32_toUInt32, Int16.toInt_toInt32]
  | int32 first rest =>
    apply storeTrend_sets (int32Trend_sumsOf first rest) rfl
    intro u x
    show x.toUInt32.toInt32.toInt = x.toInt
    rw [Int32.toInt32_toUInt32]
  | uint32 first rest =>
    apply storeTrend_sets (uint32Trend_sumsOf first rest) rfl
    intro u x
    rfl

/-- The trend of an integer channel with data is exact but for the sum of the squares, and that is
exact where the square of each sample is a number of the type of the product. -/
theorem integer_trend_exact_iff [Zero R] (sqrt : R → R) (zeroBadData : Bool) (bad : Int32)
    (data : IntegerSamples) (ttb : TrendBlock R) (hdata : ¬ (bad ≠ 0 ∧ zeroBadData)) :
    TrendLoopSets sqrt data data.rmsSum (trendLoopFunc sqrt zeroBadData bad data ttb) ∧
      (data.rmsSum = (data.values.map fun x => x ^ 2).sum ↔ data.SquaresFit) :=
  ⟨trendLoopFunc_sets sqrt hdata data ttb, rmsSum_eq_iff data⟩

end

/-- Two samples at the bound. -/
theorem integer_trend_exact_two :
    TrendLoopSets id (.int32 46340 [-46340]) 4294791200
      (trendLoopFunc id true 0 (.int32 46340 [-46340]) (.zero : TrendBlock ℤ)) := by
  have hboth := integer_trend_exact_iff (id : ℤ → ℤ) true 0 (.int32 46340 [-46340]) .zero
    (fun h => h.1 rfl)
  have hsum : (IntegerSamples.int32 46340 [-46340]).rmsSum = 4294791200 := by decide
  exact hsum ▸ hboth.1

/-- The square of a sample of an `unsigned int` channel is lost. -/
theorem integer_trend_square_lost :
    (IntegerSamples.uint32 65536 []).rmsSum = 0 ∧
      ¬ ∀ data : IntegerSamples, data.rmsSum = (data.values.map fun x => x ^ 2).sum := by
  refine ⟨by decide, fun h => ?_⟩
  exact absurd (h (.uint32 65536 [])) (by decide)

end AdvLigoRts.Daqd
