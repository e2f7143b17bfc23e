import Mathlib.Tactic.NormNum

/-!
# Table driven cyclic redundancy checks

Checksums of 32 bits that take their data a byte at a time through a table of 256 words.
-/

namespace PvLib.TableCrc

/-- The table respects exclusive or. -/
def Additive (T : BitVec 8 → BitVec 32) : Prop := ∀ a b, T (a ^^^ b) = T a ^^^ T b

variable {T : BitVec 8 → BitVec 32}

theorem Additive.zero (hT : Additive T) : T 0#8 = 0#32 := by
  have h := hT 0#8 0#8
  simpa using h

/-- Move the register on by one byte, low byte first. -/
def shiftByte (T : BitVec 8 → BitVec 32) (c : BitVec 32) : BitVec 32 :=
  c >>> 8 ^^^ T (c.setWidth 8)

/-- Take in one byte of data. -/
def step (T : BitVec 8 → BitVec 32) (c : BitVec 32) (b : BitVec 8) : BitVec 32 :=
  shiftByte T (c ^^^ b.setWidth 32)

theorem shiftByte_xor (hT : Additive T) (a b : BitVec 32) :
    shiftByte T (a ^^^ b) = shiftByte T a ^^^ shiftByte T b := by
  unfold shiftByte
  rw [BitVec.ushiftRight_xor_distrib, BitVec.setWidth_xor, hT]
  ac_rfl

theorem iterate_shiftByte_xor (hT : Additive T) (n : ℕ) (a b : BitVec 32) :
    (shiftByte T)^[n] (a ^^^ b) = (shiftByte T)^[n] a ^^^ (shiftByte T)^[n] b := by
  induction n generalizing a b with
  | zero => rfl
  | succ n ih => simp only [Function.iterate_succ_apply, shiftByte_xor hT, ih]

theorem shiftByte_shiftLeft (hT : Additive T) {x : BitVec 32} (hx : x.toNat < 2 ^ 24) :
    shiftByte T (x <<< 8) = x := by
  have hhigh : x <<< 8 >>> 8 = x := by
    apply BitVec.eq_of_toNat_eq
    simp only [BitVec.toNat_ushiftRight, BitVec.toNat_shiftLeft, Nat.shiftLeft_eq,
      Nat.shiftRight_eq_div_pow]
    omega
  have hlow : (x <<< 8).setWidth 8 = 0#8 := by
    apply BitVec.eq_of_toNat_eq
    simp only [BitVec.toNat_setWidth, BitVec.toNat_shiftLeft, Nat.shiftLeft_eq,
      BitVec.toNat_ofNat]
    omega
  rw [shiftByte, hhigh, hlow, hT.zero, BitVec.xor_zero]

/-- A byte at place `k` of a word comes down after `k` moves. -/
theorem iterate_shiftByte_shiftLeft (hT : Additive T) (b : BitVec 8) {k : ℕ} (hk : k ≤ 3) :
    (shiftByte T)^[k] (b.setWidth 32 <<< (8 * k)) = b.setWidth 32 := by
  induction k with
  | zero => simp
  | succ k ih =>
    -- the byte is below place 3 before the last shift, so that no bit of it is lost
    have hlt : (b.setWidth 32 <<< (8 * k)).toNat < 2 ^ 24 := by
      have hb : b.toNat < 2 ^ 8 := b.isLt
      have hpow : 2 ^ (8 * k) ≤ 2 ^ 16 := Nat.pow_le_pow_right (by norm_num) (by omega)
      have hmul : b.toNat * 2 ^ (8 * k) < 2 ^ 8 * 2 ^ 16 := by
        calc b.toNat * 2 ^ (8 * k) ≤ b.toNat * 2 ^ 16 := Nat.mul_le_mul_left _ hpow
          _ < 2 ^ 8 * 2 ^ 16 := Nat.mul_lt_mul_of_pos_right hb (by norm_num)
      have hset : (b.setWidth 32).toNat = b.toNat := by
        rw [BitVec.toNat_setWidth, Nat.mod_eq_of_lt (by omega)]
      rw [BitVec.toNat_shiftLeft, hset, Nat.shiftLeft_eq]
      exact lt_of_le_of_lt (Nat.mod_le _ _) hmul
    have hsplit : b.setWidth 32 <<< (8 * (k + 1)) = (b.setWidth 32 <<< (8 * k)) <<< 8 := by
      rw [← BitVec.shiftLeft_add]
      congr 1
    rw [Function.iterate_succ_apply, hsplit, shiftByte_shiftLeft hT hlt, ih (by omega)]

/-- Dropping the low byte of a number other than 0 makes it smaller. -/
theorem toNat_shiftRight_lt {n : BitVec 32} (h : n ≠ 0) : (n >>> 8).toNat < n.toNat := by
  have hne : n.toNat ≠ 0 := fun h0 => h (BitVec.eq_of_toNat_eq h0)
  rw [BitVec.toNat_ushiftRight, Nat.shiftRight_eq_div_pow]
  omega

/-- Byte `k` of a word, counted from the low end. -/
def byteAt (w : BitVec 32) (k : ℕ) : BitVec 8 := (w >>> (8 * k)).setWidth 8

/-- The word with the given bytes, the first one lowest. -/
def leWord (b0 b1 b2 b3 : BitVec 8) : BitVec 32 := b3 ++ b2 ++ b1 ++ b0

theorem leWord_eq (b0 b1 b2 b3 : BitVec 8) :
    leWord b0 b1 b2 b3 = b0.setWidth 32 <<< (8 * 0) ^^^ b1.setWidth 32 <<< (8 * 1) ^^^
      b2.setWidth 32 <<< (8 * 2) ^^^ b3.setWidth 32 <<< (8 * 3) := by
  apply BitVec.eq_of_getLsbD_eq
  intro i hi
  have hbyte : ∀ (b : BitVec 8) (j : ℕ), 8 ≤ j → b.getLsbD j = false :=
    fun b j hj => BitVec.getLsbD_of_ge b j hj
  simp only [leWord, BitVec.getLsbD_append, BitVec.getLsbD_xor, BitVec.getLsbD_shiftLeft,
    BitVec.getLsbD_setWidth]
  -- only the byte that holds bit `i` contributes
  by_cases h0 : i < 8
  · simp [h0, hi, show i < 16 by omega, show i < 24 by omega]
  by_cases h1 : i < 16
  · simp [h0, h1, hi, show i - 8 < 8 by omega, show i < 24 by omega, show i - 8 < 32 by omega,
      hbyte b0 i (by omega)]
  by_cases h2 : i < 24
  · simp [h0, h1, h2, hi, show ¬ i - 8 < 8 by omega, show i - 16 < 8 by omega,
      show i - 16 < 32 by omega, hbyte b0 i (by omega), hbyte b1 (i - 8) (by omega),
      show i - 8 - 8 = i - 16 by omega]
  · simp [h0, h1, h2, hi, show ¬ i - 8 < 8 by omega, show ¬ i - 8 - 8 < 8 by omega,
      show i - 24 < 32 by omega, hbyte b0 i (by omega), hbyte b1 (i - 8) (by omega),
      hbyte b2 (i - 16) (by omega), show i - 8 - 8 - 8 = i - 24 by omega]

theorem leWord_byteAt (w : BitVec 32) :
    leWord (byteAt w 0) (byteAt w 1) (byteAt w 2) (byteAt w 3) = w := by
  apply BitVec.eq_of_getLsbD_eq
  intro i hi
  simp only [leWord, byteAt, BitVec.getLsbD_append, BitVec.getLsbD_setWidth,
    BitVec.getLsbD_ushiftRight]
  -- as in `leWord_eq`, by the byte that holds bit `i`
  by_cases h0 : i < 8
  · simp [h0]
  by_cases h1 : i - 8 < 8
  · simp [h0, h1, show 8 + (i - 8) = i by omega]
  by_cases h2 : i - 8 - 8 < 8
  · simp [h0, h1, h2, show 16 + (i - 8 - 8) = i by omega]
  · simp [h0, h1, h2, show i - 8 - 8 - 8 < 8 by omega, show 24 + (i - 8 - 8 - 8) = i by omega]

/-- Four bytes taken in one after the other are one word taken in at once. -/
theorem foldl_step_four (hT : Additive T) (c : BitVec 32) (b0 b1 b2 b3 : BitVec 8) :
    [b0, b1, b2, b3].foldl (step T) c = (shiftByte T)^[4] (c ^^^ leWord b0 b1 b2 b3) := by
  -- a byte taken in after `k` moves is that byte `k` places up taken in before them
  have hdown : ∀ (x : BitVec 32) (b : BitVec 8) {k : ℕ}, k ≤ 3 →
      (shiftByte T)^[k] x ^^^ b.setWidth 32
        = (shiftByte T)^[k] (x ^^^ b.setWidth 32 <<< (8 * k)) := by
    intro x b k hk
    rw [iterate_shiftByte_xor hT, iterate_shiftByte_shiftLeft hT b hk]
  have hstep : ∀ (x : BitVec 32) (b : BitVec 8) {k : ℕ}, k ≤ 3 →
      step T ((shiftByte T)^[k] x) b
        = (shiftByte T)^[k + 1] (x ^^^ b.setWidth 32 <<< (8 * k)) := by
    intro x b k hk
    rw [step, hdown x b hk, Function.iterate_succ_apply']
  have h0 : step T c b0 = (shiftByte T)^[1] (c ^^^ b0.setWidth 32 <<< (8 * 0)) :=
    hstep c b0 (k := 0) (by norm_num)
  have h1 := fun x => hstep x b1 (k := 1) (by norm_num)
  have h2 := fun x => hstep x b2 (k := 2) (by norm_num)
  have h3 := fun x => hstep x b3 (k := 3) (by norm_num)
  have hword : c ^^^ leWord b0 b1 b2 b3 = c ^^^ b0.setWidth 32 <<< (8 * 0) ^^^
      b1.setWidth 32 <<< (8 * 1) ^^^ b2.setWidth 32 <<< (8 * 2) ^^^
      b3.setWidth 32 <<< (8 * 3) := by
    rw [leWord_eq]
    simp only [BitVec.xor_assoc]
  rw [List.foldl_cons, List.foldl_cons, List.foldl_cons, List.foldl_cons, List.foldl_nil, h0, h1,
    h2, h3, hword]

/-- Tables for slices: table `k` moves a single byte on by `k + 1` bytes. -/
def Slices (T : ℕ → BitVec 8 → BitVec 32) : Prop :=
  ∀ k b, k ≤ 7 → T k b = (shiftByte (T 0))^[k + 1] (b.setWidth 32)

theorem slice_word {T : ℕ → BitVec 8 → BitVec 32} (hT : Additive (T 0)) (hs : Slices T)
    {n : ℕ} (hn : n ≤ 4) (w : BitVec 32) :
    (shiftByte (T 0))^[n + 4] w = T (n + 3) (byteAt w 0) ^^^ T (n + 2) (byteAt w 1) ^^^
      T (n + 1) (byteAt w 2) ^^^ T n (byteAt w 3) := by
  -- byte `k` comes down in `k` moves; the table does the others
  have hone : ∀ (b : BitVec 8) {j k : ℕ}, j ≤ 7 → k ≤ 3 → j + 1 + k = n + 4 →
      (shiftByte (T 0))^[n + 4] (b.setWidth 32 <<< (8 * k)) = T j b := by
    intro b j k hj hk hsum
    rw [← hsum, Function.iterate_add_apply, iterate_shiftByte_shiftLeft hT b hk, hs j b hj]
  have hw := leWord_byteAt w
  rw [leWord_eq] at hw
  conv_lhs => rw [← hw]
  simp only [iterate_shiftByte_xor hT]
  rw [hone _ (j := n + 3) (by omega) (by norm_num) (by omega),
    hone _ (j := n + 2) (by omega) (by norm_num) (by omega),
    hone _ (j := n + 1) (by omega) (by norm_num) (by omega),
    hone _ (j := n) (by omega) (by norm_num) (by omega)]

/-- Slice-by-eight: eight bytes through eight tables are eight bytes one after the other. -/
theorem slice8_eq {T : ℕ → BitVec 8 → BitVec 32} (hT : Additive (T 0)) (hs : Slices T)
    (c : BitVec 32) (b0 b1 b2 b3 b4 b5 b6 b7 : BitVec 8) :
    let one := leWord b0 b1 b2 b3 ^^^ c
    let two := leWord b4 b5 b6 b7
    T 7 (byteAt one 0) ^^^ T 6 (byteAt one 1) ^^^ T 5 (byteAt one 2) ^^^ T 4 (byteAt one 3) ^^^
      T 3 (byteAt two 0) ^^^ T 2 (byteAt two 1) ^^^ T 1 (byteAt two 2) ^^^ T 0 (byteAt two 3)
      = [b0, b1, b2, b3, b4, b5, b6, b7].foldl (step (T 0)) c := by
  intro one two
  -- the first word still has the second one's four bytes to pass
  have hone := slice_word hT hs (n := 4) (by norm_num) one
  have htwo := slice_word hT hs (n := 0) (by norm_num) two
  have hsplit : [b0, b1, b2, b3, b4, b5, b6, b7].foldl (step (T 0)) c
      = [b4, b5, b6, b7].foldl (step (T 0)) ([b0, b1, b2, b3].foldl (step (T 0)) c) := rfl
  rw [hsplit, foldl_step_four hT, foldl_step_four hT, iterate_shiftByte_xor hT,
    ← Function.iterate_add_apply, BitVec.xor_comm c, hone, htwo]
  ac_rfl

/-! ## Tables -/

/-- The value an additive table must have, from its values at the eight single bits. -/
def basisXor (T : BitVec 8 → BitVec 32) (v : BitVec 8) : BitVec 32 :=
  (List.range 8).foldl (fun acc j => acc ^^^ if v.getLsbD j then T (1#8 <<< j) else 0) 0

/-- A table that is determined by its values at single bits is additive. -/
theorem additive_of_basis (h : ∀ v, T v = basisXor T v) : Additive T := by
  intro a b
  have hite : ∀ (p q : Bool) (t : BitVec 32),
      (if (p ^^ q) = true then t else 0)
        = (if p = true then t else 0) ^^^ if q = true then t else 0 := by
    intro p q t
    cases p <;> cases q <;> simp
  -- the eight terms are joined one after the other, for the two arguments side by side
  have hloop : ∀ (js : List ℕ) (p q : BitVec 32),
      js.foldl (fun acc j => acc ^^^ if (a ^^^ b).getLsbD j then T (1#8 <<< j) else 0) (p ^^^ q)
        = js.foldl (fun acc j => acc ^^^ if a.getLsbD j then T (1#8 <<< j) else 0) p ^^^
          js.foldl (fun acc j => acc ^^^ if b.getLsbD j then T (1#8 <<< j) else 0) q := by
    intro js
    induction js with
    | nil => simp
    | cons j js ih =>
      intro p q
      rw [List.foldl_cons, List.foldl_cons, List.foldl_cons, ← ih, BitVec.getLsbD_xor, hite]
      congr 1
      ac_rfl
  rw [h a, h b, h (a ^^^ b)]
  exact hloop (List.range 8) 0 0

/-- A single byte moves on through table 0. -/
theorem shiftByte_setWidth (T : BitVec 8 → BitVec 32) (b : BitVec 8) :
    shiftByte T (b.setWidth 32) = T b := by
  have hhigh : b.setWidth 32 >>> 8 = 0#32 := by
    apply BitVec.eq_of_toNat_eq
    have := b.isLt
    simp only [BitVec.toNat_ushiftRight, BitVec.toNat_setWidth, Nat.shiftRight_eq_div_pow,
      BitVec.toNat_ofNat]
    omega
  rw [shiftByte, hhigh, BitVec.zero_xor, BitVec.setWidth_setWidth_of_le _ (by norm_num),
    BitVec.setWidth_eq]

theorem slices_of_succ {T : ℕ → BitVec 8 → BitVec 32}
    (h : ∀ k < 7, ∀ b, T (k + 1) b = shiftByte (T 0) (T k b)) : Slices T := by
  intro k b hk
  induction k with
  | zero => exact (shiftByte_setWidth (T 0) b).symm
  | succ k ih => rw [h k (by omega) b, ih (by omega), Function.iterate_succ_apply' _ (k + 1)]

/-! ## Words by their bytes -/

theorem getLsbD_byteAt (w : BitVec 32) (k i : ℕ) :
    (byteAt w k).getLsbD i = (decide (i < 8) && w.getLsbD (8 * k + i)) := by
  simp [byteAt]

/-- Two words with the same four bytes are the same. -/
theorem eq_of_byteAt {v w : BitVec 32} (h : ∀ k ≤ 3, byteAt v k = byteAt w k) : v = w := by
  rw [← leWord_byteAt v, ← leWord_byteAt w, h 0 (by norm_num), h 1 (by norm_num),
    h 2 (by norm_num), h 3 (by norm_num)]

section Bytes

variable (v w : BitVec 32) (k : ℕ)

@[simp] theorem byteAt_xor : byteAt (v ^^^ w) k = byteAt v k ^^^ byteAt w k := by
  simp [byteAt, BitVec.ushiftRight_xor_distrib]

@[simp] theorem byteAt_or : byteAt (v ||| w) k = byteAt v k ||| byteAt w k := by
  simp [byteAt, BitVec.ushiftRight_or_distrib]

@[simp] theorem byteAt_and : byteAt (v &&& w) k = byteAt v k &&& byteAt w k := by
  simp [byteAt, BitVec.ushiftRight_and_distrib]

@[simp] theorem byteAt_shiftRight : byteAt (w >>> 8) k = byteAt w (k + 1) := by
  rw [byteAt, byteAt, ← BitVec.shiftRight_add]
  congr 2
  omega

@[simp] theorem byteAt_shiftLeft_zero : byteAt (w <<< 8) 0 = 0#8 := by
  apply BitVec.eq_of_getLsbD_eq
  intro i hi
  rw [getLsbD_byteAt, BitVec.getLsbD_shiftLeft]
  simp [hi]

theorem byteAt_shiftLeft_succ {k : ℕ} (hk : k < 3) : byteAt (w <<< 8) (k + 1) = byteAt w k := by
  apply BitVec.eq_of_getLsbD_eq
  intro i hi
  have hlow : ¬ 8 * (k + 1) + i < 8 := by omega
  have hin : 8 * (k + 1) + i < 32 := by omega
  simp only [getLsbD_byteAt, BitVec.getLsbD_shiftLeft, hlow, hin,
    show 8 * (k + 1) + i - 8 = 8 * k + i by omega]
  simp

theorem byteAt_of_ge {k : ℕ} (hk : 4 ≤ k) : byteAt w k = 0#8 := by
  apply BitVec.eq_of_getLsbD_eq
  intro i hi
  rw [getLsbD_byteAt, BitVec.getLsbD_of_ge w _ (by omega)]
  simp

@[simp] theorem byteAt_ff_zero : byteAt 0xFF 0 = BitVec.allOnes 8 := by
  decide

@[simp] theorem byteAt_ff_succ : byteAt 0xFF (k + 1) = 0#8 := by
  apply BitVec.eq_of_toNat_eq
  have hpow : 2 ^ (8 * 1) ≤ 2 ^ (8 * (k + 1)) := Nat.pow_le_pow_right (by norm_num) (by omega)
  simp only [byteAt, BitVec.toNat_setWidth, BitVec.toNat_ushiftRight, Nat.shiftRight_eq_div_pow]
  change 255 / 2 ^ (8 * (k + 1)) % 2 ^ 8 = 0
  rw [Nat.div_eq_of_lt (by omega)]

end Bytes

/-- The low byte of a word as a word. -/
theorem and_ff_eq (w : BitVec 32) : w &&& 0xFF = (byteAt w 0).setWidth 32 := by
  apply BitVec.eq_of_toNat_eq
  have hand : w.toNat &&& 255 = w.toNat % 256 := Nat.and_two_pow_sub_one_eq_mod w.toNat 8
  simp only [byteAt, BitVec.toNat_and, BitVec.toNat_setWidth, BitVec.toNat_ushiftRight,
    Nat.shiftRight_eq_div_pow, BitVec.ofNat_eq_ofNat, BitVec.toNat_ofNat]
  rw [show 255 % 2 ^ 32 = 255 from rfl, hand]
  omega

theorem shiftRight_24_eq (w : BitVec 32) : w >>> 24 = (byteAt w 3).setWidth 32 := by
  apply BitVec.eq_of_toNat_eq
  have := w.isLt
  simp only [byteAt, BitVec.toNat_ushiftRight, BitVec.toNat_setWidth, Nat.shiftRight_eq_div_pow]
  omega

end PvLib.TableCrc
