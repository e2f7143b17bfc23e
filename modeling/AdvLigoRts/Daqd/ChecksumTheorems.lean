import AdvLigoRts.Drv.Crc
import AdvLigoRts.Daqd.ChecksumCrc32

/-!
# The two checksums agree

`checksum_crc32` keeps the register of `crc_ptr` with its bytes reversed.
-/

namespace AdvLigoRts.Daqd

open PvLib.TableCrc

/-- `crctab_8byte[ k ]`, as a function of a byte. -/
def crcSlice (k : ℕ) (b : BitVec 8) : BitVec 32 := crctab8byte k (b.setWidth 32)

/-! ## The tables -/

theorem crcSlice_eq (k : ℕ) (b : BitVec 8) :
    crcSlice k b = BitVec.ofNat 32 ((crctab8byteWords k).getD b.toNat 0) := by
  have hb : b.toNat % 2 ^ 32 = b.toNat := Nat.mod_eq_of_lt (lt_trans b.isLt (by norm_num))
  rw [crcSlice, crctab8byte, BitVec.toNat_setWidth, hb]

theorem additive_crcSlice : Additive (crcSlice 0) :=
  additive_of_basis (by decide +kernel)

/-- The word after `w` in the sequence of tables. -/
def nextWord (w : ℕ) : ℕ := (w % 2 ^ 32) >>> 8 ^^^ (crctab8byteWords 0).getD (w % 256) 0

theorem crctab8byteWords_succ : ∀ k < 7, (crctab8byteWords k).length = 256 ∧
    crctab8byteWords (k + 1) = (crctab8byteWords k).map nextWord := by
  decide +kernel

theorem slices_crcSlice : Slices crcSlice := by
  refine slices_of_succ fun k hk b => ?_
  obtain ⟨hlen, hsucc⟩ := crctab8byteWords_succ k hk
  have hb : b.toNat < (crctab8byteWords k).length := hlen ▸ b.isLt
  have hlow : ∀ w : ℕ, ((BitVec.ofNat 32 w).setWidth 8).toNat = w % 256 := by
    intro w
    rw [BitVec.toNat_setWidth, BitVec.toNat_ofNat]
    omega
  rw [crcSlice_eq, crcSlice_eq k, hsucc, shiftByte, crcSlice_eq, hlow, List.getD_eq_getElem?_getD,
    List.getD_eq_getElem?_getD, List.getElem?_map, List.getElem?_eq_getElem hb]
  simp only [Option.map_some, Option.getD_some, nextWord]
  -- what is left is `nextWord`, read once as a number and once as a word
  apply BitVec.eq_of_toNat_eq
  simp only [BitVec.toNat_ofNat, BitVec.toNat_xor, BitVec.toNat_ushiftRight]
  rw [Nat.xor_mod_two_pow]
  congr 1
  rw [Nat.shiftRight_eq_div_pow]
  omega

theorem crcSlice_zero : ∀ b : BitVec 8, crcSlice 0 b = revInt4u (Drv.crctab (b.setWidth 32)) := by
  decide +kernel

/-! ## One byte -/

theorem crc32OneByte_eq (data crc : BitVec 32) :
    crc32OneByte data crc = step (crcSlice 0) crc (byteAt data 0) := by
  -- the data changes the low byte, which the shift drops and the table takes
  have hhigh : (crc ^^^ (byteAt data 0).setWidth 32) >>> 8 = crc >>> 8 := by
    rw [← and_ff_eq]
    refine eq_of_byteAt fun k _ => ?_
    rw [byteAt_shiftRight, byteAt_shiftRight, byteAt_xor, byteAt_and, byteAt_ff_succ]
    simp
  have hlow : (crc ^^^ (byteAt data 0).setWidth 32).setWidth 8 = byteAt (crc ^^^ data) 0 := by
    have hbyte : ∀ w : BitVec 32, w.setWidth 8 = byteAt w 0 := fun w => by simp [byteAt]
    rw [hbyte, ← and_ff_eq, byteAt_xor, byteAt_and, byteAt_ff_zero, BitVec.and_allOnes,
      byteAt_xor]
  rw [crc32OneByte, step, shiftByte, hhigh, hlow, and_ff_eq]
  rfl

/-- `rev_int4u` reverses the bytes. -/
theorem byteAt_revInt4u (x : BitVec 32) {k : ℕ} (hk : k ≤ 3) :
    byteAt (revInt4u x) k = byteAt x (3 - k) := by
  have hlow : ∀ y z : BitVec 32, byteAt (y <<< 8 ||| z &&& 0xff) 0 = byteAt z 0 := by
    intro y z
    rw [byteAt_or, byteAt_and, byteAt_shiftLeft_zero, byteAt_ff_zero, BitVec.and_allOnes,
      BitVec.zero_or]
  have hhigh : ∀ (y z : BitVec 32) {j : ℕ}, j < 3 →
      byteAt (y <<< 8 ||| z &&& 0xff) (j + 1) = byteAt y j := by
    intro y z j hj
    rw [byteAt_or, byteAt_and, byteAt_shiftLeft_succ y hj, byteAt_ff_succ]
    simp
  -- the four rounds of the loop
  have hrev : revInt4u x =
      ((((0 : BitVec 32) <<< 8 ||| x &&& 0xff) <<< 8 ||| x >>> 8 &&& 0xff) <<< 8 |||
        x >>> 8 >>> 8 &&& 0xff) <<< 8 ||| x >>> 8 >>> 8 >>> 8 &&& 0xff := rfl
  rw [hrev]
  obtain rfl | rfl | rfl | rfl : k = 0 ∨ k = 1 ∨ k = 2 ∨ k = 3 := by omega
  · rw [hlow, byteAt_shiftRight, byteAt_shiftRight, byteAt_shiftRight]
  · rw [hhigh _ _ (by norm_num), hlow, byteAt_shiftRight, byteAt_shiftRight]
  · rw [hhigh _ _ (by norm_num), hhigh _ _ (by norm_num), hlow, byteAt_shiftRight]
  · rw [hhigh _ _ (by norm_num), hhigh _ _ (by norm_num), hhigh _ _ (by norm_num), hlow]

theorem revInt4u_revInt4u (x : BitVec 32) : revInt4u (revInt4u x) = x := by
  refine eq_of_byteAt fun k hk => ?_
  rw [byteAt_revInt4u _ hk, byteAt_revInt4u _ (by omega), Nat.sub_sub_self hk]

theorem revInt4u_xor (x y : BitVec 32) : revInt4u (x ^^^ y) = revInt4u x ^^^ revInt4u y := by
  refine eq_of_byteAt fun k hk => ?_
  rw [byteAt_revInt4u _ hk, byteAt_xor, byteAt_xor, byteAt_revInt4u _ hk, byteAt_revInt4u _ hk]

theorem revInt4u_shiftLeft (x : BitVec 32) : revInt4u (x <<< 8) = revInt4u x >>> 8 := by
  refine eq_of_byteAt fun k hk => ?_
  rw [byteAt_revInt4u _ hk, byteAt_shiftRight]
  rcases Nat.lt_or_ge k 3 with hlt | hge
  · rw [byteAt_revInt4u _ hlt, show 3 - k = 3 - (k + 1) + 1 by omega,
      byteAt_shiftLeft_succ _ (by omega)]
  · obtain rfl : k = 3 := by omega
    rw [byteAt_of_ge _ (le_refl 4)]
    exact byteAt_shiftLeft_zero x

/-- One byte of data moves both registers on in the same way. -/
theorem revInt4u_crcStep (crc data : BitVec 32) :
    revInt4u (Drv.crcStep crc data) = crc32OneByte data (revInt4u crc) := by
  -- the top byte of the one register is the low byte of the other
  have hindex : (crc >>> 24 ^^^ data) &&& 0xFF
      = (byteAt (revInt4u crc ^^^ data) 0).setWidth 32 := by
    rw [and_ff_eq, byteAt_xor, byteAt_xor, byteAt_revInt4u _ (by norm_num), shiftRight_24_eq]
    simp [byteAt]
  rw [Drv.crcStep, revInt4u_xor, revInt4u_shiftLeft, hindex, ← crcSlice_zero, crc32OneByte,
    and_ff_eq]
  rfl

/-! ## All of the data -/

theorem foldl_alignLoop (cp : ℕ) (data : List (BitVec 8)) (crc : BitVec 32) :
    (alignLoop cp data crc).1.foldl (step (crcSlice 0)) (alignLoop cp data crc).2
      = data.foldl (step (crcSlice 0)) crc := by
  induction data generalizing cp crc with
  | nil => rfl
  | cons c rest ih =>
    -- a byte is taken in while the pointer is not aligned
    unfold alignLoop
    split
    · rw [ih, List.foldl_cons, crc32OneByte_eq]
      simp [byteAt]
    · rfl

/-- The slices of eight bytes. -/
theorem foldl_sliceLoop (data : List (BitVec 8)) (crc : BitVec 32) :
    (sliceLoop data crc).1.foldl (step (crcSlice 0)) (sliceLoop data crc).2
      = data.foldl (step (crcSlice 0)) crc := by
  fun_induction sliceLoop data crc with
  | case1 c0 c1 c2 c3 c4 c5 c6 c7 rest crc one two ih =>
    have hslice := slice8_eq additive_crcSlice slices_crcSlice crc c0 c1 c2 c3 c4 c5 c6 c7
    have hsplit : (c0 :: c1 :: c2 :: c3 :: c4 :: c5 :: c6 :: c7 :: rest).foldl
        (step (crcSlice 0)) crc = rest.foldl (step (crcSlice 0))
          ([c0, c1, c2, c3, c4, c5, c6, c7].foldl (step (crcSlice 0)) crc) := rfl
    have hbyte : ∀ (w : BitVec 32) (k : ℕ),
        w >>> (8 * k) &&& 0xFF = (byteAt w k).setWidth 32 := by
      intro w k
      rw [and_ff_eq]
      simp [byteAt]
    have h1 : ∀ w : BitVec 32, w >>> 8 &&& 0xFF = (byteAt w 1).setWidth 32 := (hbyte · 1)
    have h2 : ∀ w : BitVec 32, w >>> 16 &&& 0xFF = (byteAt w 2).setWidth 32 := (hbyte · 2)
    rw [ih, hsplit, ← hslice, and_ff_eq, h1, h2, shiftRight_24_eq, and_ff_eq, h1, h2,
      shiftRight_24_eq]
    rfl
  | case2 data crc hno => rfl

/-- `crc32_calc` takes the bytes in one after the other, wherever they are in memory. -/
theorem crc32Calc_eq (buf : ℕ) (data : List (BitVec 8)) (crc : BitVec 32) :
    crc32Calc buf data crc = data.foldl (step (crcSlice 0)) crc := by
  have hbyte : (fun crc (c : BitVec 8) => crc32OneByte (c.setWidth 32) crc)
      = step (crcSlice 0) := by
    funext crc c
    rw [crc32OneByte_eq]
    simp [byteAt]
  simp only [crc32Calc, hbyte]
  rw [foldl_sliceLoop, foldl_alignLoop]

/-- `crc_ptr` does the same to the reversed register, for either kind of `char`. -/
theorem revInt4u_crcPtr (charSigned : Bool) (data : List (BitVec 8)) (crc : BitVec 32) :
    revInt4u (Drv.crcPtr charSigned data crc) = data.foldl (step (crcSlice 0)) (revInt4u crc) := by
  induction data generalizing crc with
  | nil => rfl
  | cons c rest ih =>
    -- sign bits do not count, as the index is masked with `0xFF`
    have hlow := Drv.byteAt_promoteChar charSigned c
    rw [Drv.crcPtr, List.foldl_cons, ← Drv.crcPtr, ih, revInt4u_crcStep, crc32OneByte_eq, hlow,
      List.foldl_cons]

/-- The length is taken in alike. -/
theorem revInt4u_crcLenLoop (n crc : BitVec 32) :
    revInt4u (Drv.crcLenLoop n crc) = crc32FinishLoop n (revInt4u crc) := by
  fun_induction Drv.crcLenLoop n crc with
  | case1 crc =>
    rw [crc32FinishLoop, dif_pos rfl]
  | case2 n crc hn ih =>
    rw [ih, revInt4u_crcStep]
    conv_rhs => rw [crc32FinishLoop, dif_neg hn]

/-- Adding pieces one after the other is taking in all their bytes. -/
theorem foldl_add (pieces : List (ℕ × List (BitVec 8))) (s : ChecksumCrc32) :
    pieces.foldl (fun s piece => s.add piece.1 piece.2) s
      = ⟨(pieces.flatMap Prod.snd).foldl (step (crcSlice 0)) s.value,
        s.length + BitVec.ofNat 32 (pieces.flatMap Prod.snd).length⟩ := by
  induction pieces generalizing s with
  | nil => simp
  | cons piece pieces ih =>
    rw [List.foldl_cons, ih, ChecksumCrc32.add, crc32Calc_eq]
    simp only [List.flatMap_cons, List.foldl_append, List.length_append, BitVec.ofNat_add,
      BitVec.add_assoc]

/-- The checksum of a register that has taken in `data`. -/
theorem result_taken (charSigned : Bool) (data : List (BitVec 8)) :
    ChecksumCrc32.result ⟨data.foldl (step (crcSlice 0)) 0, BitVec.ofNat 32 data.length⟩
      = Drv.crcLen (BitVec.ofNat 32 data.length) (Drv.crcPtr charSigned data 0) := by
  have hzero : revInt4u 0 = 0 := by decide
  have hptr := revInt4u_crcPtr charSigned data 0
  rw [hzero] at hptr
  -- `result` reverses the register once more, so that the two reversals cancel
  rw [ChecksumCrc32.result, crc32Finish]
  simp only
  rw [← hptr, ← revInt4u_crcLenLoop, revInt4u_revInt4u, Drv.crcLen,
    show (0xFFFFFFFF : BitVec 32) = BitVec.allOnes 32 from rfl, BitVec.and_allOnes]

/-- However the data is cut into pieces and wherever each piece lies in memory,
`checksum_crc32` gives the checksum of `crc_ptr` and `crc_len` over all of it, whether `char`
is signed or not. -/
theorem checksum_crc32_eq_crc_len (charSigned : Bool) (pieces : List (ℕ × List (BitVec 8))) :
    (pieces.foldl (fun s piece => s.add piece.1 piece.2) ChecksumCrc32.reset).result
      = Drv.crcLen (BitVec.ofNat 32 (pieces.flatMap Prod.snd).length)
          (Drv.crcPtr charSigned (pieces.flatMap Prod.snd) 0) := by
  rw [foldl_add, ← result_taken charSigned, ChecksumCrc32.reset]
  simp

theorem result_add (charSigned : Bool) (buf : ℕ) (data : List (BitVec 8)) :
    (ChecksumCrc32.reset.add buf data).result
      = Drv.crcLen (BitVec.ofNat 32 data.length) (Drv.crcPtr charSigned data 0) := by
  rw [← result_taken charSigned, ChecksumCrc32.add, crc32Calc_eq, ChecksumCrc32.reset]
  simp

/-- Damage within four bytes in a row changes both checksums, wherever it is. -/
theorem checksums_tell_bursts (charSigned : Bool) (buf : ℕ) (pre post : List (BitVec 8))
    (n : Fin 5) :
    Function.Injective (fun burst : Vector (BitVec 8) n =>
      (ChecksumCrc32.reset.add buf (pre ++ burst.toList ++ post)).result) ∧
    Function.Injective fun burst : Vector (BitVec 8) n =>
      Drv.crcLen (BitVec.ofNat 32 (pre ++ burst.toList ++ post).length)
        (Drv.crcPtr charSigned (pre ++ burst.toList ++ post) 0) := by
  simp only [result_add charSigned, and_self]
  intro burst burst' h
  simp only [List.length_append, Vector.length_toList] at h
  have hreg := Drv.crcLen_injective _ h
  simp only [Drv.crcPtr, List.foldl_append] at hreg
  -- the bytes behind the burst take different registers to different ones
  have hafter := Drv.crcPtr_injective charSigned post hreg
  have hn := n.isLt
  exact Vector.toList_inj.mp (Drv.crcPtr_burst_inj (by simp) (by simp; omega)
    fun k _ => congrArg (byteAt · k) hafter)

end AdvLigoRts.Daqd
