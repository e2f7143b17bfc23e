import Mathlib.Data.Finset.Card
import Mathlib.Data.Fintype.Basic
import Mathlib.Tactic.IntervalCases

/-!
# `cmask_t`: the consumer bit mask

The bit mask of `src/daqd/cmask_t.h`, two 64 bit words addressed by bit number. Every
operation is described by what it does to `get` (`get_set`, `get_clear`, …), and `bits`
is the set of bits that are up; the other modules never look at the words.
-/

namespace AdvLigoRts.Daqd

/-- `CMASK_T_INTERNAL_WORD_COUNT`. -/
def cmaskWordCount : ℕ := 2

/-- `cmask_t`. -/
structure CMask where
  mask : Vector (BitVec 64) cmaskWordCount
deriving DecidableEq, Repr

/-- `MAX_CONSUMERS`: one less than the number of bits in a mask. -/
def maxConsumers : ℕ := cmaskWordCount * 64 - 1

namespace CMask

def numBits : ℕ := cmaskWordCount * 64

def wordIdx (index : ℕ) : ℕ := index / 64

def bitIdx (index : ℕ) : ℕ := index % 64

/-- `mask[ word ]`; words past the end of the array do not exist and read as zero. -/
def word (m : CMask) (w : ℕ) : BitVec 64 := m.mask[w]?.getD 0

def get (m : CMask) (index : ℕ) : Bool :=
  (m.word (wordIdx index) &&& (1#64 <<< bitIdx index)) != 0

def set (m : CMask) (index : ℕ) : CMask :=
  ⟨m.mask.setIfInBounds (wordIdx index) (m.word (wordIdx index) ||| (1#64 <<< bitIdx index))⟩

def clear (m : CMask) (index : ℕ) : CMask :=
  ⟨m.mask.setIfInBounds (wordIdx index)
    (m.word (wordIdx index) &&& ~~~(1#64 <<< bitIdx index))⟩

/-- A mask after `clear_all`. -/
def clearAll : CMask := ⟨Vector.replicate cmaskWordCount 0⟩

def empty (m : CMask) : Bool := m.mask.foldl (· ||| ·) 0 == 0

def differenceWith (m other : CMask) : CMask :=
  ⟨Vector.ofFn fun i : Fin cmaskWordCount => m.mask[i] &&& ~~~other.mask[i]⟩

/-- The search for the next available `0`, `for ( i = 0; mask.get( i ); i++ )`; `none` when
it leaves the mask. -/
def firstFree (m : CMask) : Option ℕ := (List.range numBits).find? fun i => !m.get i

/-! ## `get` after each operation -/

variable (m other : CMask) {i j : ℕ}

/-- `get` reads one bit of one word. -/
theorem get_eq_getLsbD (i : ℕ) : m.get i = (m.word (wordIdx i)).getLsbD (bitIdx i) := by
  unfold get
  rw [← BitVec.twoPow_eq, BitVec.and_twoPow]
  have hb : bitIdx i < 64 := Nat.mod_lt _ (by norm_num)
  cases h : (m.word (wordIdx i)).getLsbD (bitIdx i)
  · simp
  · simp only [if_true, bne_iff_ne, ne_eq]
    intro hz
    have := congrArg (fun x : BitVec 64 => x.getLsbD (bitIdx i)) hz
    simp [hb] at this

theorem wordIdx_lt (h : i < numBits) : wordIdx i < cmaskWordCount := by
  simp only [numBits, cmaskWordCount, wordIdx] at *
  omega

theorem word_setIfInBounds (v : BitVec 64) {w : ℕ} (hw : w < cmaskWordCount) (w' : ℕ) :
    (CMask.mk (m.mask.setIfInBounds w v)).word w' = if w = w' then v else m.word w' := by
  unfold word
  rw [Vector.getElem?_setIfInBounds, if_pos hw]
  split <;> rfl

theorem eq_iff_wordIdx_bitIdx : i = j ↔ wordIdx i = wordIdx j ∧ bitIdx i = bitIdx j := by
  simp only [wordIdx, bitIdx]
  omega

@[simp] theorem get_set (hi : i < numBits) (j : ℕ) :
    (m.set i).get j = (decide (j = i) || m.get j) := by
  have hb : bitIdx i < 64 := Nat.mod_lt _ (by norm_num)
  rw [get_eq_getLsbD, get_eq_getLsbD, set, word_setIfInBounds _ _ (wordIdx_lt hi)]
  -- the word that is stored to, and the bit of it that is or-ed in
  by_cases hw : wordIdx i = wordIdx j
  · rw [if_pos hw, BitVec.getLsbD_or, ← BitVec.twoPow_eq, BitVec.getLsbD_twoPow, hw]
    by_cases hbit : bitIdx i = bitIdx j
    · have hij : j = i := (eq_iff_wordIdx_bitIdx.mpr ⟨hw, hbit⟩).symm
      simp [hij, hb]
    · have hij : j ≠ i := fun h => hbit (by rw [h])
      simp [hbit, hij]
  · have hij : j ≠ i := fun h => hw (by rw [h])
    simp [hw, hij]

@[simp] theorem get_clear (hi : i < numBits) (j : ℕ) :
    (m.clear i).get j = (!decide (j = i) && m.get j) := by
  have hb : bitIdx i < 64 := Nat.mod_lt _ (by norm_num)
  have hbj : bitIdx j < 64 := Nat.mod_lt _ (by norm_num)
  rw [get_eq_getLsbD, get_eq_getLsbD, clear, word_setIfInBounds _ _ (wordIdx_lt hi)]
  -- as in `get_set`, with the bit masked out
  by_cases hw : wordIdx i = wordIdx j
  · rw [if_pos hw, BitVec.getLsbD_and, BitVec.getLsbD_not, ← BitVec.twoPow_eq,
      BitVec.getLsbD_twoPow, hw]
    by_cases hbit : bitIdx i = bitIdx j
    · have hij : j = i := (eq_iff_wordIdx_bitIdx.mpr ⟨hw, hbit⟩).symm
      simp [hij, hb]
    · have hij : j ≠ i := fun h => hbit (by rw [h])
      simp [hbit, hij, hbj]
  · have hij : j ≠ i := fun h => hw (by rw [h])
    simp [hw, hij]

@[simp] theorem get_clearAll (j : ℕ) : clearAll.get j = false := by
  have : clearAll.word (wordIdx j) = 0 := by
    unfold word clearAll
    rw [Vector.getElem?_replicate]
    split <;> rfl
  rw [get_eq_getLsbD, this]
  simp

/-- Bits past the end of the mask read as down. -/
theorem get_of_ge (h : numBits ≤ i) : m.get i = false := by
  have : m.word (wordIdx i) = 0 := by
    unfold word
    rw [Vector.getElem?_eq_none]
    · rfl
    · simp only [numBits, cmaskWordCount, wordIdx] at *
      omega
  rw [get_eq_getLsbD, this]
  simp

theorem lt_numBits_of_get (h : m.get i = true) : i < numBits := by
  by_contra hge
  rw [m.get_of_ge (by omega)] at h
  cases h

@[simp] theorem get_differenceWith (j : ℕ) :
    (m.differenceWith other).get j = (m.get j && !other.get j) := by
  -- past the end of the mask both sides are down
  by_cases hj : j < numBits
  · have hb : bitIdx j < 64 := Nat.mod_lt _ (by norm_num)
    have hw := wordIdx_lt hj
    rw [get_eq_getLsbD, get_eq_getLsbD, get_eq_getLsbD]
    have hword : (m.differenceWith other).word (wordIdx j)
        = m.word (wordIdx j) &&& ~~~other.word (wordIdx j) := by
      simp [word, differenceWith, Vector.getElem?_eq_getElem hw]
    rw [hword, BitVec.getLsbD_and, BitVec.getLsbD_not]
    simp [hb]
  · rw [get_of_ge _ (by omega), get_of_ge _ (by omega)]
    rfl

/-- `empty` says that no bit is up. -/
theorem empty_iff : m.empty = true ↔ ∀ i, m.get i = false := by
  -- the fold over the words, written out for the two words of this build
  obtain ⟨⟨l⟩, hl⟩ := m
  obtain ⟨a, b, rfl⟩ : ∃ a b, l = [a, b] := by
    match l, hl with
    | [a, b], _ => exact ⟨a, b, rfl⟩
  have hempty : (CMask.mk ⟨⟨[a, b]⟩, hl⟩).empty = (a ||| b == 0) := by
    simp [empty, Vector.foldl]
  rw [hempty, beq_iff_eq]
  constructor
  · intro hz i
    have ha : a = 0 := (BitVec.or_eq_zero_iff.mp hz).1
    have hb : b = 0 := (BitVec.or_eq_zero_iff.mp hz).2
    subst ha hb
    rw [get_eq_getLsbD]
    have : (CMask.mk ⟨⟨[0, 0]⟩, hl⟩).word (wordIdx i) = 0 := by
      unfold word
      rcases hw : wordIdx i with _ | _ | w <;> simp
    rw [this]
    simp
  · intro hall
    have hword : ∀ w < 2, (CMask.mk ⟨⟨[a, b]⟩, hl⟩).word w = 0 := by
      intro w hw
      apply BitVec.eq_of_getLsbD_eq
      intro k hk
      -- bit `k` of word `w` is bit `64 w + k` of the mask
      have := hall (64 * w + k)
      rw [get_eq_getLsbD] at this
      rw [show wordIdx (64 * w + k) = w by simp only [wordIdx]; omega,
        show bitIdx (64 * w + k) = k by simp only [bitIdx]; omega] at this
      simpa using this
    have ha : a = 0 := by simpa [word] using hword 0 (by norm_num)
    have hb : b = 0 := by simpa [word] using hword 1 (by norm_num)
    simp [ha, hb]

theorem get_of_empty (h : m.empty = true) (i : ℕ) : m.get i = false := m.empty_iff.mp h i

/-! ## The set of bits that are up -/

def bits : Finset ℕ := (Finset.range numBits).filter fun i => m.get i = true

@[simp] theorem mem_bits : i ∈ m.bits ↔ m.get i = true := by
  simp only [bits, Finset.mem_filter, Finset.mem_range, and_iff_right_iff_imp]
  exact m.lt_numBits_of_get

theorem bits_set (hi : i < numBits) : (m.set i).bits = insert i m.bits := by
  ext j
  simp [hi]

theorem bits_clear (hi : i < numBits) : (m.clear i).bits = m.bits.erase i := by
  ext j
  simp [hi]

@[simp] theorem bits_clearAll : clearAll.bits = ∅ := by
  ext j
  simp

/-! ## The search for a free bit -/

/-- The search stops at the lowest bit that is down. -/
theorem firstFree_eq_some {i : ℕ} (h : m.firstFree = some i) :
    i < numBits ∧ m.get i = false ∧ ∀ j < i, m.get j = true := by
  unfold firstFree at h
  rw [List.find?_range_eq_some] at h
  obtain ⟨hget, hmem, hlow⟩ := h
  exact ⟨by simpa using hmem, by simpa using hget, fun j hj => by simpa using hlow j hj⟩

/-- While fewer than `n` bits are up the search stops below `n + 1`; with fewer bits up
than the mask has room for, it never leaves the mask. -/
theorem firstFree_of_card_lt {n : ℕ} (hn : n ≤ numBits) (h : m.bits.card < n) :
    ∃ i, m.firstFree = some i ∧ i < n ∧ m.get i = false := by
  have hex : ∃ i < n, m.get i = false := by
    by_contra hall
    -- if the first `n` bits were all up, at least `n` bits would be
    have hsub : Finset.range n ⊆ m.bits := by
      intro i hi
      rw [Finset.mem_range] at hi
      rw [mem_bits]
      cases hg : m.get i
      · exact absurd ⟨i, hi, hg⟩ hall
      · rfl
    have := Finset.card_le_card hsub
    rw [Finset.card_range] at this
    omega
  obtain ⟨i, hi, hget⟩ := hex
  have hsome : m.firstFree.isSome = true := by
    unfold firstFree
    rw [List.find?_isSome]
    exact ⟨i, by simp; omega, by simp [hget]⟩
  obtain ⟨k, hk⟩ := Option.isSome_iff_exists.mp hsome
  obtain ⟨_, hkget, hlow⟩ := m.firstFree_eq_some hk
  refine ⟨k, hk, ?_, hkget⟩
  by_contra hge
  rw [hlow i (by omega)] at hget
  cases hget

end CMask

end AdvLigoRts.Daqd
