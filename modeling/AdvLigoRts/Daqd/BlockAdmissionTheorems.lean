import AdvLigoRts.Daqd.BlockAdmission
import AdvLigoRts.Daqd.ProducerShmemTheorems

/-!
# When the uses of a header are in range

`Rejected` says from the header when a turn ends in `exit( 1 )`, `HeaderFits` when all that the turn
does with the header is in range.
-/

namespace AdvLigoRts.Daqd

open PvLib

/-! ## What is in range -/

/-- An index is one of the table; copied bytes lie in `dataBlock`, and go to the area of the DCU. -/
def HeaderUse.InRange : HeaderUse → Prop
  | .header k => k < daqTransitMaxDcu
  | .recvMask d | .lookup d => d < dcuCount
  | .tpTable d => 0 ≤ d ∧ d < dcuCount
  | .source x => x.Within daqTransitDcDataBlockSize
  | .dest _ x => x.Within (2 * daqDcuBlockSize)

instance (u : HeaderUse) : Decidable u.InRange :=
  match u with
  | .header _ => inferInstanceAs (Decidable (_ < _))
  | .recvMask _ => inferInstanceAs (Decidable (_ < _))
  | .lookup _ => inferInstanceAs (Decidable (_ < _))
  | .tpTable _ => inferInstanceAs (Decidable (_ ∧ _))
  | .source x => inferInstanceAs (Decidable (x.Within _))
  | .dest _ x => inferInstanceAs (Decidable (x.Within _))

/-- The header makes the process exit. -/
def Rejected (prevGps prevFrac : ℕ) (block : DaqMultiDcuData) : Prop :=
  block.header.dcuTotalModels = 0 ∨
    ¬Continues prevGps prevFrac (gpsOf block) (fracOf block) ∨
    daqTransitMaxDcu ≤ block.header.dcuTotalModels ∨
    daqTransitDcDataBlockSize < block.offset block.header.dcuTotalModels

/-- Header `k` is the last one of DCU `j` among the first `n`. -/
def LastOf (block : DaqMultiDcuData) (n j k : ℕ) : Prop :=
  (k < n ∧ (block.header.dcuheader k).dcuId.toNat = j) ∧
    ∀ k', k < k' → k' < n → (block.header.dcuheader k').dcuId.toNat ≠ j

/-- DCU `j` is one that is copied. -/
def DcuConfig.Copies (cfg : DcuConfig) (j : ℕ) : Prop :=
  (dcuIdEdcu ≤ j ∧ j < dcuCount) ∧ cfg.dcuSize j ≠ 0 ∧ cfg.IsMyrinetDcu j

/-- The data of header `k` fit the area of a DCU, and the sum of its two sizes is an `unsigned int`
or else the rest of the area is filled with bytes of `dataBlock`. -/
def SizesFit (block : DaqMultiDcuData) (k : ℕ) : Prop :=
  let h := block.header.dcuheader k
  h.dataBlockSize.toNat ≤ 2 * daqDcuBlockSize ∧
    (h.dataBlockSize.toNat + h.tpBlockSize.toNat < 2 ^ 32 ∨
      block.offset k + 2 * daqDcuBlockSize ≤ daqTransitDcDataBlockSize)

/-- The header of a block stays within the tables of the frame writer. -/
structure HeaderFits (cfg : DcuConfig) (block : DaqMultiDcuData) : Prop where
  dcuId_lt : ∀ k < block.header.dcuTotalModels,
    (block.header.dcuheader k).dcuId.toNat < dcuCount
  sizesFit : ∀ j k, cfg.Copies j → LastOf block block.header.dcuTotalModels j k →
    SizesFit block k

/-! ## The loops over all headers -/

section Uses

variable {block : DaqMultiDcuData}

variable {n : ℕ}

theorem forHeaders_inRange_iff {uses : ℕ → List HeaderUse} :
    (∀ u ∈ forHeaders n uses, u.InRange) ↔ ∀ k < n, ∀ u ∈ uses k, u.InRange := by
  unfold forHeaders
  rw [List.forall_mem_flatMap]
  simp only [List.mem_range]

theorem forHeaders_header (hn : n ≤ daqTransitMaxDcu) :
    ∀ u ∈ forHeaders n fun k => [.header k], u.InRange := by
  rw [forHeaders_inRange_iff]
  intro k hk
  rw [List.forall_mem_singleton]
  exact lt_of_lt_of_le hk hn

theorem tpCountUses_inRange (i : ℕ) (htotal : block.header.dcuTotalModels ≤ daqTransitMaxDcu) :
    ∀ u ∈ tpCountUses i block, u.InRange := by
  unfold tpCountUses
  split
  · exact forHeaders_header htotal
  · exact fun u hu => absurd hu List.not_mem_nil

theorem recvMaskUses_inRange_iff (htotal : block.header.dcuTotalModels ≤ daqTransitMaxDcu) :
    (∀ u ∈ recvMaskUses block, u.InRange) ↔
      ∀ k < block.header.dcuTotalModels, (block.header.dcuheader k).dcuId.toNat < dcuCount := by
  unfold recvMaskUses
  rw [forHeaders_inRange_iff]
  apply forall₂_congr
  intro k hk
  rw [List.forall_mem_cons, List.forall_mem_singleton]
  exact and_iff_right (lt_of_lt_of_le hk htotal)

/-- A number below 256 is the same as an `int`. -/
theorem tpTable_inRange {d : UInt32} (hd : d.toNat < dcuCount) :
    (HeaderUse.tpTable d.toInt32.toInt).InRange := by
  have hlt : d.toNat < 256 := hd
  have hint : d.toBitVec.toInt = (d.toBitVec.toNat : ℤ) :=
    BitVec.toInt_eq_toNat_of_lt (by rw [UInt32.toNat_toBitVec]; omega)
  show 0 ≤ d.toBitVec.toInt ∧ d.toBitVec.toInt < dcuCount
  rw [hint, UInt32.toNat_toBitVec]
  exact ⟨Int.natCast_nonneg _, Int.ofNat_lt.mpr hd⟩

theorem timeAndTpUses_inRange (i : ℕ)
    (htotal : block.header.dcuTotalModels ≤ daqTransitMaxDcu)
    (hdcu : ∀ k < block.header.dcuTotalModels,
      (block.header.dcuheader k).dcuId.toNat < dcuCount) :
    ∀ u ∈ timeAndTpUses i block, u.InRange := by
  unfold timeAndTpUses
  simp only
  split
  · exact fun u hu => absurd hu List.not_mem_nil
  · rw [List.forall_mem_append, List.forall_mem_append, List.forall_mem_singleton]
    refine ⟨⟨by decide, forHeaders_header htotal⟩, ?_⟩
    split
    · rw [forHeaders_inRange_iff]
      intro k hk
      rw [List.forall_mem_cons, List.forall_mem_singleton]
      exact ⟨lt_of_lt_of_le hk htotal, tpTable_inRange (hdcu k hk)⟩
    · exact fun u hu => absurd hu List.not_mem_nil

/-! ## The map -/

theorem lastOf_succ_self {j k : ℕ} (h : (block.header.dcuheader n).dcuId.toNat = j) :
    LastOf block (n + 1) j k ↔ k = n := by
  constructor
  · rintro ⟨⟨hk, -⟩, hlast⟩
    by_contra hne
    exact hlast n (by omega) n.lt_succ_self h
  · rintro rfl
    exact ⟨⟨k.lt_succ_self, h⟩, fun k' hlt hle => absurd hle (by omega)⟩

theorem lastOf_succ_of_ne {j k : ℕ} (h : (block.header.dcuheader n).dcuId.toNat ≠ j) :
    LastOf block (n + 1) j k ↔ LastOf block n j k := by
  constructor
  · rintro ⟨⟨hk, hj⟩, hlast⟩
    have hne : k ≠ n := fun he => h (he ▸ hj)
    exact ⟨⟨by omega, hj⟩, fun k' hlt hle => hlast k' hlt (by omega)⟩
  · rintro ⟨⟨hk, hj⟩, hlast⟩
    refine ⟨⟨by omega, hj⟩, fun k' hlt hle => ?_⟩
    by_cases heq : k' = n
    · rw [heq]
      exact h
    · exact hlast k' hlt (by omega)

/-- What the arrays hold when the first `n` headers have been entered. -/
structure ZmqMap.Maps (block : DaqMultiDcuData) (n : ℕ) (m : ZmqMap) : Prop where
  lookup_iff : ∀ j k, m.lookup j = some k ↔ j < dcuCount ∧ LastOf block n j k
  data_eq : ∀ j, m.data j = (m.lookup j).map block.offset

theorem ZmqMap.maps_empty : ZmqMap.empty.Maps block 0 where
  lookup_iff j k := by
    apply iff_of_false
    · exact Option.some_ne_none k ∘ Eq.symm
    · rintro ⟨-, ⟨hk, -⟩, -⟩
      exact Nat.not_lt_zero k hk
  data_eq _ := rfl

variable {m : ZmqMap}

theorem ZmqMap.Maps.enter (h : m.Maps block n) :
    (m.enter (block.header.dcuheader n).dcuId.toNat n (block.offset n)).Maps block (n + 1) := by
  unfold ZmqMap.enter
  by_cases hhigh : dcuCount ≤ (block.header.dcuheader n).dcuId.toNat
  · rw [if_pos hhigh]
    refine ⟨fun j k => ?_, h.data_eq⟩
    rw [h.lookup_iff]
    apply and_congr_right
    intro hj
    exact (lastOf_succ_of_ne (by omega)).symm
  · rw [if_neg hhigh]
    have hlow := Nat.lt_of_not_le hhigh
    constructor
    · intro j k
      dsimp only
      by_cases hj : (block.header.dcuheader n).dcuId.toNat = j
      · subst hj
        rw [Function.update_self, lastOf_succ_self rfl, Option.some.injEq]
        exact ⟨fun he => ⟨hlow, he.symm⟩, fun he => he.2.symm⟩
      · rw [Function.update_of_ne (Ne.symm hj), h.lookup_iff, lastOf_succ_of_ne hj]
    · intro j
      dsimp only
      by_cases hj : (block.header.dcuheader n).dcuId.toNat = j
      · subst hj
        rw [Function.update_self, Function.update_self]
        rfl
      · rw [Function.update_of_ne (Ne.symm hj), Function.update_of_ne (Ne.symm hj), h.data_eq]

theorem offset_succ (hn : n < block.header.dcuTotalModels) :
    block.offset (n + 1) = block.offset n + (block.header.dcuheader n).blockSize := by
  unfold DaqMultiDcuData.offset DaqMultiDcuData.models
  rw [← List.map_take, ← List.map_take, List.take_range, List.take_range, Nat.min_eq_left hn,
    Nat.min_eq_left hn.le, List.range_succ]
  simp only [List.map_append, List.sum_append, List.map_cons, List.map_nil, List.sum_cons,
    List.sum_nil, Nat.add_zero]

theorem offset_mono {n' : ℕ} (hle : n ≤ n') (hn' : n' ≤ block.header.dcuTotalModels) :
    block.offset n ≤ block.offset n' := by
  induction n', hle using Nat.le_induction with
  | base => exact le_rfl
  | succ k _ ih =>
    rw [offset_succ hn']
    exact le_trans (ih (by omega)) (Nat.le_add_right _ _)

theorem enterUses_inRange (d : ℕ) {k : ℕ} (hk : k < daqTransitMaxDcu) :
    ∀ u ∈ enterUses d k, u.InRange := by
  unfold enterUses
  split
  · rw [List.forall_mem_singleton]
    exact hk
  · rename_i hd
    rw [List.forall_mem_cons, List.forall_mem_singleton]
    exact ⟨hk, Nat.lt_of_not_le hd⟩

theorem mapLoop_inRange {cur ptr : ℕ} (hcur : cur + n ≤ daqTransitMaxDcu) :
    ∀ u ∈ (mapLoop block n cur ptr m).1, u.InRange := by
  induction n generalizing cur ptr m with
  | zero => exact fun u hu => absurd hu List.not_mem_nil
  | succ n ih =>
    have huses := enterUses_inRange (block.header.dcuheader cur).dcuId.toNat
      (show cur < daqTransitMaxDcu by omega)
    unfold mapLoop
    simp only
    split
    · exact huses
    · rw [List.forall_mem_append]
      exact ⟨huses, ih (by omega)⟩

theorem mapLoop_spec {cur : ℕ} (h : m.Maps block cur)
    (hcur : cur + n ≤ block.header.dcuTotalModels)
    (hfits : block.offset cur ≤ daqTransitDcDataBlockSize) :
    (∃ m', (mapLoop block n cur (block.offset cur) m).2 = some m' ∧ m'.Maps block (cur + n) ∧
      block.offset (cur + n) ≤ daqTransitDcDataBlockSize) ∨
    ((mapLoop block n cur (block.offset cur) m).2 = none ∧
      daqTransitDcDataBlockSize < block.offset (cur + n)) := by
  induction n generalizing cur m with
  | zero => exact .inl ⟨m, rfl, h, hfits⟩
  | succ n ih =>
    have hnext := offset_succ (show cur < block.header.dcuTotalModels by omega)
    unfold mapLoop
    simp only
    rw [← hnext, show cur + (n + 1) = cur + 1 + n by omega]
    split
    · rename_i hover
      exact .inr ⟨rfl, lt_of_lt_of_le hover (offset_mono (by omega) (by omega))⟩
    · rename_i hover
      exact ih h.enter (by omega) (Nat.le_of_not_lt hover)

/-! ## The copies -/

/-- The number of test point bytes that are copied, if the data fit. -/
theorem memcpySize_tpSize {h : DaqMsgHeader} (hdata : h.dataBlockSize.toNat ≤ 2 * daqDcuBlockSize) :
    memcpySize (tpSize h) =
      min h.tpBlockSize.toNat (2 * daqDcuBlockSize - h.dataBlockSize.toNat) := by
  have harea : (UInt32.ofNat (2 * daqDcuBlockSize)).toNat = 2 * daqDcuBlockSize := by decide
  have hmax : (maxTpSize h.dataBlockSize).toNat =
      2 * daqDcuBlockSize - h.dataBlockSize.toNat := by
    unfold maxTpSize
    rw [UInt32.toNat_sub_of_le _ _ (UInt32.le_iff_toNat_le.mpr (by rw [harea]; exact hdata)), harea]
  have htp : (tpSize h).toNat =
      min h.tpBlockSize.toNat (2 * daqDcuBlockSize - h.dataBlockSize.toNat) := by
    unfold tpSize
    rw [← hmax]
    split
    · rename_i hle
      exact (Nat.min_eq_left (UInt32.le_iff_toNat_le.mp hle)).symm
    · rename_i hle
      rw [UInt32.le_iff_toNat_le] at hle
      exact (Nat.min_eq_right (Nat.le_of_not_le hle)).symm
  have hbound : 2 * daqDcuBlockSize = 524288 := by decide
  have hmsb : (tpSize h).toBitVec.msb = false := by
    rw [BitVec.msb_eq_false_iff_two_mul_lt, UInt32.toNat_toBitVec, htp]
    omega
  unfold memcpySize
  rw [BitVec.toNat_signExtend, hmsb, BitVec.toNat_setWidth, UInt32.toNat_toBitVec, htp]
  rw [if_neg Bool.false_ne_true, Nat.add_zero, Nat.mod_eq_of_lt (by omega)]

theorem copyDcu_inRange_iff {j ptr : ℕ} {h : DaqMsgHeader}
    (hptr : ptr + h.blockSize ≤ daqTransitDcDataBlockSize) :
    (∀ u ∈ copyDcu j h ptr, u.InRange) ↔
      h.dataBlockSize.toNat ≤ 2 * daqDcuBlockSize ∧
        (h.dataBlockSize.toNat + h.tpBlockSize.toNat < 2 ^ 32 ∨
          ptr + 2 * daqDcuBlockSize ≤ daqTransitDcDataBlockSize) := by
  have hblock : h.blockSize = (h.dataBlockSize.toNat + h.tpBlockSize.toNat) % 2 ^ 32 :=
    UInt32.toNat_add ..
  have hlt := h.tpBlockSize.toNat_lt
  have harea : 2 * daqDcuBlockSize = 524288 := by decide
  unfold copyDcu
  simp only [List.forall_mem_cons, HeaderUse.InRange, Extent.within_iff]
  by_cases hdata : h.dataBlockSize.toNat ≤ 2 * daqDcuBlockSize
  · have htp := memcpySize_tpSize hdata
    rw [and_iff_right hdata]
    constructor
    · rintro ⟨hsrc, -, htpSrc, -⟩
      omega
    · intro hfit
      refine ⟨?_, ?_, ?_, ?_, fun u hu => absurd hu List.not_mem_nil⟩ <;> omega
  · apply iff_of_false
    · rintro ⟨-, hdest, -⟩
      omega
    · exact fun hfit => hdata hfit.1

theorem dcuUses_inRange_iff {cfg : DcuConfig} {j : ℕ} (hm : m.Maps block n)
    (hn : n ≤ daqTransitMaxDcu) (hj : dcuIdEdcu ≤ j ∧ j < dcuCount) :
    (∀ u ∈ dcuUses cfg block m j, u.InRange) ↔
      ∀ k, cfg.Copies j → LastOf block n j k →
        ∀ u ∈ copyDcu j (block.header.dcuheader k) (block.offset k), u.InRange := by
  unfold dcuUses
  rw [hm.data_eq]
  cases hlookup : m.lookup j with
  | none =>
    apply iff_of_true (fun u hu => absurd hu List.not_mem_nil)
    intro k _ hlast
    have hsome := (hm.lookup_iff j k).mpr ⟨hj.2, hlast⟩
    rw [hlookup] at hsome
    cases hsome
  | some k =>
    have hk := ((hm.lookup_iff j k).mp hlookup).2
    have honly : ∀ k', LastOf block n j k' → k' = k := by
      intro k' hk'
      have hsome := (hm.lookup_iff j k').mpr ⟨hj.2, hk'⟩
      rw [hlookup] at hsome
      exact (Option.some.inj hsome).symm
    simp only [Option.map_some]
    by_cases hsize : cfg.dcuSize j = 0
    · rw [if_pos hsize]
      exact iff_of_true (fun u hu => absurd hu List.not_mem_nil)
        (fun k' hcopies => absurd hsize hcopies.2.1)
    · rw [if_neg hsize]
      by_cases hmyrinet : cfg.IsMyrinetDcu j
      · rw [if_pos hmyrinet, List.forall_mem_cons]
        constructor
        · rintro ⟨-, huses⟩ k' - hk'
          rw [honly k' hk']
          exact huses
        · intro h
          exact ⟨lt_of_lt_of_le hk.1.1 hn, h k ⟨hj, hsize, hmyrinet⟩ hk⟩
      · rw [if_neg hmyrinet]
        exact iff_of_true (fun u hu => absurd hu List.not_mem_nil)
          (fun k' hcopies => absurd hcopies.2.2 hmyrinet)

theorem copyUses_inRange_iff {cfg : DcuConfig} (hm : m.Maps block block.header.dcuTotalModels)
    (htotal : block.header.dcuTotalModels ≤ daqTransitMaxDcu)
    (hfits : block.offset block.header.dcuTotalModels ≤ daqTransitDcDataBlockSize) :
    (∀ u ∈ copyUses cfg block m, u.InRange) ↔
      ∀ j k, cfg.Copies j → LastOf block block.header.dcuTotalModels j k → SizesFit block k := by
  have hcopy : ∀ j k, LastOf block block.header.dcuTotalModels j k →
      ((∀ u ∈ copyDcu j (block.header.dcuheader k) (block.offset k), u.InRange) ↔
        SizesFit block k) := by
    intro j k hlast
    apply copyDcu_inRange_iff
    rw [← offset_succ hlast.1.1]
    exact le_trans (offset_mono hlast.1.1 le_rfl) hfits
  have hmem : ∀ j, j ∈ List.range' dcuIdEdcu (dcuCount - dcuIdEdcu) ↔
      dcuIdEdcu ≤ j ∧ j < dcuCount := fun j => List.mem_range'_1
  unfold copyUses
  rw [List.forall_mem_flatMap]
  constructor
  · intro h j k hcopies hlast
    have hj := h j ((hmem j).mpr hcopies.1)
    exact (hcopy j k hlast).mp ((dcuUses_inRange_iff hm htotal hcopies.1).mp hj k hcopies hlast)
  · intro h j hj
    rw [dcuUses_inRange_iff hm htotal ((hmem j).mp hj)]
    intro k hcopies hlast
    exact (hcopy j k hlast).mpr (h j k hcopies hlast)

/-! ## The turn -/

end Uses

section Turn

variable (cfg : DcuConfig) (i prevGps prevFrac : ℕ) (block : DaqMultiDcuData)

def usesBefore : List HeaderUse :=
  tpCountUses i block ++ recvMaskUses block ++ timeAndTpUses i block

theorem frameWriterTurn_cases :
    (Rejected prevGps prevFrac block ∧
      ∃ why, (frameWriterTurn cfg i prevGps prevFrac block).2 = .error why) ∨
    (¬Rejected prevGps prevFrac block ∧
      ∃ uses m, (∀ u ∈ uses, u.InRange) ∧ m.Maps block block.header.dcuTotalModels ∧
        frameWriterTurn cfg i prevGps prevFrac block =
          (usesBefore i block ++ uses ++ copyUses cfg block m, .ok ())) := by
  unfold frameWriterTurn Rejected
  simp only
  by_cases hempty : block.header.dcuTotalModels = 0
  · rw [if_pos (Or.inl hempty)]
    exact .inl ⟨.inl hempty, _, rfl⟩
  rw [if_pos (Nat.pos_of_ne_zero hempty), if_pos (Nat.pos_of_ne_zero hempty)]
  by_cases hcont : Continues prevGps prevFrac (gpsOf block) (fracOf block)
  swap
  · rw [if_pos (Or.inr hcont)]
    exact .inl ⟨.inr (.inl hcont), _, rfl⟩
  rw [if_neg (not_or_intro hempty (not_not_intro hcont))]
  by_cases hmax : daqTransitMaxDcu ≤ block.header.dcuTotalModels
  · rw [if_pos hmax]
    exact .inl ⟨.inr (.inr (.inl hmax)), _, rfl⟩
  rw [if_neg hmax]
  have huses : ∀ u ∈ (mapLoop block block.header.dcuTotalModels 0 0 .empty).1, u.InRange :=
    mapLoop_inRange (by omega)
  have hspec := mapLoop_spec ZmqMap.maps_empty
    (Nat.zero_add block.header.dcuTotalModels).le (Nat.zero_le _)
  rw [Nat.zero_add] at hspec
  rcases hmap : mapLoop block block.header.dcuTotalModels 0 0 .empty with ⟨uses, r⟩
  rw [hmap] at huses
  obtain ⟨m, hm, hmaps, hfits⟩ | ⟨hnone, hover⟩ := hspec
  · have hr : r = some m := by
      rw [← hm]
      exact congrArg Prod.snd hmap.symm
    rw [hr]
    refine .inr ⟨?_, uses, m, huses, hmaps, rfl⟩
    rintro (h | h | h | h)
    · exact hempty h
    · exact h hcont
    · exact hmax h
    · exact absurd hfits (Nat.not_le_of_lt h)
  · have hr : r = none := by
      rw [← hnone]
      exact congrArg Prod.snd hmap.symm
    rw [hr]
    exact .inl ⟨.inr (.inr (.inr hover)), _, rfl⟩

/-- For every header, the process exits or all its uses are in range, exactly if the header makes
the process exit or fits. -/
theorem header_uses_in_range_iff :
    ((∃ why, (frameWriterTurn cfg i prevGps prevFrac block).2 = .error why) ∨
      ∀ u ∈ (frameWriterTurn cfg i prevGps prevFrac block).1, u.InRange) ↔
    Rejected prevGps prevFrac block ∨ HeaderFits cfg block := by
  obtain ⟨hrej, hexit⟩ | ⟨hrej, uses, m, huses, hmaps, hturn⟩ :=
    frameWriterTurn_cases cfg i prevGps prevFrac block
  · exact iff_of_true (.inl hexit) (.inl hrej)
  · rw [hturn, or_iff_right hrej]
    have hno : ¬∃ why, (Except.ok () : Except ProducerExit Unit) = .error why := by
      rintro ⟨why, h⟩
      cases h
    rw [or_iff_right hno]
    unfold Rejected at hrej
    push Not at hrej
    obtain ⟨-, -, hmax, hfits⟩ := hrej
    have hcopy : (∀ u ∈ copyUses cfg block m, u.InRange) ↔ _ :=
      copyUses_inRange_iff hmaps hmax.le hfits
    unfold usesBefore
    simp only [List.forall_mem_append]
    rw [recvMaskUses_inRange_iff hmax.le, hcopy]
    constructor
    · rintro ⟨⟨⟨⟨-, hdcu⟩, -⟩, -⟩, hsizes⟩
      exact ⟨hdcu, hsizes⟩
    · rintro ⟨hdcu, hsizes⟩
      exact ⟨⟨⟨⟨tpCountUses_inRange i hmax.le, hdcu⟩, timeAndTpUses_inRange i hmax.le hdcu⟩,
        huses⟩, hsizes⟩

end Turn

/-- A block of one DCU of number 300, and one of 8 bytes more than the area of a DCU, that continue
the last block. -/
theorem header_uses_out_of_range :
    let cfg : DcuConfig := ⟨false, fun _ => 1⟩
    let block (dcuId dataBlockSize : UInt32) : DaqMultiDcuData :=
      ⟨⟨1, 0, fun _ => { dcuId, dataBlockSize, timeSec := 100, timeNSec := 1 }⟩, fun _ => 0⟩
    ∀ b ∈ [block 300 0, block 10 524296],
      ¬((∃ why, (frameWriterTurn cfg 1 100 0 b).2 = .error why) ∨
        ∀ u ∈ (frameWriterTurn cfg 1 100 0 b).1, u.InRange) := by
  intro cfg block b hb
  have hok : (frameWriterTurn cfg 1 100 0 b).2 = .ok () := by
    revert b
    decide +kernel
  have hout : ∃ u ∈ (frameWriterTurn cfg 1 100 0 b).1, ¬u.InRange := by
    revert b
    decide +kernel
  rintro (⟨why, hexit⟩ | hall)
  · rw [hok] at hexit
    cases hexit
  · obtain ⟨u, hu, hnot⟩ := hout
    exact hnot (hall u hu)

end AdvLigoRts.Daqd
