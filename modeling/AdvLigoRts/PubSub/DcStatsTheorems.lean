import AdvLigoRts.PubSub.DcStats
import AdvLigoRts.PubSub.RecvBounds
import Mathlib.Algebra.BigOperators.Ring.Finset

/-!
# How often `DCStats` counts a failure

A DCU of a message fails once: its data has another checksum than the message says, or it was seen
in the message before and cannot be read from this one (`CountsOnce`).
-/

namespace AdvLigoRts.PubSub

open PvLib
open LocalDc (receivedCrc statsLoop SeenDcu)

/-! ## What a message says of a DCU -/

/-- The model has a DCU that `run` knows. -/
def Known (h : DaqMsgHeader) : Prop := ¬ (h.dcuId = 0 ∨ dcuCount ≤ h.dcuId.toNat)

/-- The model has no bytes. -/
def NoData (h : DaqMsgHeader) : Prop := ¬ (0 < h.dataBlockSize ∨ 0 < h.tpBlockSize)

/-- Model `i` is known and its bytes are there, behind those of models that are known or have
none. -/
structure ReadableAt (hs : List DaqMsgHeader) (data dataEnd i : ℕ) (h : DaqMsgHeader) : Prop where
  header : hs[i]? = some h
  known : Known h
  reached : ∀ k < i, ∀ h', hs[k]? = some h' → Known h' ∨ NoData h'
  inside : data + exactSize (hs.take (i + 1)) ≤ dataEnd

/-- The DCU can be read from the message. -/
def Readable (m : DaqMultiDcuData) (d : ℕ) : Prop :=
  ∃ i h, ReadableAt m.models 0 m.header.fullDataBlockSize i h ∧ h.dcuId.toNat = d

/-- The DCU is in the message, with another checksum than that of its data. -/
def Mismatched (base : ℕ) (m : DaqMultiDcuData) (d : ℕ) : Prop :=
  ∃ i h, ReadableAt m.models 0 m.header.fullDataBlockSize i h ∧ h.dcuId.toNat = d ∧
    receivedCrc base m (exactSize (m.models.take i)) h.dataBlockSize.toNat ≠ h.dataCrc

/-- Some model is unknown and has bytes, or is known and its bytes are not there. -/
def CutShort (hs : List DaqMsgHeader) (data dataEnd : ℕ) : Prop :=
  ∃ i h, hs[i]? = some h ∧ (¬ Known h ∧ ¬ NoData h ∨
    Known h ∧ dataEnd < data + exactSize (hs.take (i + 1)))

def lastMessage (past : List DcEvent) : Option DaqMultiDcuData :=
  (past.filterMap fun
    | .message entry _ _ => some entry
    | .requested => none).getLast?

/-- The DCU could be read from the message before. -/
def SeenBefore (past : List DcEvent) (d : ℕ) : Prop :=
  ∃ m, lastMessage past = some m ∧ WellSized m ∧ Readable m d

/-- The sum of all increments of a run. -/
def allIncrements (tr : List DcEvent) : ℤ :=
  (tr.map fun
    | .message _ increment _ => ((List.range dcuCount).map increment).sum
    | .requested => 0).sum

open Classical in
/-- A well-sized message counts each failure once, and the total is that of all increments. -/
def CountsOnce (base : ℕ) (tr : List DcEvent) : Prop :=
  ∀ past m increment total rest, tr = past ++ .message m increment total :: rest → WellSized m →
    (∀ d < dcuCount, m.models.countP (fun h => h.dcuId.toNat = d) ≤ 1 →
      increment d =
        if Mismatched base m d ∨ SeenBefore past d ∧ ¬ Readable m d then 1 else 0) ∧
    total = allIncrements (past ++ [.message m increment total])

instance (h : DaqMsgHeader) : Decidable (Known h) := by
  unfold Known
  infer_instance

instance (h : DaqMsgHeader) : Decidable (NoData h) := by
  unfold NoData
  infer_instance

instance (m : DaqMultiDcuData) (d : ℕ) : Decidable (Readable m d) :=
  decidable_of_iff (∃ i < m.models.length, ∃ h ∈ m.models[i]?, Known h ∧
      (∀ k < i, ∀ h' ∈ m.models[k]?, Known h' ∨ NoData h') ∧
      0 + exactSize (m.models.take (i + 1)) ≤ m.header.fullDataBlockSize ∧ h.dcuId.toNat = d) <| by
    constructor
    · rintro ⟨i, -, h, hi, hknown, hreached, hinside, hd⟩
      exact ⟨i, h, ⟨hi, hknown, hreached, hinside⟩, hd⟩
    · rintro ⟨i, h, ⟨hi, hknown, hreached, hinside⟩, hd⟩
      exact ⟨i, (List.getElem?_eq_some_iff.mp hi).1, h, hi, hknown, hreached, hinside, hd⟩

instance (hs : List DaqMsgHeader) (data dataEnd : ℕ) : Decidable (CutShort hs data dataEnd) :=
  decidable_of_iff (∃ i < hs.length, ∃ h ∈ hs[i]?, ¬ Known h ∧ ¬ NoData h ∨
      Known h ∧ dataEnd < data + exactSize (hs.take (i + 1))) <| by
    constructor
    · rintro ⟨i, -, h, hi, hcut⟩
      exact ⟨i, h, hi, hcut⟩
    · rintro ⟨i, h, hi, hcut⟩
      exact ⟨i, (List.getElem?_eq_some_iff.mp hi).1, h, hi, hcut⟩

/-! ## Positions in a list of headers -/

section Positions

variable {hs : List DaqMsgHeader} {h h' : DaqMsgHeader} {data dataEnd i : ℕ}

theorem exactSize_of_noData (hno : NoData h) : exactSize [h] = 0 := by
  unfold NoData at hno
  rw [not_or, UInt32.lt_iff_toNat_lt, UInt32.lt_iff_toNat_lt] at hno
  show h.dataBlockSize.toNat + h.tpBlockSize.toNat + 0 = 0
  have hzero : (0 : UInt32).toNat = 0 := rfl
  omega

theorem exactSize_cons (h : DaqMsgHeader) (hs : List DaqMsgHeader) :
    exactSize (h :: hs) = exactSize [h] + exactSize hs := exactSize_append [h] hs

theorem blockSize_eq_exactSize (hwrap : exactSize [h] < 2 ^ 32) : h.blockSize = exactSize [h] :=
  (Nat.add_zero _).symm.trans (totalSize_eq_of_lt hwrap)

theorem readableAt_zero : ReadableAt (h :: hs) data dataEnd 0 h' ↔
    h' = h ∧ Known h ∧ data + exactSize [h] ≤ dataEnd := by
  constructor
  · intro hread
    obtain rfl : h = h' := Option.some.inj hread.header
    exact ⟨rfl, hread.known, hread.inside⟩
  · rintro ⟨rfl, hknown, hinside⟩
    exact ⟨rfl, hknown, fun k hk => absurd hk (Nat.not_lt_zero k), hinside⟩

theorem readableAt_succ : ReadableAt (h :: hs) data dataEnd (i + 1) h' ↔
    (Known h ∨ NoData h) ∧ ReadableAt hs (data + exactSize [h]) dataEnd i h' := by
  constructor
  · intro hread
    refine ⟨hread.reached 0 i.succ_pos h rfl, hread.header, hread.known, fun k hk h' hh' => ?_, ?_⟩
    · exact hread.reached (k + 1) (Nat.succ_lt_succ hk) h' hh'
    · have hinside := hread.inside
      rw [List.take_succ_cons, exactSize_cons] at hinside
      omega
  · rintro ⟨hfirst, hread⟩
    refine ⟨hread.header, hread.known, fun k hk h' hh' => ?_, ?_⟩
    · cases k with
      | zero =>
        obtain rfl : h = h' := Option.some.inj hh'
        exact hfirst
      | succ k => exact hread.reached k (Nat.lt_of_succ_lt_succ hk) h' hh'
    · have hinside := hread.inside
      rw [List.take_succ_cons, exactSize_cons]
      omega

theorem cutShort_cons : CutShort (h :: hs) data dataEnd ↔
    ¬ Known h ∧ ¬ NoData h ∨ Known h ∧ dataEnd < data + exactSize [h] ∨
      CutShort hs (data + exactSize [h]) dataEnd := by
  constructor
  · rintro ⟨i, h', hi, hcut⟩
    cases i with
    | zero =>
      obtain rfl : h = h' := Option.some.inj hi
      rcases hcut with hcut | ⟨hknown, hend⟩
      · exact .inl hcut
      · exact .inr (.inl ⟨hknown, hend⟩)
    | succ i =>
      rw [List.take_succ_cons, exactSize_cons, ← Nat.add_assoc] at hcut
      exact .inr (.inr ⟨i, h', hi, hcut⟩)
  · rintro (hcut | ⟨hknown, hend⟩ | ⟨i, h', hi, hcut⟩)
    · exact ⟨0, h, rfl, .inl hcut⟩
    · exact ⟨0, h, rfl, .inr ⟨hknown, hend⟩⟩
    · refine ⟨i + 1, h', hi, ?_⟩
      rw [List.take_succ_cons, exactSize_cons, ← Nat.add_assoc]
      exact hcut

/-- The models that the loop of `run` sees are those that can be read. -/
theorem exists_mem_statsLoop {base : ℕ} {m : DaqMultiDcuData} {P : UInt32 → Bool → Prop}
    (hwrap : ∀ h ∈ hs, exactSize [h] < 2 ^ 32) :
    (∃ x ∈ statsLoop base m dataEnd hs data, P x.dcuId x.badDataCrc) ↔
      ∃ i h, ReadableAt hs data dataEnd i h ∧ P h.dcuId
        (receivedCrc base m (data + exactSize (hs.take i)) h.dataBlockSize.toNat != h.dataCrc) := by
  induction hs generalizing data with
  | nil =>
    refine ⟨fun ⟨x, hx, _⟩ => absurd hx List.not_mem_nil, fun ⟨i, h, hread, _⟩ => ?_⟩
    exact absurd hread.header (by simp)
  | cons h hs ih =>
    have htail := @ih (data + exactSize [h])
      fun h' hh' => hwrap h' (List.mem_cons_of_mem h hh')
    have hsplit : (∃ i h', ReadableAt (h :: hs) data dataEnd i h' ∧ P h'.dcuId
        (receivedCrc base m (data + exactSize ((h :: hs).take i)) h'.dataBlockSize.toNat !=
          h'.dataCrc)) ↔
        (Known h ∧ data + exactSize [h] ≤ dataEnd ∧ P h.dcuId
          (receivedCrc base m data h.dataBlockSize.toNat != h.dataCrc)) ∨
        (Known h ∨ NoData h) ∧ ∃ x ∈ statsLoop base m dataEnd hs (data + exactSize [h]),
          P x.dcuId x.badDataCrc := by
      rw [htail]
      constructor
      · rintro ⟨i, h', hread, hP⟩
        cases i with
        | zero =>
          obtain ⟨rfl, hknown, hinside⟩ := readableAt_zero.mp hread
          exact .inl ⟨hknown, hinside, hP⟩
        | succ i =>
          obtain ⟨hfirst, hread⟩ := readableAt_succ.mp hread
          rw [List.take_succ_cons, exactSize_cons, ← Nat.add_assoc] at hP
          exact .inr ⟨hfirst, i, h', hread, hP⟩
      · rintro (⟨hknown, hinside, hP⟩ | ⟨hfirst, i, h', hread, hP⟩)
        · exact ⟨0, h, readableAt_zero.mpr ⟨rfl, hknown, hinside⟩, hP⟩
        · refine ⟨i + 1, h', readableAt_succ.mpr ⟨hfirst, hread⟩, ?_⟩
          rw [List.take_succ_cons, exactSize_cons, ← Nat.add_assoc]
          exact hP
    rw [hsplit]
    have hsize := blockSize_eq_exactSize (hwrap h List.mem_cons_self)
    conv_lhs => unfold statsLoop
    split
    · rename_i hunknown
      have hnot : ¬ Known h := not_not.mpr hunknown
      split
      · rename_i hdata
        have hhas : ¬ NoData h := not_not.mpr hdata
        simp [hnot, hhas]
      · rename_i hdata
        have hno : NoData h := hdata
        rw [exactSize_of_noData hno, Nat.add_zero]
        simp [hnot, hno]
    · rename_i hknown
      have hknown : Known h := hknown
      split
      · rename_i hend
        rw [hsize] at hend
        -- nothing behind a model that does not fit can be read
        have hnone : ¬ ∃ x ∈ statsLoop base m dataEnd hs (data + exactSize [h]),
            P x.dcuId x.badDataCrc := by
          rw [htail]
          rintro ⟨i, h', hread, -⟩
          have hinside := hread.inside
          omega
        constructor
        · rintro ⟨x, hx, -⟩
          exact absurd hx List.not_mem_nil
        · rintro (⟨-, hinside, -⟩ | ⟨-, hsome⟩)
          · omega
          · exact absurd hsome hnone
      · rename_i hend
        rw [hsize] at hend ⊢
        constructor
        · rintro ⟨x, hx, hP⟩
          rcases List.mem_cons.mp hx with rfl | hx
          · exact .inl ⟨hknown, not_lt.mp hend, hP⟩
          · exact .inr ⟨.inl hknown, x, hx, hP⟩
        · rintro (⟨-, -, hP⟩ | ⟨-, x, hx, hP⟩)
          · exact ⟨_, List.mem_cons_self, hP⟩
          · exact ⟨x, List.mem_cons_of_mem _ hx, hP⟩

end Positions

/-! ## The loop over the models -/

def Sees (seen : List SeenDcu) (d : ℕ) : Prop := ∃ x ∈ seen, x.dcuId.toNat = d

/-- How often the DCU was seen with a bad checksum. -/
def badCount (seen : List SeenDcu) (d : ℕ) : ℕ :=
  seen.countP fun x => x.dcuId.toNat = d ∧ x.badDataCrc

/-- What the loop does to the status of a DCU, where it has seen `seen`. -/
structure LoopCounts (seen : List SeenDcu) (d : ℕ) (before after : DcuStats) : Prop where
  crcSum_eq : after.crcSum = before.crcSum + Int32.ofNat (badCount seen d)
  seen_iff : after.seenLastCycle = true ↔ before.seenLastCycle = true ∨ Sees seen d
  processed_of : before.processedThisCycle = true ∨ Sees seen d → after.processedThisCycle = true
  of_processed : before.seenLastCycle = true → after.processedThisCycle = true →
    before.processedThisCycle = true ∨ Sees seen d

theorem not_sees_nil (d : ℕ) : ¬ Sees [] d := fun ⟨_, hx, _⟩ => absurd hx List.not_mem_nil

theorem sees_cons {x : SeenDcu} {seen : List SeenDcu} {d : ℕ} :
    Sees (x :: seen) d ↔ x.dcuId.toNat = d ∨ Sees seen d :=
  List.exists_mem_cons_iff ..

theorem Int32.add_ofNat_succ (x : Int32) (n : ℕ) :
    x + Int32.ofNat (n + 1) = x + 1 + Int32.ofNat n := by
  rw [Int32.ofNat_add, Int32.add_assoc, Int32.add_comm (Int32.ofNat n)]
  rfl

namespace DcuStats

theorem markDcuIfSkippedThisCycle_counts {cur : DcuStats}
    (h : cur.seenLastCycle = true → cur.processedThisCycle = true) :
    cur.markDcuIfSkippedThisCycle.crcSum = cur.crcSum ∧
      cur.markDcuIfSkippedThisCycle.seenLastCycle = cur.seenLastCycle ∧
      cur.markDcuIfSkippedThisCycle.processedThisCycle = cur.processedThisCycle := by
  unfold markDcuIfSkippedThisCycle
  split
  · exact ⟨rfl, rfl, rfl⟩
  · rename_i hskipped
    unfold dcuSkipped
    dsimp only
    rw [if_neg fun hseen => hskipped (h hseen)]
    exact ⟨rfl, rfl, rfl⟩

theorem markProcessed_counts (cur : DcuStats) (curHeader : DaqMsgHeader) :
    (cur.markProcessed curHeader).crcSum = cur.crcSum ∧
      (cur.markProcessed curHeader).seenLastCycle = cur.seenLastCycle ∧
      (cur.markProcessed curHeader).processedThisCycle = true := by
  unfold markProcessed
  dsimp only
  split
  · exact ⟨rfl, rfl, rfl⟩
  · exact ⟨rfl, rfl, rfl⟩

end DcuStats

theorem loopCounts_mark {tab : ℕ → DcuStats} {cur : DcuStats} {d : ℕ}
    (hcrc : cur.crcSum = (tab d).crcSum) (hseen : cur.seenLastCycle = (tab d).seenLastCycle)
    (hprocessed : (tab d).processedThisCycle = true → cur.processedThisCycle = true)
    (hall : (tab d).seenLastCycle = true → (tab d).processedThisCycle = true) :
    LoopCounts [] d (tab d) cur.markDcuIfSkippedThisCycle := by
  obtain ⟨hcrc', hseen', hprocessed'⟩ := @DcuStats.markDcuIfSkippedThisCycle_counts cur
    fun h => hprocessed (hall (hseen ▸ h))
  refine ⟨?_, ?_, ?_, ?_⟩
  · rw [hcrc', hcrc]
    exact (Int32.add_zero _).symm
  · rw [hseen', hseen, or_iff_left (not_sees_nil d)]
  · rw [hprocessed', or_iff_left (not_sees_nil d)]
    exact hprocessed
  · exact fun hold _ => .inl (hall hold)

/-- The status of a DCU whose block was read. -/
def DcuStats.markRead (cur : DcuStats) (curHeader : DaqMsgHeader) (crc : UInt32) : DcuStats :=
  let cur := (cur.markProcessed curHeader).markAsSeen
  if crc ≠ curHeader.dataCrc then cur.markBadDataCrc else cur

theorem DcuStats.markRead_counts (cur : DcuStats) (curHeader : DaqMsgHeader) (crc : UInt32) :
    (cur.markRead curHeader crc).crcSum =
        (if crc ≠ curHeader.dataCrc then cur.crcSum + 1 else cur.crcSum) ∧
      (cur.markRead curHeader crc).seenLastCycle = true ∧
      (cur.markRead curHeader crc).processedThisCycle = true := by
  obtain ⟨hcrc, -, hprocessed⟩ := cur.markProcessed_counts curHeader
  unfold markRead
  dsimp only
  split
  · exact ⟨congrArg (· + 1) hcrc, rfl, hprocessed⟩
  · exact ⟨hcrc, rfl, hprocessed⟩

theorem badCount_cons (x : SeenDcu) (seen : List SeenDcu) (d : ℕ) :
    badCount (x :: seen) d =
      badCount seen d + if x.dcuId.toNat = d ∧ x.badDataCrc = true then 1 else 0 := by
  unfold badCount
  rw [List.countP_cons]
  simp only [decide_eq_true_eq]

theorem LoopCounts.cons {tab : ℕ → DcuStats} {curHeader : DaqMsgHeader} {crc : UInt32}
    {seen : List SeenDcu} {d : ℕ} {after : DcuStats}
    (h : LoopCounts seen d (Function.update tab curHeader.dcuId.toNat
      ((tab curHeader.dcuId.toNat).markRead curHeader crc) d) after) :
    LoopCounts (⟨curHeader.dcuId, crc != curHeader.dataCrc⟩ :: seen) d (tab d) after := by
  obtain ⟨hcrc, hseen, hprocessed, hof⟩ := h
  by_cases hd : d = curHeader.dcuId.toNat
  · subst hd
    rw [Function.update_self] at hcrc hseen hprocessed hof
    obtain ⟨hread, hset, hdone⟩ := (tab curHeader.dcuId.toNat).markRead_counts curHeader crc
    refine ⟨?_, ?_, fun _ => hprocessed (.inl hdone), fun _ _ => .inr (sees_cons.mpr (.inl rfl))⟩
    · rw [hcrc, hread, badCount_cons]
      by_cases hbad : crc ≠ curHeader.dataCrc
      · rw [if_pos hbad, if_pos ⟨rfl, bne_iff_ne.mpr hbad⟩, Int32.add_ofNat_succ]
      · rw [if_neg hbad, if_neg fun hboth => hbad (bne_iff_ne.mp hboth.2), Nat.add_zero]
    · rw [hseen, hset]
      exact ⟨fun _ => .inr (sees_cons.mpr (.inl rfl)), fun _ => .inl rfl⟩
  · rw [Function.update_of_ne hd] at hcrc hseen hprocessed hof
    have hsees : Sees (⟨curHeader.dcuId, crc != curHeader.dataCrc⟩ :: seen) d ↔ Sees seen d := by
      rw [sees_cons]
      exact or_iff_right fun heq => hd heq.symm
    refine ⟨?_, ?_, ?_, ?_⟩
    · rw [hcrc, badCount_cons, if_neg fun hboth => hd hboth.1.symm, Nat.add_zero]
    · rw [hsees]
      exact hseen
    · rw [hsees]
      exact hprocessed
    · rw [hsees]
      exact hof

theorem runModels_counts {base : ℕ} {m : DaqMultiDcuData} {dataEnd data d : ℕ}
    {hs : List DaqMsgHeader} {tab : ℕ → DcuStats} (hwrap : ∀ h ∈ hs, exactSize [h] < 2 ^ 32)
    (hcut : CutShort hs data dataEnd → (tab d).seenLastCycle = true →
      (tab d).processedThisCycle = true ∨ Sees (statsLoop base m dataEnd hs data) d) :
    LoopCounts (statsLoop base m dataEnd hs data) d (tab d)
      (runModels base m dataEnd hs data tab d) := by
  induction hs generalizing data tab with
  | nil =>
    refine ⟨(Int32.add_zero _).symm, ?_, ?_, fun _ h => .inl h⟩
    · exact (or_iff_left (not_sees_nil d)).symm
    · exact fun h => h.resolve_right (not_sees_nil d)
  | cons h hs ih =>
    have hsize := blockSize_eq_exactSize (hwrap h List.mem_cons_self)
    have hwrap' : ∀ h' ∈ hs, exactSize [h'] < 2 ^ 32 :=
      fun h' hh' => hwrap h' (List.mem_cons_of_mem h hh')
    unfold runModels
    by_cases hknown : Known h
    · rw [if_neg hknown]
      dsimp only
      by_cases hend : dataEnd < data + h.blockSize
      · -- the block is not there
        have hnil : statsLoop base m dataEnd (h :: hs) data = [] := by
          rw [statsLoop, if_neg hknown, if_pos hend]
        rw [hnil] at hcut ⊢
        rw [if_pos hend]
        have hall : (tab d).seenLastCycle = true → (tab d).processedThisCycle = true :=
          fun hseen => (hcut (cutShort_cons.mpr (.inr (.inl ⟨hknown, hsize ▸ hend⟩)))
            hseen).resolve_right (not_sees_nil d)
        unfold forEach
        obtain ⟨hcrc, hseen, hprocessed⟩ :=
          DcuStats.markProcessed_counts (tab h.dcuId.toNat) h
        by_cases hd : d = h.dcuId.toNat
        · subst hd
          rw [Function.update_self]
          exact loopCounts_mark hcrc hseen (fun _ => hprocessed) hall
        · rw [Function.update_of_ne hd]
          exact loopCounts_mark rfl rfl id hall
      · have hcons : statsLoop base m dataEnd (h :: hs) data =
            ⟨h.dcuId, receivedCrc base m data h.dataBlockSize.toNat != h.dataCrc⟩ ::
              statsLoop base m dataEnd hs (data + h.blockSize) := by
          rw [statsLoop, if_neg hknown, if_neg hend]
        rw [hcons] at hcut ⊢
        rw [if_neg hend]
        apply LoopCounts.cons
        apply ih hwrap'
        intro hshort hseen
        by_cases hd : d = h.dcuId.toNat
        · subst hd
          left
          rw [Function.update_self]
          exact ((tab _).markRead_counts h _).2.2
        · rw [Function.update_of_ne hd] at hseen ⊢
          have hshort' : CutShort (h :: hs) data dataEnd :=
            cutShort_cons.mpr (.inr (.inr (hsize ▸ hshort)))
          rcases hcut hshort' hseen with hprocessed | hsees
          · exact .inl hprocessed
          · exact .inr ((sees_cons.mp hsees).resolve_left fun heq => hd heq.symm)
    · rw [if_pos (not_not.mp hknown)]
      by_cases hdata : NoData h
      · have hskip : statsLoop base m dataEnd (h :: hs) data =
            statsLoop base m dataEnd hs data := by
          rw [statsLoop, if_pos (not_not.mp hknown), if_neg hdata]
        rw [hskip] at hcut ⊢
        rw [if_neg hdata]
        apply ih hwrap'
        intro hshort
        apply hcut
        apply cutShort_cons.mpr
        rw [exactSize_of_noData hdata, Nat.add_zero]
        exact .inr (.inr hshort)
      · have hnil : statsLoop base m dataEnd (h :: hs) data = [] := by
          rw [statsLoop, if_pos (not_not.mp hknown), if_pos (not_not.mp hdata)]
        rw [hnil] at hcut ⊢
        rw [if_pos (not_not.mp hdata)]
        apply loopCounts_mark rfl rfl id
        exact fun hseen => (hcut (cutShort_cons.mpr (.inl ⟨hknown, hdata⟩)) hseen).resolve_right
          (not_sees_nil d)

/-! ## One message -/

section Message

variable {base d : ℕ} {s : DcStats} {m : DaqMultiDcuData}

/-- The models that `run` sees in a message. -/
def seenModels (base : ℕ) (m : DaqMultiDcuData) : List SeenDcu :=
  statsLoop base m m.header.fullDataBlockSize m.models 0

instance (seen : List SeenDcu) (d : ℕ) : Decidable (Sees seen d) := by
  unfold Sees
  infer_instance

/-- What a message adds to the counter of a DCU: its bad checksums, and one if it is missing. -/
def failures (base : ℕ) (s : DcStats) (m : DaqMultiDcuData) (d : ℕ) : ℕ :=
  badCount (seenModels base m) d +
    if (s.dcuStatus d).seenLastCycle = true ∧ ¬ Sees (seenModels base m) d then 1 else 0

theorem countMessage_counts (hsized : WellSized m) (hwrap : ∀ h ∈ m.models, exactSize [h] < 2 ^ 32)
    (hcut : CutShort m.models 0 m.header.fullDataBlockSize →
      (s.dcuStatus d).seenLastCycle = true → Sees (seenModels base m) d) :
    (s.countMessage base m d).crcSum =
        (s.dcuStatus d).crcSum + Int32.ofNat (failures base s m d) ∧
      ((s.countMessage base m d).seenLastCycle = true ↔ Sees (seenModels base m) d) := by
  obtain ⟨hcrc, hseen, hprocessed, hof⟩ := @runModels_counts base m
    m.header.fullDataBlockSize 0 d m.models
    (forEach DcuStats.clearProcessedThisCycle s.dcuStatus) hwrap
    fun hshort hset => .inr (hcut hshort hset)
  unfold DcStats.countMessage failures
  rw [if_pos hsized]
  show (DcuStats.markDcuIfSkippedThisCycle _).clearSeenLastCycleIfSkipped.crcSum = _ ∧
    ((DcuStats.markDcuIfSkippedThisCycle _).clearSeenLastCycleIfSkipped.seenLastCycle = true ↔ _)
  change _ = (s.dcuStatus d).crcSum + Int32.ofNat (badCount (seenModels base m) d) at hcrc
  change _ ↔ (s.dcuStatus d).seenLastCycle = true ∨ Sees (seenModels base m) d at hseen
  change false = true ∨ Sees (seenModels base m) d → _ at hprocessed
  change (s.dcuStatus d).seenLastCycle = true → _ → false = true ∨ Sees (seenModels base m) d at hof
  generalize runModels base m _ _ _ _ d = t at hcrc hseen hprocessed hof ⊢
  unfold DcuStats.markDcuIfSkippedThisCycle
  by_cases ht : t.processedThisCycle = true
  · have hsees : (s.dcuStatus d).seenLastCycle = true → Sees (seenModels base m) d :=
      fun hset => (hof hset ht).resolve_left Bool.false_ne_true
    rw [if_pos ht, DcuStats.clearSeenLastCycleIfSkipped, if_pos ht, hcrc,
      if_neg fun hmissing => hmissing.2 (hsees hmissing.1), Nat.add_zero, hseen]
    exact ⟨rfl, or_iff_right_of_imp hsees⟩
  · have hnot : ¬ Sees (seenModels base m) d := fun hsees => ht (hprocessed (.inr hsees))
    rw [or_iff_left hnot] at hseen
    have hskipped : t.dcuSkipped.processedThisCycle = t.processedThisCycle := by
      unfold DcuStats.dcuSkipped
      dsimp only
      split
      · rfl
      · rfl
    rw [if_neg ht, DcuStats.clearSeenLastCycleIfSkipped, if_neg (by rw [hskipped]; exact ht)]
    refine ⟨?_, ⟨fun hset => absurd hset Bool.false_ne_true, fun hsees => absurd hsees hnot⟩⟩
    show t.dcuSkipped.crcSum = _
    unfold DcuStats.dcuSkipped
    dsimp only
    by_cases hset : (s.dcuStatus d).seenLastCycle = true
    · rw [if_pos (hseen.mpr hset), if_pos ⟨hset, hnot⟩, Int32.ofNat_add, ← Int32.add_assoc, ← hcrc]
      rfl
    · rw [if_neg (fun h => hset (hseen.mp h)), if_neg fun hmissing => hset hmissing.1, hcrc]
      rfl

theorem countMessage_malformed (hsized : ¬ WellSized m) :
    (s.countMessage base m d).crcSum = (s.dcuStatus d).crcSum + 1 ∧
      (s.countMessage base m d).seenLastCycle = (s.dcuStatus d).seenLastCycle := by
  unfold DcStats.countMessage
  rw [if_neg hsized]
  exact ⟨rfl, rfl⟩

theorem sees_iff_readable (hwrap : ∀ h ∈ m.models, exactSize [h] < 2 ^ 32) :
    Sees (seenModels base m) d ↔ Readable m d :=
  exists_mem_statsLoop (P := fun id _ => id.toNat = d) hwrap

theorem badCount_pos_iff (hwrap : ∀ h ∈ m.models, exactSize [h] < 2 ^ 32) :
    0 < badCount (seenModels base m) d ↔ Mismatched base m d := by
  unfold badCount
  rw [List.countP_pos_iff]
  simp only [decide_eq_true_eq]
  refine (exists_mem_statsLoop (P := fun id bad => id.toNat = d ∧ bad = true) hwrap).trans ?_
  simp only [bne_iff_ne, ne_eq, Nat.zero_add, Mismatched]

theorem badCount_le (base : ℕ) (m : DaqMultiDcuData) (dataEnd data : ℕ) (hs : List DaqMsgHeader)
    (d : ℕ) : badCount (statsLoop base m dataEnd hs data) d ≤
      hs.countP fun h => h.dcuId.toNat = d := by
  induction hs generalizing data with
  | nil => exact Nat.le_refl 0
  | cons h hs ih =>
    have hmore : hs.countP (fun h => h.dcuId.toNat = d) ≤
        (h :: hs).countP fun h => h.dcuId.toNat = d := (List.sublist_cons_self h hs).countP_le
    unfold statsLoop
    split
    · split
      · exact Nat.zero_le _
      · exact (ih data).trans hmore
    · split
      · exact Nat.zero_le _
      · rw [badCount_cons, List.countP_cons]
        apply Nat.add_le_add (ih _)
        by_cases hd : h.dcuId.toNat = d
        · rw [if_pos (decide_eq_true hd)]
          split
          · exact Nat.le_refl 1
          · exact Nat.zero_le 1
        · rw [if_neg fun hboth => hd hboth.1]
          exact Nat.zero_le _

end Message

/-! ## Sums over the DCUs -/

def dcuSum (f : ℕ → ℕ) : ℕ := ((List.range dcuCount).map f).sum

theorem dcuSum_add (f g : ℕ → ℕ) : dcuSum (fun d => f d + g d) = dcuSum f + dcuSum g :=
  List.sum_map_add

theorem dcuSum_const (n : ℕ) : dcuSum (fun _ => n) = dcuCount * n := by
  unfold dcuSum
  simp

theorem dcuSum_le {f g : ℕ → ℕ} (h : ∀ d < dcuCount, f d ≤ g d) : dcuSum f ≤ dcuSum g :=
  List.sum_le_sum fun d hd => h d (List.mem_range.mp hd)

theorem dcuSum_cast {f : ℕ → ℕ} {g : ℕ → ℤ} (h : ∀ d < dcuCount, g d = f d) :
    ((List.range dcuCount).map g).sum = dcuSum f := by
  have hmap : (List.range dcuCount).map g = ((List.range dcuCount).map f).map Nat.cast := by
    rw [List.map_map]
    exact List.map_congr_left fun d hd => h d (List.mem_range.mp hd)
  rw [hmap, dcuSum, Nat.cast_list_sum]

theorem dcuSum_countP_le {α : Type} (l : List α) (id : α → ℕ) :
    dcuSum (fun d => l.countP fun x => id x = d) ≤ l.length := by
  induction l with
  | nil => exact (dcuSum_const 0).le
  | cons x l ih =>
    have hone : dcuSum (fun d => if id x = d then 1 else 0) ≤ 1 := by
      have hrange : ∀ n, ((List.range n).map fun d => if id x = d then 1 else 0).sum =
          if id x < n then 1 else 0 := by
        intro n
        induction n with
        | zero => rfl
        | succ n ihn =>
          rw [List.range_succ, List.map_append, List.sum_append, ihn]
          show _ + ((if id x = n then 1 else 0) + 0) = _
          split_ifs <;> omega
      unfold dcuSum
      rw [hrange]
      split_ifs
      · exact Nat.le_refl 1
      · exact Nat.zero_le 1
    have hsplit : dcuSum (fun d => (x :: l).countP fun x => id x = d) =
        dcuSum (fun d => l.countP fun x => id x = d) +
          dcuSum (fun d => if id x = d then 1 else 0) := by
      rw [← dcuSum_add]
      congr 1
      ext d
      rw [List.countP_cons]
      simp only [decide_eq_true_eq]
    rw [hsplit, List.length_cons]
    omega

theorem crcSums_eq {dcuStatus : ℕ → DcuStats} {count : ℕ → ℕ}
    (h : ∀ d < dcuCount, (dcuStatus d).crcSum = Int32.ofNat (count d)) :
    DcStats.crcSums dcuStatus = Int32.ofNat (dcuSum count) := by
  have hfold : ∀ (l : List ℕ) (n : ℕ), (∀ d ∈ l, (dcuStatus d).crcSum = Int32.ofNat (count d)) →
      l.foldl (fun val d => val + (dcuStatus d).crcSum) (Int32.ofNat n) =
        Int32.ofNat (n + (l.map count).sum) := by
    intro l
    induction l with
    | nil => exact fun n _ => rfl
    | cons d l ih =>
      intro n hl
      rw [List.foldl_cons, hl d List.mem_cons_self, ← Int32.ofNat_add,
        ih _ fun d' hd' => hl d' (List.mem_cons_of_mem d hd'), List.map_cons, List.sum_cons,
        Nat.add_assoc]
  have hrange := hfold (List.range dcuCount) 0 fun d hd => h d (List.mem_range.mp hd)
  rwa [Nat.zero_add] at hrange

/-! ## The total -/

theorem toUInt64_ofNat {n : ℕ} (h : n < 2 ^ 31) : toUInt64 (Int32.ofNat n) = UInt64.ofNat n := by
  unfold toUInt64
  rw [Int32.toInt64_ofNat' (by rw [Int32.toInt_maxValue]; omega), Int64.toUInt64_ofNat']

theorem toInt32_ofNat (n : ℕ) : toInt32 (UInt64.ofNat n) = Int32.ofNat n := by
  unfold toInt32
  rw [UInt64.toUInt32_ofNat', UInt32.toInt32_ofNat']

theorem countTotal_eq {s : DcStats} {dcuStatus : ℕ → DcuStats} {sum prev total : ℕ}
    (hsum : DcStats.crcSums dcuStatus = Int32.ofNat sum)
    (hprev : s.prevTotalCrcCount = Int32.ofNat prev)
    (htotal : s.totalCrcCount = Int32.ofNat total) (hle : prev ≤ sum)
    (hroom : total + (sum - prev) < 2 ^ 31) (hsmall : sum < 2 ^ 31) :
    (s.countTotal dcuStatus).totalCrcCount = Int32.ofNat (total + (sum - prev)) ∧
      (s.countTotal dcuStatus).prevTotalCrcCount = Int32.ofNat sum := by
  have hlt : ∀ n : ℕ, n < 2 ^ 31 → n < UInt64.size := by
    intro n hn
    exact Nat.lt_trans hn (by decide)
  unfold DcStats.countTotal
  dsimp only
  rw [hsum, hprev, htotal, toUInt64_ofNat hsmall, toUInt64_ofNat (by omega),
    toUInt64_ofNat (by omega), toInt32_ofNat]
  have hcompare : UInt64.ofNat sum > UInt64.ofNat prev ↔ prev < sum :=
    UInt64.ofNat_lt_iff_lt (hlt _ (by omega)) (hlt _ hsmall)
  refine ⟨?_, rfl⟩
  by_cases hmore : prev < sum
  · rw [if_pos (hcompare.mpr hmore), ← UInt64.ofNat_sub hle, ← UInt64.ofNat_add, toInt32_ofNat]
  · rw [if_neg fun h => hmore (hcompare.mp h), show sum - prev = 0 by omega, Nat.add_zero]

/-! ## Runs -/

def DcSys.CountsWell (s : DcSys) : DcAct → Prop
  | .message m => s.made + 2 * dcuCount < 2 ^ 31 ∧ (WellSized m →
    (∀ h ∈ m.models, exactSize [h] < 2 ^ 32) ∧
    (CutShort m.models 0 m.header.fullDataBlockSize ∨ s.afterMalformed = true →
      ∀ d < dcuCount, (s.dc.dcuStatus d).seenLastCycle = true → Readable m d))
  | .requestClearCrc => True

instance (s : DcSys) : ∀ a, Decidable (s.CountsWell a)
  | .message m => inferInstanceAs (Decidable (_ ∧ (WellSized m → _ ∧ (_ ∨ _ → _))))
  | .requestClearCrc => .isTrue trivial

/-- The counters hold the failures since they were cleared, the total those until it was updated
last, and the flags say what was seen before. -/
structure Counted (tr : List DcEvent) (s : DcSys) (count : ℕ → ℕ) (prev total : ℕ) : Prop where
  crc_eq : ∀ d < dcuCount, (s.dc.dcuStatus d).crcSum = Int32.ofNat (count d)
  prev_eq : s.dc.prevTotalCrcCount = Int32.ofNat prev
  total_eq : s.dc.totalCrcCount = Int32.ofNat total
  prev_le : prev ≤ dcuSum count
  prev_le_total : prev ≤ total
  made_eq : s.made + prev = total + dcuSum count
  increments_eq : allIncrements tr = s.made
  seen_iff : s.afterMalformed = false → ∀ d < dcuCount,
    ((s.dc.dcuStatus d).seenLastCycle = true ↔ SeenBefore tr d)
  not_seen : s.afterMalformed = true → ∀ d, ¬ SeenBefore tr d

theorem seenBefore_message {tr : List DcEvent} {m : DaqMultiDcuData} {increment : ℕ → ℤ} {total : ℤ}
    {d : ℕ} : SeenBefore (tr ++ [.message m increment total]) d ↔ WellSized m ∧ Readable m d := by
  have hlast : lastMessage (tr ++ [.message m increment total]) = some m := by
    unfold lastMessage
    rw [List.filterMap_append]
    exact List.getLast?_concat
  unfold SeenBefore
  rw [hlast]
  constructor
  · rintro ⟨m', hm', hseen⟩
    cases hm'
    exact hseen
  · exact fun hseen => ⟨m, rfl, hseen⟩

theorem allIncrements_message (tr : List DcEvent) (m : DaqMultiDcuData) (increment : ℕ → ℤ)
    (total : ℤ) : allIncrements (tr ++ [.message m increment total]) =
      allIncrements tr + ((List.range dcuCount).map increment).sum := by
  unfold allIncrements
  rw [List.map_append, List.sum_append]
  simp

theorem toInt_ofNat_add_sub {x : Int32} {n : ℕ} (h : n < 2 ^ 31) :
    (x + Int32.ofNat n - x).toInt = n := by
  rw [Int32.add_comm, Int32.add_sub_cancel, Int32.toInt_ofNat_of_lt h]

section Steps

variable {base : ℕ} {tr : List DcEvent} {s : DcSys} {m : DaqMultiDcuData} {count : ℕ → ℕ}
  {prev total : ℕ}

theorem Counted.malformed (h : Counted tr s count prev total) (hsized : ¬ WellSized m)
    {e : DcEvent} {t : DcSys} (hstep : s.step base (.message m) = some (e, t)) :
    Counted (tr ++ [e]) t (fun d => count d + 1) prev total := by
  obtain ⟨rfl, rfl⟩ := hstep
  have hcounts := fun d => @countMessage_malformed base d s.dc m hsized
  have hrun : s.dc.runMessage base m =
      { s.dc with dcuStatus := s.dc.countMessage base m, cycles := s.dc.cycles + 1 } := by
    unfold DcStats.runMessage
    dsimp only
    rw [if_neg hsized]
  have hincrement : ∀ d < dcuCount, s.dc.increment base m d = (1 : ℕ) := by
    intro d _
    unfold DcStats.increment
    rw [(hcounts d).1]
    exact toInt_ofNat_add_sub (n := 1) (by decide)
  have hsum := dcuSum_cast hincrement
  have hmore := dcuSum_add count fun _ => 1
  rw [hrun]
  refine ⟨?_, h.prev_eq, h.total_eq, ?_, h.prev_le_total, ?_, ?_, ?_, ?_⟩
  · intro d hd
    show (s.dc.countMessage base m d).crcSum = _
    rw [(hcounts d).1, h.crc_eq d hd, Int32.ofNat_add]
    rfl
  · have hle := h.prev_le
    omega
  · have hmade := h.made_eq
    show s.made + ((List.range dcuCount).map (s.dc.increment base m)).sum + prev = _
    omega
  · rw [allIncrements_message, h.increments_eq]
  · intro hwell
    exact absurd hsized (of_decide_eq_false hwell)
  · intro _ d
    rw [seenBefore_message]
    exact fun hseen => hsized hseen.1

theorem runMessage_wellSized (base : ℕ) (dc : DcStats) (hsized : WellSized m) :
    let tab := dc.countMessage base m
    let r := dc.runMessage base m
    r.totalCrcCount = (dc.countTotal tab).totalCrcCount ∧
      (∀ d, (r.dcuStatus d).seenLastCycle = (tab d).seenLastCycle) ∧
      ((∀ d, (r.dcuStatus d).crcSum = (tab d).crcSum) ∧
          r.prevTotalCrcCount = (dc.countTotal tab).prevTotalCrcCount ∨
        (∀ d, (r.dcuStatus d).crcSum = 0) ∧ r.prevTotalCrcCount = 0) := by
  unfold DcStats.runMessage
  dsimp only
  rw [if_pos hsized]
  split
  · unfold DcStats.oneSecUpdate
    dsimp only
    split
    · exact ⟨rfl, fun _ => rfl, .inr ⟨fun _ => rfl, rfl⟩⟩
    · exact ⟨rfl, fun _ => rfl, .inl ⟨fun _ => rfl, rfl⟩⟩
  · exact ⟨rfl, fun _ => rfl, .inl ⟨fun _ => rfl, rfl⟩⟩

theorem dcuSum_failures_le (base : ℕ) (dc : DcStats) (hsized : WellSized m) :
    dcuSum (failures base dc m) ≤ 2 * dcuCount := by
  have hbad : dcuSum (badCount (seenModels base m)) ≤ dcuCount :=
    calc dcuSum (badCount (seenModels base m))
        ≤ dcuSum (fun d => m.models.countP fun h => h.dcuId.toNat = d) :=
          dcuSum_le fun d _ => badCount_le ..
      _ ≤ m.models.length := dcuSum_countP_le ..
      _ = m.header.dcuTotalModels := length_models m
      _ ≤ dcuCount := hsized.2.1
  have hmissing : dcuSum (fun d => if (dc.dcuStatus d).seenLastCycle = true ∧
      ¬ Sees (seenModels base m) d then 1 else 0) ≤ dcuCount := by
    calc _ ≤ dcuSum fun _ => 1 := dcuSum_le fun d _ => by split <;> omega
      _ = dcuCount := by rw [dcuSum_const, Nat.mul_one]
  unfold failures
  rw [dcuSum_add]
  omega

theorem Counted.wellSized (h : Counted tr s count prev total) (hok : s.CountsWell (.message m))
    (hsized : WellSized m) {e : DcEvent} {t : DcSys}
    (hstep : s.step base (.message m) = some (e, t)) :
    ∃ count' prev' total', Counted (tr ++ [e]) t count' prev' total' ∧
      e = .message m (s.dc.increment base m) t.dc.totalCrcCount.toInt ∧
      (∀ d < dcuCount, s.dc.increment base m d = failures base s.dc m d) ∧
      t.dc.totalCrcCount.toInt = allIncrements (tr ++ [e]) := by
  obtain ⟨hroom, hwell⟩ := hok
  obtain ⟨hwrap, hmissing⟩ := hwell hsized
  obtain ⟨rfl, rfl⟩ := hstep
  have hcounts : ∀ d < dcuCount, _ := fun d hd =>
    @countMessage_counts base d s.dc m hsized hwrap fun hshort hset =>
      (sees_iff_readable hwrap).mpr (hmissing (.inl hshort) d hd hset)
  have hfew := dcuSum_failures_le base s.dc hsized
  have hsmall : ∀ d < dcuCount, failures base s.dc m d ≤ 2 * dcuCount := by
    intro d hd
    apply le_trans _ hfew
    exact List.single_le_sum (fun x _ => Nat.zero_le x) _
      (List.mem_map_of_mem (List.mem_range.mpr hd))
  have hdcus : dcuCount = 256 := rfl
  have hincrement : ∀ d < dcuCount, s.dc.increment base m d = failures base s.dc m d := by
    intro d hd
    unfold DcStats.increment
    rw [(hcounts d hd).1]
    apply toInt_ofNat_add_sub
    have hle := hsmall d hd
    omega
  have hsum := dcuSum_cast hincrement
  have hmore := dcuSum_add count (failures base s.dc m)
  have hprev := h.prev_le
  have hprev' := h.prev_le_total
  have hmade := h.made_eq
  have hcrc : ∀ d < dcuCount, (s.dc.countMessage base m d).crcSum =
      Int32.ofNat (count d + failures base s.dc m d) := by
    intro d hd
    rw [(hcounts d hd).1, h.crc_eq d hd, Int32.ofNat_add]
  obtain ⟨htotal, hprevTotal⟩ := countTotal_eq (crcSums_eq hcrc) h.prev_eq h.total_eq
    (by omega) (by omega) (by omega)
  obtain ⟨hrunTotal, hrunSeen, hrunCounts⟩ := runMessage_wellSized base s.dc hsized
  -- the total is that of all increments
  have hall : (s.dc.runMessage base m).totalCrcCount.toInt =
      s.made + ((List.range dcuCount).map (s.dc.increment base m)).sum := by
    rw [hrunTotal, htotal, Int32.toInt_ofNat_of_lt (by omega)]
    omega
  have hincrements : allIncrements (tr ++ [.message m (s.dc.increment base m)
      (s.dc.runMessage base m).totalCrcCount.toInt]) =
        s.made + ((List.range dcuCount).map (s.dc.increment base m)).sum := by
    rw [allIncrements_message, h.increments_eq]
  have hseen : ∀ d < dcuCount, (((s.dc.runMessage base m).dcuStatus d).seenLastCycle = true ↔
      SeenBefore (tr ++ [.message m (s.dc.increment base m)
        (s.dc.runMessage base m).totalCrcCount.toInt]) d) := by
    intro d hd
    rw [hrunSeen, (hcounts d hd).2, sees_iff_readable hwrap, seenBefore_message]
    exact (and_iff_right hsized).symm
  have hmalformed : decide (¬ WellSized m) = false := decide_eq_false (not_not.mpr hsized)
  rcases hrunCounts with ⟨hkept, hkeptPrev⟩ | ⟨hcleared, hclearedPrev⟩
  · refine ⟨fun d => count d + failures base s.dc m d, _, _, ⟨?_, hkeptPrev.trans hprevTotal,
      hrunTotal.trans htotal, le_refl _, ?_, ?_, hincrements, fun _ => hseen, ?_⟩, rfl, hincrement,
      hall.trans hincrements.symm⟩
    · intro d hd
      rw [hkept, hcrc d hd]
    · omega
    · show s.made + ((List.range dcuCount).map (s.dc.increment base m)).sum + _ = _
      omega
    · intro hbad
      exact absurd (hmalformed.symm.trans hbad) Bool.false_ne_true
  · refine ⟨fun _ => 0, 0, _, ⟨fun d _ => hcleared d, hclearedPrev, hrunTotal.trans htotal,
      Nat.zero_le _, Nat.zero_le _, ?_, hincrements, fun _ => hseen, ?_⟩, rfl, hincrement,
      hall.trans hincrements.symm⟩
    · have hzero := dcuSum_const 0
      show s.made + ((List.range dcuCount).map (s.dc.increment base m)).sum + _ = _
      omega
    · intro hbad
      exact absurd (hmalformed.symm.trans hbad) Bool.false_ne_true

theorem Counted.failures_eq (h : Counted tr s count prev total) (hok : s.CountsWell (.message m))
    (hsized : WellSized m) {d : ℕ} (hd : d < dcuCount)
    (honce : m.models.countP (fun h => h.dcuId.toNat = d) ≤ 1) :
    (Mismatched base m d ∨ SeenBefore tr d ∧ ¬ Readable m d) ∧ failures base s.dc m d = 1 ∨
      ¬ (Mismatched base m d ∨ SeenBefore tr d ∧ ¬ Readable m d) ∧ failures base s.dc m d = 0 := by
  obtain ⟨hwrap, hmissing⟩ := hok.2 hsized
  have hbad := (badCount_le base m m.header.fullDataBlockSize 0 m.models d).trans honce
  change badCount (seenModels base m) d ≤ 1 at hbad
  have hseen : (s.dc.dcuStatus d).seenLastCycle = true ∧ ¬ Readable m d ↔
      SeenBefore tr d ∧ ¬ Readable m d := by
    by_cases hmal : s.afterMalformed = true
    · exact ⟨fun hlost => absurd (hmissing (.inr hmal) d hd hlost.1) hlost.2,
        fun hlost => absurd hlost.1 (h.not_seen hmal d)⟩
    · rw [h.seen_iff (Bool.eq_false_iff.mpr hmal) d hd]
  rw [← badCount_pos_iff hwrap, ← hseen]
  unfold failures
  have hlost : (s.dc.dcuStatus d).seenLastCycle = true ∧ ¬ Sees (seenModels base m) d ↔
      (s.dc.dcuStatus d).seenLastCycle = true ∧ ¬ Readable m d :=
    and_congr_right fun _ => not_congr (sees_iff_readable hwrap)
  by_cases hgone : (s.dc.dcuStatus d).seenLastCycle = true ∧ ¬ Readable m d
  · -- what cannot be read has no bad checksum
    have hnone : ¬ 0 < badCount (seenModels base m) d := by
      rw [badCount_pos_iff hwrap]
      rintro ⟨i, h, hread, hid, -⟩
      exact hgone.2 ⟨i, h, hread, hid⟩
    rw [if_pos (hlost.mpr hgone)]
    exact .inl ⟨.inr hgone, by omega⟩
  · rw [if_neg fun h => hgone (hlost.mp h), or_iff_left hgone]
    omega

end Steps

/-- As long as all messages are counted well, every failure is counted once, and the total is that
of all increments. -/
theorem counts_once {base : ℕ} {expectedConfigCrc : ℕ → Int32} {acts : List DcAct}
    {tr : List DcEvent} {s : DcSys}
    (h : run (restrict DcSys.CountsWell (DcSys.step base)) { dc := .start expectedConfigCrc } acts =
      some (tr, s)) : CountsOnce base tr := by
  have hboth := run_induction (fun tr s => (∃ count prev total, Counted tr s count prev total) ∧
    CountsOnce base tr) (fun tr s a _ e t hinv hstep => ?_) ⟨⟨fun _ => 0, 0, 0, ?_⟩, ?_⟩ h
  · exact hboth.2
  · obtain ⟨hok, hstep⟩ := restrict_eq_some.mp hstep
    obtain ⟨⟨count, prev, total, hinv⟩, honce⟩ := hinv
    cases a with
    | requestClearCrc =>
      obtain ⟨rfl, rfl⟩ := hstep
      have hlast : lastMessage (tr ++ [.requested]) = lastMessage tr := by
        unfold lastMessage
        rw [List.filterMap_append]
        exact congrArg List.getLast? (List.append_nil _)
      have hincrements : allIncrements (tr ++ [.requested]) = allIncrements tr := by
        unfold allIncrements
        rw [List.map_append, List.sum_append]
        exact add_zero _
      refine ⟨⟨count, prev, total, hinv.crc_eq, hinv.prev_eq, hinv.total_eq, hinv.prev_le,
        hinv.prev_le_total, hinv.made_eq, hincrements.trans hinv.increments_eq, ?_, ?_⟩, ?_⟩
      · intro hwell d hd
        unfold SeenBefore
        rw [hlast]
        exact hinv.seen_iff hwell d hd
      · intro hmal d
        unfold SeenBefore
        rw [hlast]
        exact hinv.not_seen hmal d
      · intro past m increment total rest hsplit
        rcases snoc_split hsplit with ⟨-, hnot, -⟩ | ⟨rest', htr, -⟩
        · cases hnot
        · exact honce _ _ _ _ _ htr
    | message m =>
      by_cases hsized : WellSized m
      · obtain ⟨count', prev', total', hinv', rfl, hincrement, htotal⟩ :=
          hinv.wellSized hok hsized hstep
        refine ⟨⟨_, _, _, hinv'⟩, ?_⟩
        intro past m' increment total rest hsplit hsized'
        rcases snoc_split hsplit with ⟨rfl, hlast, rfl⟩ | ⟨rest', htr, -⟩
        · cases hlast
          refine ⟨fun d hd hcount => ?_, htotal⟩
          rw [hincrement d hd]
          rcases hinv.failures_eq hok hsized hd hcount with ⟨hyes, hone⟩ | ⟨hno, hzero⟩
          · rw [hone, if_pos hyes]
            rfl
          · rw [hzero, if_neg hno]
            rfl
        · exact honce _ _ _ _ _ htr hsized'
      · have hinv' := hinv.malformed hsized hstep
        refine ⟨⟨_, _, _, hinv'⟩, ?_⟩
        obtain ⟨rfl, rfl⟩ := hstep
        intro past m' increment total rest hsplit hsized'
        rcases snoc_split hsplit with ⟨-, hlast, -⟩ | ⟨rest', htr, -⟩
        · cases hlast
          exact absurd hsized' hsized
        · exact honce _ _ _ _ _ htr hsized'
  · refine ⟨fun _ _ => rfl, rfl, rfl, Nat.zero_le _, Nat.le_refl 0, ?_, rfl, fun _ d _ => ?_, ?_⟩
    · show (0 : ℤ) + 0 = 0 + dcuSum fun _ => 0
      rw [dcuSum_const]
      rfl
    · refine ⟨fun hset => absurd hset Bool.false_ne_true, ?_⟩
      rintro ⟨m, hnone, -⟩
      exact absurd hnone (by simp [lastMessage])
    · exact fun hset => absurd hset Bool.false_ne_true
  · intro past m increment total rest hnil
    exact absurd hnil (by simp)

def byteModels (dcuIds : List UInt32) : DaqMultiDcuData where
  header :=
    { dcuTotalModels := dcuIds.length
      fullDataBlockSize := dcuIds.length
      dcuheader := fun i => { dcuId := dcuIds.getD i 0, dataBlockSize := 1 } }
  dataBlock := fun _ => 0

/-- The second message lacks a DCU, and the counters are cleared after it. -/
def oneMissing : List DcAct :=
  [.message (byteModels [5, 6]), .requestClearCrc, .message (byteModels [6])]

theorem counts_once_oneMissing : ∃ r, run (restrict DcSys.CountsWell (DcSys.step 0))
    { dc := .start fun _ => 0 } oneMissing = some r ∧ CountsOnce 0 r.1 := by
  have hrun : (run (restrict DcSys.CountsWell (DcSys.step 0)) { dc := .start fun _ => 0 }
      oneMissing).isSome = true := by decide +kernel
  obtain ⟨⟨tr, s⟩, hr⟩ := Option.isSome_iff_exists.mp hrun
  exact ⟨(tr, s), hr, counts_once hr⟩

/-- The second message ends at a model that cannot be skipped, and DCU 6 counts twice as missing. -/
theorem missing_counted_twice : ∃ r, run (DcSys.step 0) { dc := .start fun _ => 0 }
    [.message (byteModels [5, 6]), .message (byteModels [5, 0])] = some r ∧
      ¬ CountsOnce 0 r.1 := by
  refine ⟨_, rfl, fun h => ?_⟩
  obtain ⟨hincrement, -⟩ := h [_] _ _ _ [] rfl (by decide)
  have hsix := hincrement 6 (by decide) (by decide)
  have htwo : ((DcStats.start fun _ => 0).runMessage 0 (byteModels [5, 6])).increment 0
      (byteModels [5, 0]) 6 = 2 := by decide +kernel
  rw [htwo] at hsix
  split at hsix
  · exact absurd hsix (by decide)
  · exact absurd hsix (by decide)

end AdvLigoRts.PubSub
