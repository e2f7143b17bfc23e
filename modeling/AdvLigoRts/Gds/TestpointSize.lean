import AdvLigoRts.Gds.TestpointTheorems
import Mathlib.Algebra.BigOperators.Fin
import Mathlib.Algebra.Order.BigOperators.Group.Finset

/-!
# Test points and the size of the DAQ block

The first loop of a request expects an entry for every test point of the list that meets an empty
slot, so that it expects at least as many entries as the second loop takes.
-/

namespace AdvLigoRts.Gds

open PvLib TpNode

variable {tpNode : TpNode} {indx indx' : Indx} {r : RequestTp} {l : List ℕ} {i : ℕ}
variable {s : TpState} {sec : TpSection}

/-- The size of the DAQ block with so many test points. -/
def daqSize (tpNode : TpNode) (n : ℕ) : ℕ :=
  n * 4 * 16384 * tpNode.sysFreqMult + tpNode.curDaqBlockSize

/-- The DAQ block with so many test points is not too large. -/
def Fits (tpNode : TpNode) (n : ℕ) : Prop := daqSize tpNode n ≤ daqDcuSize

theorem Fits.mono {m n : ℕ} (h : Fits tpNode n) (hle : m ≤ n) : Fits tpNode m := by
  refine le_trans (Nat.add_le_add_right ?_ _) h
  exact Nat.mul_le_mul_right _ (Nat.mul_le_mul_right _ (Nat.mul_le_mul_right _ hle))

theorem activeTps_eq_sum (indx : Indx) : activeTps indx = ∑ f, usedSlots indx f := by
  rw [← List.sum_ofFn, List.ofFn_eq_map]
  rfl

/-- Clearing test points never adds one. -/
theorem Shrinks.activeTps_le (h : Shrinks indx indx') : activeTps indx' ≤ activeTps indx := by
  rw [activeTps_eq_sum, activeTps_eq_sum]
  refine Finset.sum_le_sum fun f _ => List.countP_mono_left fun j _ hj => ?_
  rw [decide_eq_true_eq] at hj ⊢
  rcases h f j with hid | hid
  · exact hid ▸ hj
  · exact absurd hid hj

theorem SameUse.activeTps (h : SameUse indx indx') : activeTps indx' = Gds.activeTps indx := by
  have hid : ∀ f j, (indx' f j).id = (indx f j).id := fun f j => (h f j).1
  unfold Gds.activeTps
  simp only [hid]

theorem activeTps_zero : activeTps Indx.zero = 0 := by
  rw [activeTps_eq_sum]
  refine Finset.sum_eq_zero fun f _ => ?_
  rw [usedSlots, List.countP_eq_zero]
  simp [Indx.zero, TpEntry.zero]

/-! ## What is expected and what is taken -/

/-- The new test points of a list, over all interfaces. -/
def newDistinct (tpNode : TpNode) (indx : Indx) (l : List ℕ) : Finset ℕ :=
  l.toFinset.filter fun tp => (tpNode.interfaceOf tp).isSome ∧ usersOf indx tp = []

/-- A new test point is new for one interface. -/
theorem card_newDistinct (tpNode : TpNode) (indx : Indx) (l : List ℕ) :
    (newDistinct tpNode indx l).card = ∑ f, (tpNode.newTps indx f l).card := by
  have hunion : newDistinct tpNode indx l =
      Finset.univ.biUnion fun f => tpNode.newTps indx f l := by
    ext tp
    simp only [newDistinct, newTps, Finset.mem_filter, Finset.mem_biUnion, Finset.mem_univ,
      true_and, Option.isSome_iff_exists]
    constructor
    · rintro ⟨hmem, ⟨f, hf⟩, hnew⟩
      exact ⟨f, hmem, hf, hnew⟩
    · rintro ⟨f, hmem, hf, hnew⟩
      exact ⟨hmem, ⟨f, hf⟩, hnew⟩
  rw [hunion, Finset.card_biUnion]
  intro f _ g _ hfg
  refine Finset.disjoint_left.mpr fun tp hf hg => ?_
  dsimp only at hf hg
  rw [newTps, Finset.mem_filter] at hf hg
  exact hfg (Option.some.inj (hf.2.1.symm.trans hg.2.1))

/-- Placing a list adds its new test points. -/
theorem TpNode.Staged.activeTps (h : Staged tpNode r indx l indx') (ht : TableOk indx) :
    activeTps indx' = Gds.activeTps indx + (newDistinct tpNode indx l).card := by
  rw [card_newDistinct, activeTps_eq_sum, activeTps_eq_sum, ← Finset.sum_add_distrib]
  exact Finset.sum_congr rfl fun f _ => h.usedSlots ht f

/-- If all test points of a list have been placed, the first loop met an empty slot for each of
the new ones. -/
theorem TpNode.Staged.newDistinct_le (h : Staged tpNode r indx l indx') (ht : TableOk indx) :
    (newDistinct tpNode indx l).card ≤ tpNode.projected indx l := by
  have hsub : newDistinct tpNode indx l ⊆ (l.filter (tpNode.SeesFree indx)).toFinset := by
    intro tp hnew
    rw [newDistinct, Finset.mem_filter, List.mem_toFinset, Option.isSome_iff_exists] at hnew
    obtain ⟨hmem, ⟨f, hf⟩, hnone⟩ := hnew
    rw [List.mem_toFinset, List.mem_filter, decide_eq_true_eq]
    refine ⟨hmem, f, hf, ?_⟩
    have hpos : 0 < (tpNode.newTps indx f l).card := by
      rw [Finset.card_pos]
      exact ⟨tp, Finset.mem_filter.mpr ⟨List.mem_toFinset.mpr hmem, hf, hnone⟩⟩
    have hused := h.usedSlots ht f
    have hle := usedSlots_le indx' f
    -- a slot was empty, and the test point was in none
    have hfree : ¬∀ k, (indx f k).id ≠ 0 := by
      rw [usedSlots_full]
      omega
    obtain ⟨k, hk⟩ := not_forall_not.mp hfree
    refine ⟨k, hk, fun i _ hi => ?_⟩
    exact (ht.usersOf_ne_nil (interfaceOf_some hf)).mpr ⟨i, hi⟩ hnone
  calc (newDistinct tpNode indx l).card
      ≤ (l.filter (tpNode.SeesFree indx)).toFinset.card := Finset.card_le_card hsub
    _ ≤ (l.filter (tpNode.SeesFree indx)).length := List.toFinset_card_le _
    _ = tpNode.projected indx l := List.countP_eq_length_filter.symm

theorem projected_take_le (tpNode : TpNode) (indx : Indx) (l : List ℕ) (i : ℕ) :
    tpNode.projected indx (l.take i) ≤ tpNode.projected indx l :=
  (List.take_sublist i l).countP_le

/-- The sum of the first loop does not wrap. -/
def NoWrap (tpNode : TpNode) (indx : Indx) (l : List ℕ) : Prop :=
  daqSize tpNode (activeTps indx + tpNode.projected indx l) < 2 ^ 32

/-- The check of the first loop, as a bound on the projected number. -/
theorem tooMany_iff (hwrap : NoWrap tpNode indx r.tp) :
    tpNode.tooMany r indx = false ↔
      Fits tpNode (activeTps indx + tpNode.projected indx r.tp) := by
  obtain ⟨huse, -, hcount⟩ := project_spec tpNode r indx
  have hsize : tpNode.projDaqSize (tpNode.projected indx r.tp + activeTps indx) =
      daqSize tpNode (activeTps indx + tpNode.projected indx r.tp) := by
    rw [Nat.add_comm (tpNode.projected indx r.tp)]
    exact Nat.mod_eq_of_lt hwrap
  unfold tooMany Fits
  simp only [hcount, huse.activeTps, hsize, gt_iff_lt, decide_eq_false_iff_not, not_lt]

/-- Test points that have been placed fit. -/
theorem TpNode.Staged.fits (h : Staged tpNode r indx (r.tp.take i) indx') (ht : TableOk indx)
    (hwrap : NoWrap tpNode indx r.tp) (hsize : tpNode.tooMany r indx = false) :
    Fits tpNode (Gds.activeTps indx') := by
  refine ((tooMany_iff hwrap).mp hsize).mono ?_
  rw [h.activeTps ht]
  exact Nat.add_le_add_left ((h.newDistinct_le ht).trans (projected_take_le ..)) _

theorem RequestEffect.fits_of (h : RequestEffect tpNode r indx indx') (ht : TableOk indx)
    (hfit : Fits tpNode (activeTps indx)) (hwrap : NoWrap tpNode indx r.tp)
    (hall : ∀ i taiNow t, ClearsAllAt tpNode r indx i →
      RequestEffect tpNode (tpNode.preselectRequest r.node taiNow) Indx.zero t →
        Fits tpNode (activeTps t)) : Fits tpNode (activeTps indx') := by
  cases h with
  | same => exact hfit
  | refused =>
    rw [(project_spec tpNode r indx).1.activeTps]
    exact hfit
  | placed hsize h =>
    rw [← List.take_length (l := r.tp)] at h
    exact h.fits ht hwrap hsize
  | left hsize h => exact h.fits ht hwrap hsize
  | cleared hsize h hall =>
    have hclear := (clearTps_cleared h.table r.id _ (List.take_subset _ _) hall).2
    exact (h.fits ht hwrap hsize).mono hclear.shrinks.activeTps_le
  | clearedAll hclear hnext => exact hall _ _ _ hclear hnext

/-- A request leaves the block small enough. -/
theorem RequestEffect.fits (h : RequestEffect tpNode r indx indx') (ht : TableOk indx)
    (hfit : Fits tpNode (activeTps indx)) (hwrap : NoWrap tpNode indx r.tp)
    (hpre : ∀ i, ClearsAllAt tpNode r indx i →
      NoWrap tpNode Indx.zero (tpNode.preselectRequest r.node r.taiNow).tp) :
    Fits tpNode (activeTps indx') := by
  refine h.fits_of ht hfit hwrap fun i taiNow t hclear hnext => ?_
  -- the preselected test points are placed in the empty table, where there is room for them
  have hzero : Fits tpNode (activeTps Indx.zero) := hfit.mono (activeTps_zero ▸ Nat.zero_le _)
  have hlen := length_preselectRequest tpNode r.node taiNow
  have hmax : tpMaxPreselect < tpMaxIndex := by decide
  refine hnext.fits_of TableOk.zero hzero (hpre i hclear) fun j _ _ hclear' => ?_
  exact absurd hclear'.full (not_overfull_zero (hlen.trans_lt hmax))

/-! ## Runs -/

/-- The sums for the list do not wrap, and if its new test points fit, the number that the first
loop expects fits too. -/
structure SizeOk (tpNode : TpNode) (indx : Indx) (l : List ℕ) : Prop where
  noWrap : NoWrap tpNode indx l
  expected : Fits tpNode (activeTps indx + (newDistinct tpNode indx l).card) →
    Fits tpNode (activeTps indx + tpNode.projected indx l)

/-- The list of a request is counted right, and so are the preselected test points if its
clean-up clears all test points. -/
def CountsRight (tpNode : TpNode) (s : TpState) : TpSection → Prop
  | .request r => SizeOk tpNode s.indx r.tp ∧ ∀ i, ClearsAllAt tpNode r s.indx i →
      NoWrap tpNode Indx.zero (tpNode.preselectRequest r.node r.taiNow).tp
  | _ => True

/-- So does every section. -/
theorem step_fits (ht : TableOk s.indx) (hfit : Fits tpNode (activeTps s.indx))
    (hcount : CountsRight tpNode s sec) :
    Fits tpNode (activeTps (tpNode.step s sec).indx) := by
  cases sec with
  | request r => exact (step_request ht r).fits ht hfit hcount.1.noWrap hcount.2
  | clear c =>
    rcases step_clear tpNode ht c with ⟨hzero, -⟩ | hclear
    · rw [hzero, activeTps_zero]
      exact hfit.mono (Nat.zero_le _)
    · exact hfit.mono hclear.shrinks.activeTps_le
  | cleanup t f => exact hfit.mono (step_cleanup tpNode ht t f).2.activeTps_le

/-- Over every run in which all lists are counted right, the test points in use fit into the DAQ
block, and no request whose new test points fit is refused. -/
theorem testpoints_fit (tpNode : TpNode) (hcur : tpNode.curDaqBlockSize ≤ daqDcuSize)
    (secs : List TpSection)
    (h : StepsMeet tpNode.step (CountsRight tpNode) TpState.start secs) :
    Fits tpNode (activeTps (tpNode.runTo secs).indx) ∧
      ∀ past r, past ++ [.request r] = secs →
        Fits tpNode (activeTps (tpNode.runTo past).indx +
          (newDistinct tpNode (tpNode.runTo past).indx r.tp).card) →
        tpNode.tooMany r (tpNode.runTo past).indx = false := by
  constructor
  · have hstart : TableOk TpState.start.indx ∧ Fits tpNode (activeTps TpState.start.indx) := by
      refine ⟨TableOk.zero, ?_⟩
      have hzero : activeTps TpState.start.indx = 0 := activeTps_zero
      rw [hzero]
      simpa [Fits, daqSize] using hcur
    exact (foldl_invariant (fun s : TpState => TableOk s.indx ∧ Fits tpNode (activeTps s.indx))
      (fun s sec hs hcount => ⟨step_tableOk tpNode hs.1 sec, step_fits hs.1 hs.2 hcount⟩)
      hstart h).2
  · rintro past r rfl hfit
    obtain ⟨-, ⟨hsize, -⟩, -⟩ := stepsMeet_append.mp h
    exact (tooMany_iff hsize.noWrap).mpr (hsize.expected hfit)

theorem testpoints_fit_one_request :
    Fits plainTpNode (activeTps (plainTpNode.runTo [.request (plainRequest 1 [5])]).indx) := by
  have hsize : SizeOk plainTpNode Indx.zero [5] :=
    ⟨by unfold NoWrap; decide +kernel, fun _ => by unfold Fits; decide +kernel⟩
  have hmeet : StepsMeet plainTpNode.step (CountsRight plainTpNode) TpState.start
      [.request (plainRequest 1 [5])] :=
    ⟨⟨hsize, fun i h => absurd (List.mem_of_mem_take h.clearAll) (by decide)⟩, trivial⟩
  exact (testpoints_fit plainTpNode (by decide) _ hmeet).1

/-- The empty table has room for test point 1, but it is refused if it is in the list 65 times. -/
theorem miscounted_requests :
    (Fits plainTpNode (activeTps Indx.zero +
        (newDistinct plainTpNode Indx.zero (List.replicate 65 1)).card) ∧
      plainTpNode.tooMany (plainRequest 1 (List.replicate 65 1)) Indx.zero = true) ∧
      ¬Fits { plainTpNode with sysFreqMult := 2 ^ 16 }
        (activeTps (TpNode.runTo { plainTpNode with sysFreqMult := 2 ^ 16 }
          [.request (plainRequest 1 [1])]).indx) := by
  unfold Fits
  refine ⟨⟨?_, ?_⟩, ?_⟩ <;> decide +kernel

end AdvLigoRts.Gds
