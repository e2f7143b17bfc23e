import Mathlib.Data.List.Basic
import Mathlib.Logic.Function.Iterate

/-!
# The cycle counters of the real-time loop

The counters stay in phase if `END_OF_DAQ_BLOCK` is the last cycle of a sixteenth of a second. It
is for the rates up to 128K, and not for 256K and 512K (`inPhase_iff`).
-/

namespace AdvLigoRts.Fe

/-- The rate options of `controller.h`. -/
inductive ServoRate
  | servo2K
  | servo4K
  | servo16K
  | servo32K
  | servo64K
  | servo128K
  | servo256K
  | servo512K
deriving DecidableEq

namespace ServoRate

/-- `CYCLE_PER_SECOND`, which is `FE_RATE`. -/
def cyclePerSecond : ServoRate → ℕ
  | servo2K => 2 * 1024
  | servo4K => 4 * 1024
  | servo16K => 16 * 1024
  | servo32K => 32 * 1024
  | servo64K => 64 * 1024
  | servo128K => 128 * 1024
  | servo256K => 256 * 1024
  | servo512K => 512 * 1024

def daqCycleChange : ServoRate → ℕ
  | servo2K => 120
  | servo4K => 240
  | servo16K => 770
  | servo32K => 1540
  | servo64K => 2 * 1540
  | servo128K => 8000
  | servo256K => 2 * 8000
  | servo512K => 32 * 8000

def endOfDaqBlock : ServoRate → ℕ
  | servo2K => 127
  | servo4K => 255
  | servo16K => 1023
  | servo32K => 2047
  | servo64K => 4095
  | servo128K => 8191
  | servo256K => 2 * 8191
  | servo512K => 524287

/-- `FE_RATE / 16`, the cycles of a block. -/
def block (rate : ServoRate) : ℕ := rate.cyclePerSecond / 16

end ServoRate

def daqNumDataBlocksPerSecond : ℕ := 16

/-- The counters of the main loop. -/
structure CycleCounters where
  cycleNum : ℕ
  subcycle : ℕ
  daqCycle : ℕ
deriving DecidableEq

/-- The end of the loop of `fe_start_controller`, which is the same in the IOP. -/
def CycleCounters.step (rate : ServoRate) (c : CycleCounters) : CycleCounters where
  cycleNum := (c.cycleNum + 1) % rate.cyclePerSecond
  daqCycle := if c.subcycle = rate.daqCycleChange then (c.daqCycle + 1) % daqNumDataBlocksPerSecond
    else c.daqCycle
  subcycle := if c.subcycle = rate.endOfDaqBlock then 0 else c.subcycle + 1

/-- The counters after `n` cycles. -/
def countersAfter (rate : ServoRate) (n : ℕ) : CycleCounters :=
  (CycleCounters.step rate)^[n] ⟨0, 0, 0⟩

/-- The modules that one cycle hands to `checkFiltReset`, in order. -/
def checkedModules (rate : ServoRate) (maxModules subcycle : ℕ) : List ℕ :=
  let mpc := (maxModules + rate.block - 1) / rate.block
  let smpc := mpc * subcycle
  let empc := smpc + mpc
  List.range' smpc (min maxModules empc - smpc)

/-- The counters start again with the second and the block, and every block passes over all modules
once. -/
structure InPhase (rate : ServoRate) : Prop where
  cycleNum : ∀ n, (countersAfter rate n).cycleNum = n % rate.cyclePerSecond
  subcycle : ∀ n, (countersAfter rate n).subcycle = n % rate.block
  -- one change in every sixteenth of a second, wherever it begins
  change : ∀ n, ∃! k, n ≤ k ∧ k < n + rate.block ∧
    (countersAfter rate (k + 1)).daqCycle ≠ (countersAfter rate k).daqCycle
  turn : ∀ n j, (countersAfter rate (n + j * rate.block)).daqCycle =
    ((countersAfter rate n).daqCycle + j) % daqNumDataBlocksPerSecond
  modules : ∀ maxModules b, ((List.range rate.block).flatMap fun r =>
    checkedModules rate maxModules (countersAfter rate (b * rate.block + r)).subcycle) =
      List.range maxModules

variable {rate : ServoRate}

theorem countersAfter_succ (n : ℕ) :
    countersAfter rate (n + 1) = (countersAfter rate n).step rate :=
  Function.iterate_succ_apply' _ _ _

theorem cycleNum_after (n : ℕ) : (countersAfter rate n).cycleNum = n % rate.cyclePerSecond := by
  induction n with
  | zero => rfl
  | succ n ih =>
    rw [countersAfter_succ]
    show ((countersAfter rate n).cycleNum + 1) % _ = _
    rw [ih, Nat.mod_add_mod]

/-- `END_OF_DAQ_BLOCK` is the last cycle of a sixteenth of a second. -/
def ServoRate.Fits (rate : ServoRate) : Prop := rate.endOfDaqBlock + 1 = rate.block

theorem fits_iff : rate.Fits ↔ rate ≠ .servo256K ∧ rate ≠ .servo512K := by
  unfold ServoRate.Fits
  cases rate <;> decide

theorem block_pos (rate : ServoRate) : 0 < rate.block := by
  cases rate <;> decide

theorem subcycle_after (h : rate.Fits) (n : ℕ) :
    (countersAfter rate n).subcycle = n % rate.block := by
  induction n with
  | zero => exact (Nat.zero_mod _).symm
  | succ n ih =>
    rw [countersAfter_succ]
    show (if (countersAfter rate n).subcycle = _ then 0
      else (countersAfter rate n).subcycle + 1) = _
    have hlt := Nat.mod_lt n (block_pos rate)
    unfold ServoRate.Fits at h
    rw [ih, ← Nat.mod_add_mod n]
    split
    · rw [show n % rate.block + 1 = rate.block by omega, Nat.mod_self]
    · exact (Nat.mod_eq_of_lt (by omega)).symm

/-- The number of the cycles before the `n`-th in which `daqCycle` has moved on. -/
def changes (rate : ServoRate) (n : ℕ) : ℕ :=
  (n + (rate.block - 1 - rate.daqCycleChange)) / rate.block

theorem changes_succ (h : rate.Fits) (n : ℕ) : changes rate (n + 1) =
    if n % rate.block = rate.daqCycleChange then changes rate n + 1 else changes rate n := by
  unfold changes
  unfold ServoRate.Fits at h
  by_cases hchange : n % rate.block = rate.daqCycleChange
  · rw [if_pos hchange]
    cases rate <;> simp only [ServoRate.block, ServoRate.cyclePerSecond, ServoRate.daqCycleChange,
      ServoRate.endOfDaqBlock] at * <;> omega
  · rw [if_neg hchange]
    cases rate <;> simp only [ServoRate.block, ServoRate.cyclePerSecond, ServoRate.daqCycleChange,
      ServoRate.endOfDaqBlock] at * <;> omega

theorem daqCycle_after (h : rate.Fits) (n : ℕ) :
    (countersAfter rate n).daqCycle = changes rate n % daqNumDataBlocksPerSecond := by
  induction n with
  | zero => cases rate <;> rfl
  | succ n ih =>
    rw [countersAfter_succ, changes_succ h]
    show (if (countersAfter rate n).subcycle = _ then ((countersAfter rate n).daqCycle + 1) % _
      else (countersAfter rate n).daqCycle) = _
    rw [subcycle_after h, ih]
    split
    · rw [Nat.mod_add_mod]
    · rfl

/-- `daqCycle` moves on in the cycle `DAQ_CYCLE_CHANGE` of a block. -/
theorem daqCycle_ne_iff (h : rate.Fits) (n : ℕ) :
    (countersAfter rate (n + 1)).daqCycle ≠ (countersAfter rate n).daqCycle ↔
      n % rate.block = rate.daqCycleChange := by
  rw [daqCycle_after h, daqCycle_after h, changes_succ h]
  unfold daqNumDataBlocksPerSecond
  split
  · exact iff_of_true (by omega) ‹_›
  · exact iff_of_false (fun hne => hne rfl) ‹_›

theorem exists_unique_change (h : rate.Fits) (n : ℕ) : ∃! k, n ≤ k ∧ k < n + rate.block ∧
    (countersAfter rate (k + 1)).daqCycle ≠ (countersAfter rate k).daqCycle := by
  simp only [daqCycle_ne_iff h]
  unfold ServoRate.Fits at h
  refine ⟨n + (rate.daqCycleChange + rate.block - n % rate.block) % rate.block, ?_, fun k hk => ?_⟩
  · cases rate <;> simp only [ServoRate.block, ServoRate.cyclePerSecond,
      ServoRate.daqCycleChange, ServoRate.endOfDaqBlock] at * <;> omega
  · cases rate <;> simp only [ServoRate.block, ServoRate.cyclePerSecond,
      ServoRate.daqCycleChange, ServoRate.endOfDaqBlock] at * <;> omega

theorem changes_add (n j : ℕ) : changes rate (n + j * rate.block) = changes rate n + j := by
  unfold changes
  rw [Nat.add_right_comm, Nat.add_mul_div_right _ _ (block_pos rate)]

theorem flatMap_checkedModules (maxModules m : ℕ) :
    (List.range m).flatMap (checkedModules rate maxModules) = List.range (min maxModules
      ((maxModules + rate.block - 1) / rate.block * m)) := by
  induction m with
  | zero => simp
  | succ m ih =>
    rw [List.range_succ, List.flatMap_append, ih, List.flatMap_singleton, checkedModules,
      Nat.mul_succ]
    show _ ++ List.range' ((maxModules + rate.block - 1) / rate.block * m) (min maxModules
      (_ + (maxModules + rate.block - 1) / rate.block) - _) = _
    generalize (maxModules + rate.block - 1) / rate.block * m = done
    generalize (maxModules + rate.block - 1) / rate.block = mpc
    rcases Nat.le_total maxModules done with hall | hpart
    · rw [show min maxModules (done + mpc) - done = 0 by omega, List.range'_zero, List.append_nil]
      congr 1
      omega
    · rw [Nat.min_eq_right hpart, List.range_eq_range', List.range_eq_range',
        show min maxModules (done + mpc) = done + (min maxModules (done + mpc) - done) by omega,
        ← List.range'_append_1]
      simp

/-- In a block every module has its turn. -/
theorem flatMap_checkedModules_block (rate : ServoRate) (maxModules : ℕ) :
    (List.range rate.block).flatMap (checkedModules rate maxModules) = List.range maxModules := by
  rw [flatMap_checkedModules, Nat.min_eq_left]
  have hdiv := Nat.div_add_mod (maxModules + rate.block - 1) rate.block
  have hlt := Nat.mod_lt (maxModules + rate.block - 1) (block_pos rate)
  rw [Nat.mul_comm] at hdiv
  omega

theorem InPhase.fits (h : InPhase rate) : rate.Fits := by
  -- the last cycle of the first block is the one behind which `subcycle` starts again
  have hlast := h.subcycle (rate.block - 1)
  have hnext := h.subcycle (rate.block - 1 + 1)
  have hpos := block_pos rate
  rw [Nat.mod_eq_of_lt (by omega)] at hlast
  rw [Nat.sub_add_cancel hpos, Nat.mod_self, ← Nat.sub_add_cancel hpos, countersAfter_succ] at hnext
  change (if (countersAfter rate (rate.block - 1)).subcycle = _ then 0
    else (countersAfter rate (rate.block - 1)).subcycle + 1) = 0 at hnext
  rw [hlast] at hnext
  unfold ServoRate.Fits
  split at hnext <;> omega

theorem ServoRate.Fits.inPhase (h : rate.Fits) : InPhase rate := by
  refine ⟨cycleNum_after, subcycle_after h, exists_unique_change h, fun n j => ?_,
    fun maxModules b => ?_⟩
  · rw [daqCycle_after h, daqCycle_after h, changes_add, Nat.mod_add_mod]
  · rw [← flatMap_checkedModules_block rate maxModules]
    apply List.flatMap_congr
    intro r hr
    rw [subcycle_after h, Nat.add_comm, Nat.add_mul_mod_self_right,
      Nat.mod_eq_of_lt (List.mem_range.mp hr)]

/-- The counters stay in phase for all rates but 256K and 512K. -/
theorem inPhase_iff (rate : ServoRate) :
    InPhase rate ↔ rate ≠ .servo256K ∧ rate ≠ .servo512K :=
  ⟨fun h => fits_iff.mp h.fits, fun h => (fits_iff.mpr h).inPhase⟩

/-- At 256K `subcycle` starts again a cycle before the end of the block. -/
theorem not_inPhase_servo256K : ¬ ∀ rate, InPhase rate :=
  fun h => absurd (h .servo256K).fits (by unfold ServoRate.Fits; decide)

end AdvLigoRts.Fe
