import AdvLigoRts.Gds.SchedRetire

/-!
# The start time of a repeated entry

`calcStartTime` goes back from the present epoch to one with the right remainder, and
`isTaskReady` divides by the interval. `checkValidity` asks too little of the repeat rate and of
the remainder for that: `SafeEntry` is what is needed.
-/

namespace AdvLigoRts.Gds.Sched

open PvLib

/-! ## The search -/

section Search

variable {done : ℤ → Bool} {step t r : ℤ} {fuel : ℕ}

theorem searchBack_some (h : searchBack done step fuel t = some r) :
    done r = true ∧ ∃ k : ℕ, r = t - k * step := by
  induction fuel generalizing t with
  | zero => cases h
  | succ fuel ih =>
    unfold searchBack at h
    split at h
    · next hdone =>
      obtain rfl := Option.some.inj h
      exact ⟨hdone, 0, by simp⟩
    · obtain ⟨hdone, k, rfl⟩ := ih h
      refine ⟨hdone, k + 1, ?_⟩
      push_cast
      ring

/-- A search that can end does, and more turns do not change it. -/
theorem searchBack_ends {k : ℕ} (h : done (t - k * step) = true) :
    ∃ r, ∀ fuel > k, searchBack done step fuel t = some r := by
  induction k generalizing t with
  | zero =>
    refine ⟨t, ?_⟩
    intro fuel hfuel
    obtain ⟨fuel, rfl⟩ := Nat.exists_eq_add_one.mpr hfuel
    rw [searchBack, if_pos (by simpa using h)]
  | succ k ih =>
    by_cases hdone : done t = true
    · refine ⟨t, ?_⟩
      intro fuel hfuel
      obtain ⟨fuel, rfl⟩ := Nat.exists_eq_add_one.mpr (Nat.lt_of_le_of_lt (Nat.zero_le _) hfuel)
      rw [searchBack, if_pos hdone]
    · have hnext : done (t - step - k * step) = true := by
        rw [← h]
        congr 1
        push_cast
        ring
      obtain ⟨r, hr⟩ := ih hnext
      refine ⟨r, ?_⟩
      intro fuel hfuel
      obtain ⟨fuel, rfl⟩ := Nat.exists_eq_add_one.mpr (Nat.lt_of_le_of_lt (Nat.zero_le _) hfuel)
      rw [searchBack, if_neg hdone]
      exact hr fuel (Nat.lt_of_succ_lt_succ hfuel)

theorem searchBack_ends_iff :
    (∃ enough, ∀ fuel ≥ enough, ∃ r, searchBack done step fuel t = some r) ↔
      ∃ k : ℕ, done (t - k * step) = true := by
  constructor
  · rintro ⟨enough, h⟩
    obtain ⟨r, hr⟩ := h enough (Nat.le_refl _)
    obtain ⟨hdone, k, rfl⟩ := searchBack_some hr
    exact ⟨k, hdone⟩
  · rintro ⟨k, hk⟩
    obtain ⟨r, hr⟩ := searchBack_ends hk
    exact ⟨k + 1, fun fuel hfuel => ⟨r, hr fuel hfuel⟩⟩

/-- The remainder of a time below zero is not above zero. -/
theorem tmod_nonpos {x : ℤ} (hx : x ≤ 0) (n : ℤ) : x.tmod n ≤ 0 := by
  have hneg := Int.tmod_nonneg n (Int.neg_nonneg_of_nonpos hx)
  rw [Int.neg_tmod] at hneg
  omega

theorem tdiv_nonpos {x n : ℤ} (hx : x ≤ 0) (hn : 0 ≤ n) : x.tdiv n ≤ 0 := by
  have hneg := Int.tdiv_nonneg (Int.neg_nonneg_of_nonpos hx) hn
  rw [Int.neg_tdiv] at hneg
  omega

/-- The epoch within its second can be reached just when the time is not before it. -/
theorem epoch_reached_iff {v : ℤ} (hv : 0 ≤ v ∧ v < 16) (ht : 0 ≤ t) :
    (∃ k : ℕ, (t - k * 1).tmod 16 = v) ↔ v ≤ t := by
  constructor
  · rintro ⟨k, hk⟩
    by_cases hneg : t - k * 1 ≤ 0
    · have hle := tmod_nonpos hneg 16
      omega
    · rw [Int.tmod_eq_emod_of_nonneg (by omega)] at hk
      omega
  · intro hle
    refine ⟨((t - v) % 16).toNat, ?_⟩
    have hback : (((t - v) % 16).toNat : ℤ) = (t - v) % 16 := Int.toNat_of_nonneg (by omega)
    rw [hback, Int.tmod_eq_emod_of_nonneg (by omega)]
    omega

/-- A second with the remainder `v > 0` can be reached just when there is one. -/
theorem second_reached_iff {q v n : ℤ} (hv : 1 ≤ v) (hn : 0 < n) :
    (∃ k : ℕ, (q - k).tmod n = v) ↔ v < n ∧ v ≤ q := by
  constructor
  · rintro ⟨k, hk⟩
    have hpos : 0 ≤ q - k := by
      by_contra hneg
      have hle := tmod_nonpos (x := q - k) (by omega) n
      omega
    rw [Int.tmod_eq_emod_of_nonneg hpos] at hk
    have hlt := Int.emod_lt_of_pos (q - k) hn
    have hsum := Int.emod_add_mul_ediv (q - k) n
    have hprod : 0 ≤ n * ((q - k) / n) :=
      Int.mul_nonneg (by omega) (Int.ediv_nonneg hpos (by omega))
    exact ⟨by omega, by omega⟩
  · rintro ⟨hvn, hvq⟩
    refine ⟨((q - v) % n).toNat, ?_⟩
    have hback : (((q - v) % n).toNat : ℤ) = (q - v) % n :=
      Int.toNat_of_nonneg (Int.emod_nonneg _ (by omega))
    have hdiv : q - (q - v) % n = v + n * ((q - v) / n) := by
      have hsum := Int.emod_add_mul_ediv (q - v) n
      omega
    have hquot : 0 ≤ (q - v) / n := Int.ediv_nonneg (by omega) (by omega)
    have hprod : 0 ≤ n * ((q - v) / n) := Int.mul_nonneg (by omega) hquot
    rw [hback, hdiv, Int.tmod_eq_emod_of_nonneg (by omega), Int.add_mul_emod_self_left]
    exact Int.emod_eq_of_lt (by omega) hvn

/-- The same for a divisor of any sign. -/
theorem second_reached_iff_abs {q v n : ℤ} (hv : 1 ≤ v) (hn : n ≠ 0) :
    (∃ k : ℕ, (q - k).tmod n = v) ↔ v < |n| ∧ v ≤ q := by
  by_cases hpos : 0 < n
  · rw [abs_of_pos hpos]
    exact second_reached_iff hv hpos
  · have hneg : 0 < -n := by omega
    rw [abs_of_neg (by omega), ← second_reached_iff hv hneg]
    simp only [Int.tmod_neg]

end Search

/-! ## Entries that are safe -/

/-- The searches of `calcStartTime` end. -/
def searchEnds (entry : SchedulerTask) (tnow : ℤ) : Prop :=
  if entry.repeatratetype = schedRepeatEpoch ∨ entry.repeatsynctype = schedSyncNext then
    entry.has schedWait = true → entry.synctype = schedSyncEpoch → entry.syncval ≤ tnow
  else if entry.repeatsynctype = schedSyncEpoch then entry.repeatsyncval ≤ tnow
  else entry.repeatrate ≠ 0 ∧ entry.repeatsyncval < |entry.repeatrate| ∧
    entry.repeatsyncval ≤ tnow / numberOfEpochs

/-- A repeated entry has an interval, if it is repeated at all, and the searches for its start
time end. -/
def SafeEntry (entry : SchedulerTask) (tnow : ℤ) : Prop :=
  entry.has schedRepeat = true → searchEnds entry tnow ∧
    (repeatInterval entry ≠ 0 ∨ entry.repeattype = schedRepeatN ∧ entry.repeatval = 1)

/-- The count of the repeats that are left, as it is in every run. -/
def Countdown (info : SchedInfo) : Prop :=
  repeatsN info.info → 0 ≤ info.repeatN ∧
    (info.firstScheduled ≠ 0 → info.repeatN < info.info.repeatval)

/-- `calcStartTime` and `isTaskReady` end, and no division by zero comes up. -/
def NeverFaults (entry : SchedulerTask) (time : SchedTime) : Prop :=
  (∃ enough, ∀ fuel ≥ enough, ∃ t, calcStartTime fuel entry time = some (.ok t)) ∧
    ∀ info : SchedInfo, info.info = entry → Countdown info → ∀ tags sync,
      ∃ enough, ∀ fuel ≥ enough, ∃ r, isTaskReady fuel tags info time sync = some (.ok r)

section Safe

variable {entry : SchedulerTask} {time : SchedTime} {timenow : ℤ} {task : SchedulerTask}

/-- What `checkValidity` says about the synchronization of an accepted entry. -/
structure SyncOk (entry : SchedulerTask) : Prop where
  type : entry.has schedWait = true → 0 ≤ entry.synctype ∧ entry.synctype ≤ schedSyncIepoch
  iepoch : entry.has schedWait = true → entry.synctype = schedSyncIepoch → 1 ≤ entry.syncval
  epoch : entry.has schedWait = true → entry.synctype = schedSyncEpoch →
    0 ≤ entry.syncval ∧ entry.syncval < numberOfEpochs
  repeatType : entry.has schedRepeat = true →
    0 ≤ entry.repeatsynctype ∧ entry.repeatsynctype ≤ schedSyncIepoch
  repeatEpoch : entry.has schedRepeat = true → entry.repeatsynctype = schedSyncEpoch →
    0 ≤ entry.repeatsyncval ∧ entry.repeatsyncval < numberOfEpochs
  repeatIepoch : entry.has schedRepeat = true → entry.repeatsynctype = schedSyncIepoch →
    1 ≤ entry.repeatsyncval

theorem syncOk_of_valid (h : checkValidity timenow task = 0) : SyncOk task := by
  have hcheck (b : Bool) (err : ℤ) (hmem : (b, err) ∈ validityChecks timenow task) : b = false :=
    validityChecks_false h _ hmem
  have htype := hcheck (task.has schedWait &&
    (task.synctype < 0 || task.synctype > schedSyncIepoch)) (-17) (by simp [validityChecks])
  have hiepoch := hcheck (task.has schedWait && task.synctype = schedSyncIepoch &&
    task.syncval < 1) (-18) (by simp [validityChecks])
  have hepoch := hcheck (task.has schedWait && task.synctype = schedSyncEpoch &&
    (task.syncval < 0 || task.syncval ≥ numberOfEpochs)) (-18) (by simp [validityChecks])
  have hrepeat := hcheck (task.has schedRepeat &&
    (task.repeatsynctype < 0 || task.repeatsynctype > schedSyncIepoch)) (-24)
    (by simp [validityChecks])
  have hrepeatEpoch := hcheck (task.has schedRepeat &&
    task.repeatsynctype = schedSyncEpoch &&
    (task.repeatsyncval < 0 || task.repeatsyncval ≥ numberOfEpochs)) (-25)
    (by simp [validityChecks])
  have hrepeatIepoch := hcheck (task.has schedRepeat &&
    task.repeatsynctype = schedSyncIepoch && task.repeatsyncval < 1) (-25)
    (by simp [validityChecks])
  constructor
  · intro hwait
    simpa [hwait] using htype
  · intro hwait hsync
    simpa [hwait, hsync] using hiepoch
  · intro hwait hsync
    simpa [hwait, hsync] using hepoch
  · intro hrep
    simpa [hrep] using hrepeat
  · intro hrep hsync
    simpa [hrep, hsync] using hrepeatEpoch
  · intro hrep hsync
    simpa [hrep, hsync] using hrepeatIepoch

theorem syncOk_newInfo (h : checkValidity timenow task = 0) (id now : ℤ) :
    SyncOk (newInfo task id now).info := by
  have hok := syncOk_of_valid h
  obtain ⟨synctype, waittype, priority, hinfo, hsame⟩ := newInfo_info task id now
  rw [hinfo]
  constructor
  · intro hwait
    rw [(hsame hwait).1]
    exact hok.type hwait
  · intro hwait
    rw [(hsame hwait).1]
    exact hok.iepoch hwait
  · intro hwait
    rw [(hsame hwait).1]
    exact hok.epoch hwait
  · exact hok.repeatType
  · exact hok.repeatEpoch
  · exact hok.repeatIepoch

theorem syncOk_accepted (h : Accepted entry) : SyncOk entry := by
  obtain ⟨timenow, task, id, now, hvalid, rfl⟩ := h
  exact syncOk_newInfo hvalid id now

/-- A search whose result is the start time. -/
theorem search_ends_iff {done : ℤ → Bool} {step t : ℤ} :
    (∃ enough, ∀ fuel ≥ enough, ∃ r, (searchBack done step fuel t).map Except.ok =
      (some (.ok r) : Option (Except ArithFault ℤ))) ↔ ∃ k : ℕ, done (t - k * step) = true := by
  rw [← searchBack_ends_iff]
  simp only [Option.map_eq_some_iff, Except.ok.injEq, exists_eq_right]

theorem epochSearch_ends_iff {v t : ℤ} (hv : 0 ≤ v ∧ v < numberOfEpochs) (ht : 0 ≤ t) :
    (∃ k : ℕ, decide ((t - k * 1).tmod numberOfEpochs = v) = true) ↔ v ≤ t := by
  simp only [decide_eq_true_eq]
  exact epoch_reached_iff hv ht

theorem second_of_epochs (q : ℤ) (k : ℕ) :
    (numberOfEpochs * q - k * numberOfEpochs).tdiv numberOfEpochs = q - k := by
  rw [show numberOfEpochs * q - k * numberOfEpochs = numberOfEpochs * (q - k) by ring]
  exact Int.mul_tdiv_cancel_left _ (by decide)

theorem tdiv_epochs {t : ℤ} (ht : 0 ≤ t) :
    t.tdiv numberOfEpochs = t / numberOfEpochs ∧ 0 ≤ t / numberOfEpochs :=
  ⟨Int.tdiv_eq_ediv_of_nonneg ht, Int.ediv_nonneg ht (by decide)⟩

/-- `calcStartTime` ends without a fault just when its searches end. -/
theorem calcStartTime_ends_iff (hok : SyncOk entry) (htnow : 0 ≤ time.tnow) :
    (∃ enough, ∀ fuel ≥ enough, ∃ t, calcStartTime fuel entry time = some (.ok t)) ↔
      (entry.has schedRepeat = true → searchEnds entry time.tnow) := by
  obtain ⟨hdiv, hseconds⟩ := tdiv_epochs htnow
  unfold calcStartTime searchEnds
  by_cases hrepeat : entry.has schedRepeat = true
  · rw [hrepeat]
    simp only [Bool.not_true, Bool.false_eq_true, if_false, true_implies]
    by_cases hfree : entry.repeatratetype = schedRepeatEpoch ∨
        entry.repeatsynctype = schedSyncNext
    · simp only [if_pos hfree]
      by_cases hstart : entry.has schedWait = true ∧ entry.synctype ≠ schedSyncNext
      · simp only [if_pos hstart]
        by_cases hepoch : entry.synctype = schedSyncEpoch
        · simp only [if_pos hepoch]
          rw [search_ends_iff, epochSearch_ends_iff (hok.epoch hstart.1 hepoch) htnow]
          exact ⟨fun h _ _ => h, fun h => h hstart.1 hepoch⟩
        · simp only [if_neg hepoch]
          have hiepoch : entry.synctype = schedSyncIepoch := by
            obtain ⟨hlo, hhi⟩ := hok.type hstart.1
            have hnext := hstart.2
            unfold schedSyncNext schedSyncEpoch schedSyncIepoch at *
            omega
          have hval := hok.iepoch hstart.1 hiepoch
          have hne : ¬ entry.syncval = 0 := by omega
          simp only [if_neg hne]
          rw [search_ends_iff]
          refine iff_of_true ?_ (fun _ h => absurd h hepoch)
          -- second 0 is reached at the latest
          refine ⟨(time.tnow / numberOfEpochs).toNat, ?_⟩
          have hback : ((time.tnow / numberOfEpochs).toNat : ℤ) = time.tnow / numberOfEpochs :=
            Int.toNat_of_nonneg hseconds
          rw [second_of_epochs, hback, hdiv, Int.sub_self]
          simp
      · simp only [if_neg hstart]
        refine iff_of_true ⟨0, ?_⟩ ?_
        · intro fuel _
          split
          · exact ⟨_, rfl⟩
          · exact ⟨_, rfl⟩
        · intro hwait hepoch
          refine absurd ⟨hwait, ?_⟩ hstart
          rw [hepoch]
          decide
    · simp only [if_neg hfree]
      by_cases hepoch : entry.repeatsynctype = schedSyncEpoch
      · simp only [if_pos hepoch]
        rw [search_ends_iff, epochSearch_ends_iff (hok.repeatEpoch hrepeat hepoch) htnow]
      · simp only [if_neg hepoch]
        have hiepoch : entry.repeatsynctype = schedSyncIepoch := by
          obtain ⟨hlo, hhi⟩ := hok.repeatType hrepeat
          have hnext := (not_or.mp hfree).2
          unfold schedSyncNext schedSyncEpoch schedSyncIepoch at *
          omega
        have hval := hok.repeatIepoch hrepeat hiepoch
        by_cases hrate : entry.repeatrate = 0
        · simp only [if_pos hrate]
          refine iff_of_false ?_ (fun h => h.1 hrate)
          rintro ⟨enough, h⟩
          obtain ⟨t, ht⟩ := h enough (Nat.le_refl _)
          cases ht
        · simp only [if_neg hrate]
          rw [search_ends_iff]
          simp only [decide_eq_true_eq, second_of_epochs]
          rw [hdiv, second_reached_iff_abs hval hrate]
          exact ⟨fun h => ⟨hrate, h⟩, fun h => h.2⟩
  · refine iff_of_true ⟨0, ?_⟩ (fun h => absurd h hrepeat)
    intro fuel _
    rw [Bool.eq_false_of_not_eq_true hrepeat]
    exact ⟨-1, rfl⟩

/-- An entry that goes on: `isTaskReady` comes to the division. -/
theorem isTaskReady_repeat {info : SchedInfo} (hmark : info.markForTermination = false)
    (htime : timedOut info time = false) (hfirst : info.firstScheduled ≠ 0)
    (hrepeat : info.info.has schedRepeat = true) (hdone : repeatsDone info = false)
    (fuel : ℕ) (tags : List TimeTag) (sync : ℤ → Bool) :
    isTaskReady fuel tags info time sync =
      if repeatInterval info.info = 0 then some (.error .divByZero)
      else if (time.tnow - info.tfirst).tdiv (repeatInterval info.info) *
          repeatInterval info.info + info.tfirst > time.told then some (.ok (.ready (-1)))
        else some (.ok .notReady) := by
  unfold isTaskReady
  rw [hmark, htime, hrepeat, hdone]
  simp only [Bool.false_eq_true, if_false, if_neg hfirst, if_true]

/-- `isTaskReady` ends without a fault when `calcStartTime` does and there is an interval where one
is needed. -/
theorem isTaskReady_ends {info : SchedInfo}
    (hcalc : ∃ enough, ∀ fuel ≥ enough, ∃ t, calcStartTime fuel info.info time = some (.ok t))
    (hinterval : info.info.has schedRepeat = true → repeatInterval info.info ≠ 0 ∨
      (info.firstScheduled ≠ 0 → repeatsDone info = true)) (tags : List TimeTag)
    (sync : ℤ → Bool) :
    ∃ enough, ∀ fuel ≥ enough, ∃ r, isTaskReady fuel tags info time sync = some (.ok r) := by
  obtain ⟨enough, hcalc⟩ := hcalc
  refine ⟨enough, ?_⟩
  intro fuel hfuel
  obtain ⟨t, ht⟩ := hcalc fuel hfuel
  unfold isTaskReady
  split
  · exact ⟨_, rfl⟩
  · split
    · exact ⟨_, rfl⟩
    · split
      · split
        · exact ⟨_, rfl⟩
        · rw [ht]
          exact ⟨_, rfl⟩
      · next hfirst =>
        split
        · next hrepeat =>
          split
          · exact ⟨_, rfl⟩
          · next hdone =>
            have hne : repeatInterval info.info ≠ 0 :=
              (hinterval hrepeat).resolve_right fun h => hdone (h hfirst)
            simp only [if_neg hne]
            split
            · exact ⟨_, rfl⟩
            · exact ⟨_, rfl⟩
        · exact ⟨_, rfl⟩

/-- A record of the entry that has been started once and has not timed out. -/
def startedOnce (entry : SchedulerTask) (time : SchedTime) : SchedInfo :=
  { startInfo 0 (newInfo entry 1 0) with
    info := entry
    repeatN := entry.repeatval - 1
    tinit := time.now - entry.timeout + 1 }

theorem timedOut_startedOnce : timedOut (startedOnce entry time) time = false := by
  unfold timedOut
  have hlate : ¬ time.now - entry.timeout + 1 + entry.timeout ≤ time.now := by omega
  show (entry.has schedTimeout && decide (time.now - entry.timeout + 1 + entry.timeout ≤
    time.now)) = false
  rw [decide_eq_false hlate, Bool.and_false]

/-- For a task that `checkValidity` lets pass and a time that is not before 0, `calcStartTime` and
`isTaskReady` end without a division by zero if and only if the entry is safe at that time. -/
theorem neverFaults_iff (h : checkValidity timenow task = 0) (htnow : 0 ≤ time.tnow)
    (id now : ℤ) : NeverFaults (newInfo task id now).info time ↔
      SafeEntry (newInfo task id now).info time.tnow := by
  have hok := syncOk_newInfo h id now
  have haccepted : Accepted (newInfo task id now).info := ⟨timenow, task, id, now, h, rfl⟩
  have hends := calcStartTime_ends_iff hok htnow
  generalize (newInfo task id now).info = entry at *
  constructor
  · rintro ⟨hcalc, hready⟩ hrepeat
    refine ⟨hends.mp hcalc hrepeat, ?_⟩
    by_contra hnone
    obtain ⟨hzero, hmany⟩ := not_or.mp hnone
    have hcount : Countdown (startedOnce entry time) := by
      intro hN
      have hpos := haccepted.repeatval hN
      show 0 ≤ entry.repeatval - 1 ∧ (_ → entry.repeatval - 1 < entry.repeatval)
      omega
    have hdone : repeatsDone (startedOnce entry time) = false := by
      have hleft : ¬ (entry.repeattype = schedRepeatN ∧ entry.repeatval - 1 = 0) :=
        fun hlast => hmany ⟨hlast.1, by omega⟩
      show (decide (entry.repeattype = schedRepeatN) && decide (entry.repeatval - 1 = 0) ||
        decide (entry.repeattype = schedRepeatCond) && decide (¬ (0 = 0))) = false
      simpa using hleft
    obtain ⟨enough, hfuel⟩ := hready (startedOnce entry time) rfl hcount [] fun _ => false
    obtain ⟨r, hr⟩ := hfuel enough (Nat.le_refl _)
    have hinterval : repeatInterval (startedOnce entry time).info = 0 := not_not.mp hzero
    rw [isTaskReady_repeat rfl timedOut_startedOnce Nat.one_ne_zero hrepeat hdone,
      if_pos hinterval] at hr
    cases hr
  · intro hsafe
    have hcalc := hends.mpr fun hrepeat => (hsafe hrepeat).1
    refine ⟨hcalc, ?_⟩
    rintro info rfl hcount tags sync
    refine isTaskReady_ends hcalc ?_ tags sync
    intro hrepeat
    obtain hne | ⟨hN, hone⟩ := (hsafe hrepeat).2
    · exact Or.inl hne
    · right
      intro hfirst
      obtain ⟨hle, hlt⟩ := hcount ⟨hrepeat, hN⟩
      have hzero : info.repeatN = 0 := by
        have hlt' := hlt hfirst
        omega
      simp [repeatsDone, hN, hzero]

/-! ## Two tasks -/

def everyEpochTask : SchedulerTask :=
  { plainTask with flag := schedRepeat, repeattype := 1, repeatrate := 1 }

theorem neverFaults_everyEpochTask :
    NeverFaults (newInfo everyEpochTask 1 0).info { (init 0 blankInfos).time with tnow := 1600 } :=
  (neverFaults_iff (by decide : checkValidity 0 everyEpochTask = 0) (by decide) 1 0).mpr (by
    intro _
    exact ⟨fun hwait => absurd hwait (by decide), Or.inl (by decide)⟩)

/-- With the repeat rate 0 the second pass divides by zero. -/
theorem zeroRate_faults :
    ¬ ∀ timenow task id now time, checkValidity timenow task = 0 → 0 ≤ time.tnow →
      NeverFaults (newInfo task id now).info time := by
  intro hall
  have hsafe := hall 0 { everyEpochTask with repeatrate := 0 } 1 0
    { (init 0 blankInfos).time with tnow := 1600 } (by decide) (by decide)
  obtain ⟨-, hready⟩ := hsafe
  obtain ⟨enough, hfuel⟩ := hready
    (startInfo 1600 (newInfo { everyEpochTask with repeatrate := 0 } 1 0)) rfl
    (fun hN => absurd hN.2 (by decide)) [] fun _ => false
  obtain ⟨r, hr⟩ := hfuel enough (Nat.le_refl _)
  rw [isTaskReady_repeat rfl rfl Nat.one_ne_zero (by decide) (by decide), if_pos (by decide)] at hr
  cases hr

end Safe

end AdvLigoRts.Gds.Sched
