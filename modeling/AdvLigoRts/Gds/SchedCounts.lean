import AdvLigoRts.Gds.SchedCollect

/-!
# The counters and flags of an entry

`History` is what has been seen of an entry since it was scheduled. The counters and the flags of
the entry follow it: `Running` is about `runningtasks`, `Flags` about the three flags and the
number of repeats.
-/

namespace AdvLigoRts.Gds.Sched

open PvLib

/-! ## Accepted tasks -/

/-- The record of an entry comes from a task that `checkValidity` lets pass. -/
def Accepted (info : SchedulerTask) : Prop :=
  ∃ timenow task id now, checkValidity timenow task = 0 ∧ info = (newInfo task id now).info

section Accepted

variable {timenow : ℤ} {task info : SchedulerTask}

theorem validityChecks_false (h : checkValidity timenow task = 0) :
    ∀ c ∈ validityChecks timenow task, c.1 = false := by
  unfold checkValidity at h
  split at h
  · next b err hfind =>
    have hmem := List.mem_of_find?_eq_some hfind
    have hne : ∀ c ∈ validityChecks timenow task, c.2 ≠ 0 := by simp [validityChecks]
    exact absurd h (hne _ hmem)
  · next hfind =>
    intro c hc
    simpa using List.find?_eq_none.mp hfind c hc

/-- What the defaults of a new entry leave alone. -/
theorem newInfo_info (task : SchedulerTask) (id now : ℤ) : ∃ synctype waittype priority,
    (newInfo task id now).info = { task with
      synctype := synctype, waittype := waittype, priority := priority } ∧
    (task.has schedWait = true → synctype = task.synctype ∧ waittype = task.waittype) := by
  unfold newInfo
  dsimp only
  by_cases hwait : task.has schedWait = true
  · rw [if_pos hwait]
    split
    · exact ⟨_, _, _, rfl, fun _ => ⟨rfl, rfl⟩⟩
    · exact ⟨_, _, _, rfl, fun _ => ⟨rfl, rfl⟩⟩
  · rw [if_neg hwait]
    split
    · exact ⟨_, _, _, rfl, fun htrue => absurd htrue hwait⟩
    · exact ⟨_, _, _, rfl, fun htrue => absurd htrue hwait⟩

def repeatsN (info : SchedulerTask) : Prop :=
  info.has schedRepeat = true ∧ info.repeattype = schedRepeatN

theorem Accepted.repeatval (h : Accepted info) (hrepeat : repeatsN info) : 1 ≤ info.repeatval := by
  obtain ⟨timenow, task, id, now, hvalid, rfl⟩ := h
  obtain ⟨synctype, waittype, priority, hinfo, -⟩ := newInfo_info task id now
  rw [hinfo] at hrepeat ⊢
  have hflag : task.has schedRepeat = true := hrepeat.1
  have htype : task.repeattype = schedRepeatN := hrepeat.2
  have hcheck := validityChecks_false hvalid
    (task.has schedRepeat && task.repeattype = schedRepeatN && task.repeatval < 1, -22)
    (by simp [validityChecks])
  simp only [hflag, htype, decide_true, Bool.true_and, decide_eq_false_iff_not] at hcheck
  exact Int.not_lt.mp hcheck

end Accepted

/-! ## What has been seen -/

/-- How often an entry was started and has ended since it was scheduled, both numbers at each time
its tag was set, and whether it was removed or has timed out. -/
structure History where
  starts : ℕ
  ends : ℕ
  tagged : List (ℕ × ℕ)
  stopped : Bool
deriving DecidableEq, Repr

def History.after (p : ℕ) (h : History) : SchedEvent → History
  | .scheduled q => if q = p then ⟨0, 0, [], false⟩ else h
  | .started q => if q = p then { h with starts := h.starts + 1 } else h
  | .returned q => if q = p then { h with ends := h.ends + 1 } else h
  | .finished ps => { h with ends := h.ends + ps.count p }
  | .tags ps => if p ∈ ps then { h with tagged := h.tagged ++ [(h.starts, h.ends)] } else h
  | .timedOut q => if q = p then { h with stopped := true } else h
  | .removed ps => if p ∈ ps then { h with stopped := true } else h
  | _ => h

def history (p : ℕ) (tr : List SchedEvent) : History :=
  tr.foldl (History.after p) ⟨0, 0, [], false⟩

theorem history_snoc (p : ℕ) (tr : List SchedEvent) (e : SchedEvent) :
    history p (tr ++ [e]) = (history p tr).after p e := by
  unfold history
  rw [List.foldl_append]
  rfl

section Steps

variable {p : ℕ} {info info' : SchedInfo} {called called' : Bool} {e : SchedEvent} {h : History}

theorem History.after_started (p : ℕ) (h : History) :
    h.after p (.started p) = { h with starts := h.starts + 1 } := if_pos rfl

theorem History.after_returned (p : ℕ) (h : History) :
    h.after p (.returned p) = { h with ends := h.ends + 1 } := if_pos rfl

theorem History.after_timedOut (p : ℕ) (h : History) :
    h.after p (.timedOut p) = { h with stopped := true } := if_pos rfl

theorem History.after_removed {p : ℕ} {ps : List ℕ} (hp : p ∈ ps) (h : History) :
    h.after p (.removed ps) = { h with stopped := true } := if_pos hp

theorem History.after_other (he : e.about p = false) : h.after p e = h := by
  cases e with
  | finished ps => cases he
  | tags ps => cases he
  | idle => rfl
  | deleted ps => rfl
  | started q | returned q | timedOut q | scheduled q | removed ps =>
    exact if_neg (of_decide_eq_false he)

theorem EntryStep.static (hstep : EntryStep p info called e info' called') :
    info'.static = info.static := by
  cases hstep with
  | collect hps => exact static_cleanupEntry info
  | tags finished hps => exact static_markTags finished info
  | returns result => exact static_updateEndOfTask _ result
  | _ => rfl

theorem EntryStep.info_eq (hstep : EntryStep p info called e info' called') :
    info'.info = info.info :=
  congrArg Prod.fst hstep.static

/-! ## Running tasks -/

/-- `runningtasks` is the number of threads that are not collected and of the synchronous call; it
is what has been started and has not ended. -/
structure Running (info : SchedInfo) (called : Bool) (h : History) : Prop where
  count : info.runningtasks =
    info.countTasks SchedTask.valid + (if called then 1 else 0 : ℕ)
  balance : (h.starts : ℤ) = h.ends + info.runningtasks
  slots : info.info.has schedAsync = false → ∀ i, (info.tasks i).valid = false
  sync : called = true → info.info.has schedAsync = false

theorem running_new (task : SchedulerTask) (id now : ℤ) :
    Running (newInfo task id now) false ⟨0, 0, [], false⟩ := by
  have hnone : (newInfo task id now).countTasks SchedTask.valid = 0 :=
    countTasks_eq_zero.mpr fun _ => rfl
  constructor
  · rw [hnone]
    rfl
  · rfl
  · exact fun _ _ => rfl
  · exact nofun

/-- Nothing is added and nothing ends. -/
theorem Running.same (hr : Running info called h) (hinfo : info'.info = info.info)
    (hrunning : info'.runningtasks = info.runningtasks)
    (hvalid : ∀ i, (info'.tasks i).valid = (info.tasks i).valid) {h' : History}
    (hstarts : h'.starts = h.starts) (hends : h'.ends = h.ends) : Running info' called h' := by
  constructor
  · rw [hrunning, hr.count, countTasks_congr hvalid]
  · rw [hrunning, hstarts, hends]
    exact hr.balance
  · intro hsync i
    rw [hvalid]
    exact hr.slots (hinfo ▸ hsync) i
  · intro hcalled
    rw [hinfo]
    exact hr.sync hcalled

theorem Running.collect (hr : Running info false h) {ps : List ℕ}
    (hps : ps.count p = info.countTasks SchedTask.finished) :
    Running (cleanupEntry info) false (h.after p (.finished ps)) := by
  have hcount := hr.count
  have hbalance := hr.balance
  have hsplit := countTasks_cleanupEntry info
  have hrunning := cleanupEntry_running info
  have hinfo : (cleanupEntry info).info = info.info :=
    congrArg Prod.fst (static_cleanupEntry info)
  constructor
  · simp only [Bool.false_eq_true, if_false] at hcount ⊢
    omega
  · show (h.starts : ℤ) = ((h.ends + ps.count p : ℕ) : ℤ) + _
    omega
  · intro hsync i
    rw [cleanupEntry_valid, hr.slots (hinfo ▸ hsync) i]
    rfl
  · exact nofun

theorem Running.spawn (hr : Running info false h) (tfirst : ℤ) {i : Fin maxTasks}
    (hasync : info.info.has schedAsync = true) (hfree : freeTask info = some i) :
    Running (startInfo tfirst (prepareTask i true info)) false (h.after p (.started p)) := by
  have hcount := hr.count
  have hbalance := hr.balance
  have hmore : (startInfo tfirst (prepareTask i true info)).countTasks SchedTask.valid =
      info.countTasks SchedTask.valid + 1 := countTasks_prepareTask hfree
  have hrunning : (startInfo tfirst (prepareTask i true info)).runningtasks =
      info.runningtasks + 1 := rfl
  rw [History.after_started]
  constructor
  · simp only [Bool.false_eq_true, if_false] at hcount ⊢
    omega
  · show ((h.starts + 1 : ℕ) : ℤ) = h.ends + _
    omega
  · intro hsync
    have hsame : info.info.has schedAsync = false := hsync
    rw [hasync] at hsame
    cases hsame
  · exact nofun

theorem Running.call (hr : Running info false h) (tfirst : ℤ)
    (hsync : info.info.has schedAsync = false) :
    Running (startInfo tfirst info) true (h.after p (.started p)) := by
  have hcount := hr.count
  have hbalance := hr.balance
  have hrunning : (startInfo tfirst info).runningtasks = info.runningtasks + 1 := rfl
  have hsame : (startInfo tfirst info).countTasks SchedTask.valid =
      info.countTasks SchedTask.valid := rfl
  rw [History.after_started]
  constructor
  · simp only [Bool.false_eq_true, if_false, if_true] at hcount ⊢
    omega
  · show ((h.starts + 1 : ℕ) : ℤ) = h.ends + _
    omega
  · exact hr.slots
  · exact fun _ => hsync

theorem Running.returns (hr : Running info true h) (result : ℤ) :
    Running (returnInfo result info) false (h.after p (.returned p)) := by
  have hcount := hr.count
  have hbalance := hr.balance
  have hrunning : (returnInfo result info).runningtasks = info.runningtasks - 1 := by
    unfold returnInfo
    rw [updateEndOfTask_eq]
  have htasks : (returnInfo result info).tasks = info.tasks := by
    unfold returnInfo
    rw [updateEndOfTask_eq]
  have hsame : (returnInfo result info).countTasks SchedTask.valid =
      info.countTasks SchedTask.valid := countTasks_congr fun i => by rw [htasks]
  rw [History.after_returned]
  constructor
  · simp only [Bool.false_eq_true, if_false, if_true] at hcount ⊢
    omega
  · show (h.starts : ℤ) = ((h.ends + 1 : ℕ) : ℤ) + _
    omega
  · intro _ i
    rw [htasks]
    exact hr.slots (hr.sync rfl) i
  · exact nofun

theorem Running.step (hr : Running info called h)
    (hstep : EntryStep p info called e info' called') : Running info' called' (h.after p e) := by
  cases hstep with
  | other he =>
    rw [History.after_other he]
    exact hr
  | collect hps => exact hr.collect hps
  | tags finished hps =>
    have hmark : (markTags finished info).runningtasks = info.runningtasks ∧
        (markTags finished info).tasks = info.tasks := by
      unfold markTags
      split_ifs
      all_goals exact ⟨rfl, rfl⟩
    apply hr.same
    · exact (EntryStep.tags (p := p) finished hps).info_eq
    · exact hmark.1
    · intro i
      rw [hmark.2]
    · show (if _ then _ else h).starts = _
      split
      · rfl
      · rfl
    · show (if _ then _ else h).ends = _
      split
      · rfl
      · rfl
  | call tfirst hready hsync => exact hr.call tfirst hsync
  | spawn tfirst i hready hasync hfree => exact hr.spawn tfirst hasync hfree
  | unspawned i hasync hfree =>
    apply hr.same
    · rfl
    · rfl
    · intro j
      show (Function.update info.tasks i _ j).valid = _
      by_cases hj : j = i
      · rw [hj, Function.update_self, freeTask_valid hfree]
      · rw [Function.update_of_ne hj]
    · rfl
    · rfl
  | returns result => exact hr.returns result
  | timeout =>
    apply hr.same
    · rfl
    · rfl
    · exact fun _ => rfl
    · rw [History.after_timedOut]
    · rw [History.after_timedOut]
  | remove hp terminate cancelled =>
    apply hr.same
    · rfl
    · rfl
    · intro i
      unfold markRemoved
      dsimp only
      split
      · rfl
      · rfl
    · rw [History.after_removed hp]
    · rw [History.after_removed hp]
  | finish i result hrunning =>
    apply hr.same
    · rfl
    · rfl
    · intro j
      show (Function.update info.tasks i _ j).valid = _
      by_cases hj : j = i
      · rw [hj, Function.update_self]
      · rw [Function.update_of_ne hj]
    · rfl
    · rfl

/-! ## Flags -/

/-- The three flags say whether the entry has been started, has ended, and whether its series is
over, where 2 stands for a flag that `evaluateTags` has seen. -/
structure Flags (info : SchedInfo) (called : Bool) (h : History) : Prop where
  scheduled : info.firstScheduled ≤ 2 ∧ (info.firstScheduled = 0 ↔ h.starts = 0)
  finished : info.firstFinished ≤ 2 ∧ (info.firstFinished = 0 ↔ h.ends = 0)
  last : info.lastFinished ≤ 2
  ended : info.lastFinished ≠ 0 → info.markForTermination = true ∧ h.ends ≠ 0 ∧
    (repeatsN info.info → (h.starts : ℤ) = info.info.repeatval)
  mark : h.stopped = false → info.markForTermination = true → info.lastFinished ≠ 0
  called : called = true → info.lastFinished = 0
  repeatN : repeatsN info.info →
    info.repeatN = info.info.repeatval - h.starts ∧ (h.starts : ℤ) ≤ info.info.repeatval
  single : info.info.has schedRepeat = false → h.starts ≤ 1

theorem flags_new {timenow : ℤ} {task : SchedulerTask} (hvalid : checkValidity timenow task = 0)
    (id now : ℤ) : Flags (newInfo task id now) false ⟨0, 0, [], false⟩ := by
  obtain ⟨synctype, waittype, priority, hinfo, -⟩ := newInfo_info task id now
  constructor
  · exact ⟨Nat.zero_le _, iff_of_true rfl rfl⟩
  · exact ⟨Nat.zero_le _, iff_of_true rfl rfl⟩
  · exact Nat.zero_le _
  · exact fun hne => absurd rfl hne
  · exact nofun
  · exact nofun
  · intro hrepeat
    have hpos := Accepted.repeatval ⟨timenow, task, id, now, hvalid, rfl⟩ hrepeat
    rw [hinfo] at hrepeat hpos ⊢
    have hN : (newInfo task id now).repeatN = task.repeatval := if_pos hrepeat
    refine ⟨?_, ?_⟩
    · rw [hN]
      show task.repeatval = task.repeatval - ((0 : ℕ) : ℤ)
      omega
    · show ((0 : ℕ) : ℤ) ≤ task.repeatval
      exact Int.le_trans (by decide) hpos
  · exact fun _ => Nat.zero_le _

theorem flag_set {flag : ℕ} (h : flag ≤ 2) :
    (if flag = 0 then 1 else flag) ≤ 2 ∧ (if flag = 0 then 1 else flag) ≠ 0 := by
  split
  · exact ⟨by omega, Nat.one_ne_zero⟩
  · next hne => exact ⟨h, hne⟩

theorem Flags.ends (hf : Flags info called h) {result : ℤ}
    (hends : endsSeries info result = true) (hrepeat : repeatsN info.info) :
    (h.starts : ℤ) = info.info.repeatval := by
  obtain ⟨hN, hle⟩ := hf.repeatN hrepeat
  unfold endsSeries at hends
  rw [if_pos hrepeat.1, hrepeat.2] at hends
  have hdone : info.repeatN ≤ 0 := by
    simpa [schedRepeatN, schedRepeatCond] using hends
  omega

theorem Flags.marks (hf : Flags info called h) {h' : History} (hinfo : info'.info = info.info)
    (hscheduled : info'.firstScheduled ≤ 2 ∧
      (info'.firstScheduled = 0 ↔ info.firstScheduled = 0))
    (hfinished : info'.firstFinished ≤ 2 ∧ (info'.firstFinished = 0 ↔ info.firstFinished = 0))
    (hlast : info'.lastFinished ≤ 2 ∧ (info'.lastFinished = 0 ↔ info.lastFinished = 0))
    (hmark : info'.markForTermination = info.markForTermination ∨
      info'.markForTermination = true ∧ h'.stopped = true)
    (hN : info'.repeatN = info.repeatN) (hstarts : h'.starts = h.starts)
    (hends : h'.ends = h.ends) (hstopped : h'.stopped = false → h.stopped = false) :
    Flags info' called h' := by
  constructor
  · rw [hstarts, hscheduled.2]
    exact ⟨hscheduled.1, hf.scheduled.2⟩
  · rw [hends, hfinished.2]
    exact ⟨hfinished.1, hf.finished.2⟩
  · exact hlast.1
  · intro hne
    rw [hstarts, hends, hinfo]
    obtain ⟨hold, hpos, hall⟩ := hf.ended fun hzero => hne (hlast.2.mpr hzero)
    refine ⟨?_, hpos, hall⟩
    obtain hsame | ⟨htrue, -⟩ := hmark
    · rw [hsame]
      exact hold
    · exact htrue
  · intro hgoing htrue
    obtain hsame | ⟨-, hstop⟩ := hmark
    · rw [Ne, hlast.2]
      exact hf.mark (hstopped hgoing) (hsame ▸ htrue)
    · rw [hgoing] at hstop
      cases hstop
  · intro hcalled
    exact hlast.2.mpr (hf.called hcalled)
  · rw [hinfo, hstarts, hN]
    exact hf.repeatN
  · rw [hinfo, hstarts]
    exact hf.single

theorem Flags.collect (hf : Flags info false h) {ps : List ℕ}
    (hps : ps.count p = info.countTasks SchedTask.finished) :
    Flags (cleanupEntry info) false (h.after p (.finished ps)) := by
  have hcollected := collected_cleanupEntry info
  have hinfo : (cleanupEntry info).info = info.info := congrArg Prod.fst hcollected.static
  have hsome : SeriesEnds info → 0 < ps.count p := by
    rintro ⟨i, hi, -⟩
    rw [hps]
    exact countTasks_pos.mpr ⟨i, hi⟩
  have hafter : h.after p (.finished ps) = { h with ends := h.ends + ps.count p } := rfl
  rw [hafter]
  constructor
  · rw [hcollected.scheduled]
    exact hf.scheduled
  · obtain ⟨hle, hzero⟩ := hf.finished
    rw [cleanupEntry_first, ← hps]
    dsimp only
    by_cases hfirst : 0 < ps.count p ∧ info.firstFinished = 0
    · rw [if_pos hfirst]
      omega
    · rw [if_neg hfirst]
      omega
  · have hle := hf.last
    rw [cleanupEntry_last]
    split_ifs
    · omega
    · exact hle
  · rw [cleanupEntry_last, hinfo, cleanupEntry_mark]
    by_cases hseries : SeriesEnds info
    · have hpos := hsome hseries
      have ⟨i, _, hends⟩ := hseries
      exact fun _ => ⟨Or.inr hseries, by dsimp only; omega, hf.ends hends⟩
    · rw [if_neg hseries]
      intro hne
      obtain ⟨hmark, hpos, hall⟩ := hf.ended hne
      exact ⟨Or.inl hmark, by dsimp only; omega, hall⟩
  · rw [cleanupEntry_last, cleanupEntry_mark]
    intro hgoing hmark
    by_cases hseries : SeriesEnds info
    · rw [if_pos hseries]
      exact Nat.one_ne_zero
    · rw [if_neg hseries]
      exact hf.mark hgoing (hmark.resolve_right hseries)
  · exact nofun
  · rw [hinfo, hcollected.repeatN]
    exact hf.repeatN
  · rw [hinfo]
    exact hf.single

theorem Flags.start (hf : Flags info false h) (haccepted : Accepted info.info)
    (hready : Startable info) (hinfo : info'.info = info.info)
    (hscheduled : info'.firstScheduled =
      if info.firstScheduled = 0 then 1 else info.firstScheduled)
    (hfinished : info'.firstFinished = info.firstFinished)
    (hlast : info'.lastFinished = info.lastFinished)
    (hmark : info'.markForTermination = info.markForTermination)
    (hN : info'.repeatN = if info.info.has schedRepeat = true ∧
      info.info.repeattype = schedRepeatN then info.repeatN - 1 else info.repeatN) :
    Flags info' called (h.after p (.started p)) := by
  obtain ⟨hunmarked, hrepeated⟩ := hready
  obtain ⟨hle, hzero⟩ := hf.scheduled
  have hnotlast : info.lastFinished = 0 := by
    by_contra hne
    rw [(hf.ended hne).1] at hunmarked
    cases hunmarked
  rw [History.after_started]
  constructor
  · obtain ⟨hle', hne⟩ := flag_set hle
    rw [hscheduled]
    exact ⟨hle', iff_of_false hne (Nat.succ_ne_zero _)⟩
  · rw [hfinished]
    exact hf.finished
  · rw [hlast]
    exact hf.last
  · intro hne
    rw [hlast] at hne
    exact absurd hnotlast hne
  · intro _ htrue
    rw [hmark, hunmarked] at htrue
    cases htrue
  · intro _
    rw [hlast]
    exact hnotlast
  · rw [hinfo]
    intro hrepeat
    obtain ⟨hleft, hbound⟩ := hf.repeatN hrepeat
    have hmore : info.repeatN ≠ 0 := by
      by_cases hfirst : info.firstScheduled = 0
      · have hpos := haccepted.repeatval hrepeat
        have hstarts := hzero.mp hfirst
        omega
      · obtain ⟨-, hdone⟩ := hrepeated hfirst
        unfold repeatsDone at hdone
        rw [hrepeat.2] at hdone
        simpa [schedRepeatN, schedRepeatCond] using hdone
    rw [hN, if_pos ⟨hrepeat.1, hrepeat.2⟩]
    dsimp only
    omega
  · rw [hinfo]
    intro hsingle
    have hfirst : info.firstScheduled = 0 := by
      by_contra hne
      rw [(hrepeated hne).1] at hsingle
      cases hsingle
    have hstarts := hzero.mp hfirst
    dsimp only
    omega

theorem Flags.returns (hf : Flags info true h) (result : ℤ) :
    Flags (returnInfo result info) false (h.after p (.returned p)) := by
  have hlast : info.lastFinished = 0 := hf.called rfl
  have hmark := hf.mark
  obtain ⟨hle, hzero⟩ := hf.finished
  unfold returnInfo
  rw [updateEndOfTask_eq, endsSeries_runningtasks, History.after_returned]
  constructor
  · exact hf.scheduled
  · obtain ⟨hle', hne⟩ := flag_set hle
    exact ⟨hle', iff_of_false hne (Nat.succ_ne_zero _)⟩
  · dsimp only
    split
    · exact Nat.le_succ 1
    · exact hf.last
  · dsimp only
    intro hne
    by_cases hseries : endsSeries info result = true
    · exact ⟨by rw [hseries, Bool.or_true], by omega, hf.ends hseries⟩
    · rw [if_neg hseries] at hne
      exact absurd hlast hne
  · dsimp only
    intro hgoing htrue
    by_cases hseries : endsSeries info result = true
    · rw [if_pos hseries]
      exact Nat.one_ne_zero
    · rw [Bool.eq_false_of_not_eq_true hseries, Bool.or_false] at htrue
      exact absurd hlast (hmark hgoing htrue)
  · exact nofun
  · exact hf.repeatN
  · exact hf.single

theorem seen_le {flag : ℕ} (h : flag ≤ 2) : seen flag ≤ 2 := by
  unfold seen
  split
  · exact Nat.le_refl 2
  · exact h

theorem seen_eq_zero {flag : ℕ} : seen flag = 0 ↔ flag = 0 := by
  unfold seen
  split
  · omega
  · exact Iff.rfl

theorem Flags.tags (hf : Flags info false h) (finished : Bool) (ps : List ℕ) :
    Flags (markTags finished info) false (h.after p (.tags ps)) := by
  have hafter : (h.after p (.tags ps)).starts = h.starts ∧
      (h.after p (.tags ps)).ends = h.ends ∧
      (h.after p (.tags ps)).stopped = h.stopped := by
    show (if _ then _ else h).starts = _ ∧ (if _ then _ else h).ends = _ ∧
      (if _ then _ else h).stopped = _
    split
    · exact ⟨rfl, rfl, rfl⟩
    · exact ⟨rfl, rfl, rfl⟩
  have hseen : ∀ flag ≤ 2, seen flag ≤ 2 ∧ (seen flag = 0 ↔ flag = 0) :=
    fun flag hle => ⟨seen_le hle, seen_eq_zero⟩
  have hscheduled : info.firstScheduled ≤ 2 ∧ (info.firstScheduled = 0 ↔ info.firstScheduled = 0) :=
    ⟨hf.scheduled.1, Iff.rfl⟩
  have hfinished : info.firstFinished ≤ 2 ∧ (info.firstFinished = 0 ↔ info.firstFinished = 0) :=
    ⟨hf.finished.1, Iff.rfl⟩
  have hlast : info.lastFinished ≤ 2 ∧ (info.lastFinished = 0 ↔ info.lastFinished = 0) :=
    ⟨hf.last, Iff.rfl⟩
  unfold markTags
  split
  · exact hf.marks rfl hscheduled hfinished hlast (Or.inl rfl) rfl hafter.1 hafter.2.1
      (fun hgoing => hafter.2.2 ▸ hgoing)
  · split
    · exact hf.marks rfl hscheduled (hseen _ hf.finished.1) (hseen _ hf.last) (Or.inl rfl) rfl
        hafter.1 hafter.2.1 (fun hgoing => hafter.2.2 ▸ hgoing)
    · exact hf.marks rfl (hseen _ hf.scheduled.1) hfinished hlast (Or.inl rfl) rfl hafter.1
        hafter.2.1 (fun hgoing => hafter.2.2 ▸ hgoing)

/-- An entry is stopped. -/
theorem Flags.stop (hf : Flags info called h) {tasks : Fin maxTasks → SchedTask} :
    Flags { info with markForTermination := true, tasks := tasks } called
      { h with stopped := true } := by
  apply hf.marks
  · rfl
  · exact ⟨hf.scheduled.1, Iff.rfl⟩
  · exact ⟨hf.finished.1, Iff.rfl⟩
  · exact ⟨hf.last, Iff.rfl⟩
  · exact Or.inr ⟨rfl, rfl⟩
  · rfl
  · rfl
  · rfl
  · exact nofun

theorem Flags.step (hf : Flags info called h) (haccepted : Accepted info.info)
    (hstep : EntryStep p info called e info' called') : Flags info' called' (h.after p e) := by
  cases hstep with
  | other he =>
    rw [History.after_other he]
    exact hf
  | collect hps => exact hf.collect hps
  | tags finished hps => exact hf.tags finished _
  | call tfirst hready hsync | spawn tfirst i hready hasync hfree =>
    exact hf.start haccepted hready rfl rfl rfl rfl rfl rfl
  | unspawned i hasync hfree => exact { hf with }
  | returns result => exact hf.returns result
  | timeout =>
    rw [History.after_timedOut]
    exact hf.stop
  | remove hp terminate cancelled =>
    rw [History.after_removed hp]
    exact hf.stop
  | finish i result hrunning => exact { hf with }

end Steps

end AdvLigoRts.Gds.Sched
