import AdvLigoRts.Gds.SchedTime
import Mathlib.Data.List.Chain

/-!
# The first start of an entry

An entry that waits is not started before the moment it waits for, unless that is a tag with a
time in the future: `isTagExpired` returns a negative number of epochs for it, of which only -1
stands for a tag that is not set (`Early`).
-/

namespace AdvLigoRts.Gds.Sched

open PvLib

open Daqd (int32 int32_eq)

/-! ## Waiting -/

def tagWaits : List ℤ := [schedWaitTag, schedWaitTagdelayed, schedWaitTagepochdelayed]

def tagEpoch (ltag : TimeTag) : ℤ := ltag.tai * numberOfEpochs + ltag.epoch

/-- The moment that an entry waits for is not after the pass. -/
structure NotBefore (tags : List TimeTag) (info : SchedInfo) (time : SchedTime) : Prop where
  timedelay : info.info.waittype = schedWaitTimedelay →
    info.tinit + info.info.waitval ≤ time.tnow * epochNsec
  epochdelay : info.info.waittype = schedWaitEpochdelay →
    info.tinit + info.info.waitval * epochNsec ≤ time.tnow * epochNsec
  starttime : info.info.waittype = schedWaitStarttime →
    info.info.waitval ≤ time.tnow * epochNsec
  tag : info.info.waittype ∈ tagWaits → ∃ ltag, findTag tags info.info.waittag = some ltag ∧
    tagEpoch ltag ≤ time.tnow ∧
    (info.info.waittype = schedWaitTagdelayed →
      info.info.waitval ≤ (time.tnow - tagEpoch ltag) * epochNsec) ∧
    (info.info.waittype = schedWaitTagepochdelayed →
      info.info.waitval ≤ time.tnow - tagEpoch ltag)

/-- The tag is after the pass, and as an `int` its age is not -1 and passes for a delay that is
over. -/
def Early (tags : List TimeTag) (info : SchedInfo) (time : SchedTime) : Prop :=
  info.info.waittype ∈ tagWaits ∧ ∃ ltag, findTag tags info.info.waittag = some ltag ∧
    time.tnow < tagEpoch ltag ∧ int32 (time.tnow - tagEpoch ltag) ≠ -1 ∧
    delayOver info time (int32 (time.tnow - tagEpoch ltag)) = true

section Wait

variable {tags : List TimeTag} {info : SchedInfo} {time : SchedTime} {sync : ℤ → Bool}
variable {fuel : ℕ} {tfirst timenow : ℤ} {task : SchedulerTask}

theorem isTaskReady_first (h : isTaskReady fuel tags info time sync = some (.ok (.ready tfirst)))
    (hfirst : info.firstScheduled = 0) :
    (info.info.has schedWait = true →
      waitOver tags info time = true ∧ inSync info time sync = true) ∧
    calcStartTime fuel info.info time = some (.ok tfirst) := by
  unfold isTaskReady at h
  simp only [hfirst, if_true] at h
  split at h
  · cases h
  · split at h
    · cases h
    · split at h
      · cases h
      · next hwait =>
        constructor
        · intro hflag
          by_contra hnot
          exact hwait ⟨hflag, hnot⟩
        · obtain ⟨r, hr, hmap⟩ := Option.map_eq_some_iff.mp h
          cases r with
          | error fault => cases hmap
          | ok t =>
            obtain rfl : t = tfirst := Ready.ready.inj (Except.ok.inj hmap)
            exact hr

/-- What `checkValidity` says about the wait of an accepted entry. -/
theorem waitval_nonneg (h : Accepted info.info) (hwait : info.info.has schedWait = true)
    (htype : info.info.waittype ∈ [schedWaitTagdelayed, schedWaitTagepochdelayed,
      schedWaitTimedelay, schedWaitEpochdelay, schedWaitStarttime]) : 0 ≤ info.info.waitval := by
  obtain ⟨timenow, task, id, now, hvalid, heq⟩ := h
  obtain ⟨synctype, waittype, priority, hinfo, hsame⟩ := newInfo_info task id now
  rw [heq, hinfo] at hwait htype ⊢
  have hflag : task.has schedWait = true := hwait
  have hdelay : task.waittype ∈ [schedWaitTagdelayed, schedWaitTagepochdelayed,
      schedWaitTimedelay, schedWaitEpochdelay, schedWaitStarttime] := (hsame hflag).2 ▸ htype
  have hcheck := validityChecks_false hvalid
    (task.has schedWait && decide (task.waittype ∈ [schedWaitTagdelayed,
      schedWaitTagepochdelayed, schedWaitTimedelay, schedWaitEpochdelay, schedWaitStarttime]) &&
      task.waitval < 0, -14) (by simp [validityChecks])
  simp only [hflag, decide_eq_true hdelay, Bool.true_and, decide_eq_false_iff_not] at hcheck
  exact Int.not_lt.mp hcheck

/-- A value of type `int` is not above a number that is not negative. -/
theorem int32_le {x : ℤ} (hx : 0 ≤ x) : int32 x ≤ x := by
  by_cases hsmall : x < 2 ^ 31
  · rw [int32_eq (by omega) hsmall]
  · have hlt : int32 x < (2 ^ 32 + 1) / 2 := Int.bmod_lt (by decide)
    omega

/-- The rounded time of scheduling is not before it. -/
theorem tinit_le (tinit : ℤ) :
    tinit ≤ (tinit + epochNsec - 1).tdiv epochNsec * epochNsec := by
  have hsum := Int.tdiv_mul_add_tmod (tinit + epochNsec - 1) epochNsec
  have hlt := Int.tmod_lt_of_pos (tinit + epochNsec - 1) (show 0 < epochNsec by decide)
  omega

theorem waitOver_tag (htype : info.info.waittype ∈ tagWaits)
    (htnow : time.tnow = time.tai * numberOfEpochs + time.epoch)
    (h : waitOver tags info time = true) : ∃ ltag, findTag tags info.info.waittag = some ltag ∧
      int32 (time.tnow - tagEpoch ltag) ≠ -1 ∧
      delayOver info time (int32 (time.tnow - tagEpoch ltag)) = true := by
  have hkind : info.info.waittype ∈
      [schedWaitTag, schedWaitTagdelayed, schedWaitTagepochdelayed] := htype
  unfold waitOver waitDelay at h
  rw [if_pos hkind] at h
  unfold isTagExpired at h
  cases hfind : findTag tags info.info.waittag with
  | none =>
    rw [hfind] at h
    simp at h
  | some ltag =>
    rw [hfind] at h
    have hage : (time.tai - ltag.tai) * numberOfEpochs + (time.epoch - ltag.epoch) =
        time.tnow - tagEpoch ltag := by
      rw [htnow]
      unfold tagEpoch
      ring
    simp only [hage] at h
    by_cases hunset : int32 (time.tnow - tagEpoch ltag) = -1
    · rw [if_pos hunset] at h
      cases h
    · rw [if_neg hunset] at h
      exact ⟨ltag, rfl, hunset, h⟩

/-- At the first start of an entry with a tag. -/
theorem notBefore_tag_iff (haccepted : Accepted info.info)
    (hwait : info.info.has schedWait = true) (htype : info.info.waittype ∈ tagWaits)
    (htnow : time.tnow = time.tai * numberOfEpochs + time.epoch)
    (h : waitOver tags info time = true) :
    NotBefore tags info time ↔ ¬ Early tags info time := by
  obtain ⟨ltag, hfind, hset, hover⟩ := waitOver_tag htype htnow h
  have hval (hdelay : info.info.waittype ∈ [schedWaitTagdelayed, schedWaitTagepochdelayed]) :
      0 ≤ info.info.waitval := by
    apply waitval_nonneg haccepted hwait
    simp only [List.mem_cons, List.not_mem_nil, or_false] at hdelay ⊢
    tauto
  constructor
  · rintro hbefore ⟨-, ltag', hfind', hfuture, -⟩
    obtain ⟨ltag'', hfind'', hle, -⟩ := hbefore.tag htype
    rw [hfind'] at hfind''
    obtain rfl := Option.some.inj hfind''
    omega
  · intro hnot
    have hle : tagEpoch ltag ≤ time.tnow := by
      by_contra hfuture
      exact hnot ⟨htype, ltag, hfind, by omega, hset, hover⟩
    have hage := int32_le (Int.sub_nonneg_of_le hle)
    have htypes : info.info.waittype = 4 ∨ info.info.waittype = 5 ∨ info.info.waittype = 6 := by
      simpa [tagWaits, schedWaitTag, schedWaitTagdelayed, schedWaitTagepochdelayed] using htype
    constructor
    · unfold schedWaitTimedelay
      omega
    · unfold schedWaitEpochdelay
      omega
    · unfold schedWaitStarttime
      omega
    · intro _
      refine ⟨ltag, hfind, hle, ?_, ?_⟩
      · intro hdelayed
        unfold delayOver at hover
        rw [hdelayed, if_pos (by simp)] at hover
        have hpass : int32 (time.tnow - tagEpoch ltag) * epochNsec ≥ info.info.waitval :=
          of_decide_eq_true hover
        unfold epochNsec at hpass ⊢
        omega
      · intro hdelayed
        unfold delayOver at hover
        rw [hdelayed, if_neg (by decide), if_pos (by simp)] at hover
        have hpass : int32 (time.tnow - tagEpoch ltag) ≥ info.info.waitval :=
          of_decide_eq_true hover
        omega

/-- At the first start of an entry without a tag. -/
theorem notBefore_of_not_tag (htype : info.info.waittype ∉ tagWaits)
    (h : waitOver tags info time = true) : NotBefore tags info time := by
  have hkind : info.info.waittype ∉
      [schedWaitTag, schedWaitTagdelayed, schedWaitTagepochdelayed] := htype
  unfold waitOver waitDelay at h
  rw [if_neg hkind] at h
  have hround := tinit_le info.tinit
  constructor
  · intro hdelay
    rw [if_pos (by simp [hdelay])] at h
    have hover : delayOver info time
        (time.tnow - (info.tinit + epochNsec - 1).tdiv epochNsec) = true := h
    unfold delayOver at hover
    rw [hdelay, if_pos (by simp)] at hover
    have hpass := of_decide_eq_true hover
    unfold epochNsec at *
    omega
  · intro hdelay
    rw [if_pos (by simp [hdelay])] at h
    have hover : delayOver info time
        (time.tnow - (info.tinit + epochNsec - 1).tdiv epochNsec) = true := h
    unfold delayOver at hover
    rw [hdelay, if_neg (by decide), if_pos (by simp)] at hover
    have hpass := of_decide_eq_true hover
    unfold epochNsec at *
    omega
  · intro hstart
    rw [if_neg (by rw [hstart]; decide)] at h
    have hover : delayOver info time 0 = true := h
    unfold delayOver at hover
    rw [hstart, if_neg (by decide), if_neg (by decide), if_pos rfl] at hover
    exact of_decide_eq_true hover
  · exact fun htag => absurd htag htype

/-- At the first start of an entry that waits, the moment it waits for is not after the pass,
unless its tag is taken for an older one. -/
theorem notBefore_iff (haccepted : Accepted info.info) (hwait : info.info.has schedWait = true)
    (htnow : time.tnow = time.tai * numberOfEpochs + time.epoch)
    (h : waitOver tags info time = true) :
    NotBefore tags info time ↔ ¬ Early tags info time := by
  by_cases htype : info.info.waittype ∈ tagWaits
  · exact notBefore_tag_iff haccepted hwait htype htnow h
  · exact iff_of_true (notBefore_of_not_tag htype h) fun hearly => htype hearly.1

end Wait

/-! ## Synchronization -/

/-- An epoch `e` came between the last pass and this one. -/
def Missed (time : SchedTime) (e : ℤ) : Prop :=
  time.oldepoch ≠ -1 ∧ ∃ t, time.told < t ∧ t < time.tnow ∧ t % numberOfEpochs = e

section Sync

variable {s t : SchedProcess} {a : SchedAction} {p : ℕ} {e : ℤ}

theorem synclist_iff (hs : TimeOk s) (hpass : s.pc ≠ .sync) (he : 0 ≤ e ∧ e < numberOfEpochs)
    (hother : s.time.epoch ≠ e) : synclist s.time e = true ↔ Missed s.time e := by
  obtain ⟨htnow, hlo, hhi, -⟩ := hs.tnow hpass
  unfold synclist Missed
  by_cases hfirst : s.time.oldepoch = -1
  · refine iff_of_false ?_ (fun hmissed => hmissed.1 hfirst)
    simp [hfirst, Ne.symm hother]
  · obtain ⟨htold, hold0, hold16⟩ := hs.told hfirst
    have hlist : ((decide (s.time.oldepoch = -1) && decide (e = s.time.epoch)) ||
        (decide (s.time.oldepoch ≠ -1) && decide ((s.time.tai - s.time.oldtai) * numberOfEpochs +
          e - (if e > s.time.epoch then numberOfEpochs else 0) > s.time.oldepoch))) = true ↔
        (s.time.tai - s.time.oldtai) * numberOfEpochs + e -
          (if e > s.time.epoch then numberOfEpochs else 0) > s.time.oldepoch := by
      simp [hfirst]
    rw [hlist, and_iff_right hfirst]
    unfold numberOfEpochs at *
    -- the last time before the pass with this epoch
    constructor
    · intro hafter
      refine ⟨s.time.tai * 16 + e - (if e > s.time.epoch then 16 else 0), ?_, ?_, ?_⟩
      · omega
      · split
        · omega
        · omega
      · split
        · omega
        · omega
    · rintro ⟨t, hlt, hlt', hmod⟩
      split
      · omega
      · omega

/-! ## Heartbeats in every epoch -/

def beatEpochs (as : List SchedAction) : List ℤ :=
  as.filterMap fun
    | .beat now => some (beatTnow now)
    | _ => none

def EveryEpoch (as : List SchedAction) : Prop := (beatEpochs as).IsChain fun t t' => t' = t + 1

/-- Once there has been a pass, no heartbeat finds the list empty. -/
def busy (s : SchedProcess) : SchedAction → Prop
  | .beat _ => s.time.oldepoch = -1 ∨ s.sd.tasklist 0 ≠ none
  | _ => True

instance (s : SchedProcess) (a : SchedAction) : Decidable (busy s a) :=
  match a with
  | .beat _ => inferInstanceAs (Decidable (_ ∨ _))
  | .finishedTags _ | .ready .. | .returns _ | .scheduledTags _ | .retire _ | .retireTags
  | .finish .. | .schedule .. | .remove .. | .setTag .. => .isTrue trivial

structure Clocked (last : Option ℤ) (s : SchedProcess) : Prop where
  pass : s.pc ≠ .sync → last = some s.time.tnow ∧
    (s.time.oldepoch ≠ -1 → s.time.told + 1 = s.time.tnow)
  sync : s.pc = .sync → s.time.oldepoch ≠ -1 →
    last = some s.time.told ∧ minTime * numberOfEpochs ≤ s.time.told

theorem Clocked.beat {last : Option ℤ} {now : ℤ} {ev : SchedEvent} (hc : Clocked last s)
    (hnext : ∀ l ∈ last, beatTnow now = l + 1) (hbusy : busy s (.beat now))
    (hstep : Sched.step s (.beat now) = some (ev, t)) : Clocked (some (beatTnow now)) t := by
  obtain ⟨tai, epoch, hbeat, htnow, -⟩ := beat_cases s.time now
  obtain ⟨hpc, ⟨hpc', -, htime⟩ | ⟨hpc', htime, -, hvalid⟩⟩ := step_beat hstep
  · have hold : t.time.oldepoch = s.time.oldepoch := by
      obtain ⟨htime, -⟩ | ⟨htime, -⟩ := htime
      · rw [htime]
      · rw [htime, hbeat]
    refine ⟨fun hne => absurd hpc' hne, ?_⟩
    -- after a pass every heartbeat is one of a pass
    intro _ hpassed
    rw [hold] at hpassed
    obtain ⟨hlast, hle⟩ := hc.sync hpc hpassed
    have hlater := hnext _ hlast
    obtain ⟨-, hempty⟩ | ⟨-, hearly⟩ := htime
    · exact absurd hempty (hbusy.resolve_left hpassed)
    · omega
  · rw [hbeat] at htime
    constructor
    · rw [htime]
      intro _
      refine ⟨congrArg some htnow, ?_⟩
      intro hpassed
      obtain ⟨hlast, -⟩ := hc.sync hpc hpassed
      have hlater := hnext _ hlast
      show s.time.told + 1 = tai * numberOfEpochs + epoch
      omega
    · intro hsync
      rw [hpc'] at hsync
      cases hsync

theorem Clocked.other {last : Option ℤ} {ev : SchedEvent} (hc : Clocked last s) (hs : TimeOk s)
    (ha : ∀ now, a ≠ .beat now) (hstep : Sched.step s a = some (ev, t)) : Clocked last t := by
  obtain ⟨hpc, hpc', htime, -⟩ | ⟨hpc, hpc', htime⟩ | ⟨htime, -, hpc, -⟩ := step_time hstep ha
  · constructor
    · rw [htime]
      exact fun _ => hc.pass (by rw [hpc]; exact nofun)
    · intro hsync
      rw [hpc'] at hsync
      cases hsync
  · have hin : s.pc ≠ .sync := by
      rw [hpc]
      exact nofun
    constructor
    · exact fun hne => absurd hpc' hne
    · rw [htime]
      exact fun _ _ => ⟨(hc.pass hin).1, (hs.tnow hin).2.2.2⟩
  · constructor
    · rw [htime]
      exact fun hne => hc.pass fun hfrom => hne (hpc.mpr hfrom)
    · rw [htime]
      exact fun hsync => hc.sync (hpc.mp hsync)

theorem clocked_run {last : Option ℤ} {as : List SchedAction} {tr : List SchedEvent}
    {u : SchedProcess} (hc : Clocked last s) (hs : TimeOk s)
    (hevery : (last.toList ++ beatEpochs as).IsChain fun t t' => t' = t + 1)
    (h : run (restrict busy step) s as = some (tr, u)) : ∃ last', Clocked last' u := by
  induction as generalizing s last tr with
  | nil =>
    cases h
    exact ⟨last, hc⟩
  | cons a as ih =>
    obtain ⟨ev, t, es, hstep, hrest, rfl⟩ := run_cons h
    obtain ⟨hbusy, hstep⟩ := restrict_eq_some.mp hstep
    have ht := hs.step hstep
    by_cases hbeat : ∃ now, a = .beat now
    · obtain ⟨now, rfl⟩ := hbeat
      have hepochs : beatEpochs (.beat now :: as) = beatTnow now :: beatEpochs as := rfl
      rw [hepochs] at hevery
      have hnext : ∀ l ∈ last, beatTnow now = l + 1 := by
        rintro l hl
        rw [show last = some l from hl] at hevery
        exact (List.isChain_cons_cons.mp hevery).1
      refine ih (hc.beat hnext hbusy hstep) ht ?_ hrest
      exact (List.isChain_append.mp hevery).2.1
    · have hepochs : beatEpochs (a :: as) = beatEpochs as := by
        unfold beatEpochs
        rw [List.filterMap_cons_none]
        cases a with
        | beat now => exact absurd ⟨now, rfl⟩ hbeat
        | _ => rfl
      rw [hepochs] at hevery
      exact ih (hc.other hs (fun now ha => hbeat ⟨now, ha⟩) hstep) ht hevery hrest

theorem clocked_init (newid : ℕ) (infos : ℕ → SchedInfo) : Clocked none (init newid infos) where
  pass := fun hne => absurd rfl hne
  sync := fun _ hne => absurd rfl hne

theorem not_missed {newid : ℕ} {infos : ℕ → SchedInfo} {as : List SchedAction}
    {tr : List SchedEvent} (hevery : EveryEpoch as)
    (h : run (restrict busy step) (init newid infos) as = some (tr, s)) (hpass : s.pc ≠ .sync) :
    ¬ Missed s.time e := by
  obtain ⟨last, hc⟩ := clocked_run (clocked_init newid infos) (timeOk_init newid infos) hevery h
  rintro ⟨hpassed, t, hlt, hlt', -⟩
  have hnext := (hc.pass hpass).2 hpassed
  omega

/-! ## First starts -/

section First

variable {fuel : ℕ} {tags : List TimeTag} {info : SchedInfo} {time : SchedTime} {sync : ℤ → Bool}
variable {newid : ℕ} {infos : ℕ → SchedInfo} {as : List SchedAction} {tr : List SchedEvent}

theorem isTaskReady_waited (hmark : info.markForTermination = false)
    (htime : timedOut info time = false) (hfirst : info.firstScheduled = 0)
    (hwait : info.info.has schedWait = true) (hover : waitOver tags info time = true) :
    isTaskReady fuel tags info time sync =
      if inSync info time sync = true then
        (calcStartTime fuel info.info time).map (·.map .ready)
      else some (.ok .notReady) := by
  unfold isTaskReady
  rw [hmark, htime, hwait, hover]
  simp only [Bool.false_eq_true, if_false, if_pos hfirst, true_and]
  by_cases hin : inSync info time sync = true
  · rw [if_pos hin, if_neg (not_not.mpr hin)]
  · rw [if_neg hin, if_pos hin]

theorem started_first (hs : EntriesOk tr s) (hp : p ∈ s.sd.entries)
    (hstarts : (history p tr).starts = 0) : (s.sd.infos p).firstScheduled = 0 :=
  (hs.2 p hp).flags.scheduled.2.mpr hstarts

theorem firstStart_waited (hs : EntriesOk tr s) (ht : TimeOk s)
    (hstep : Sched.step s a = some (.started p, t))
    (hwait : (s.sd.infos p).info.has schedWait = true) (hstarts : (history p tr).starts = 0) :
    p ∈ s.sd.entries ∧ s.pc ≠ .sync ∧
      waitOver s.sd.timetaglist (s.sd.infos p) s.time = true ∧
      inSync (s.sd.infos p) s.time (synclist s.time) = true := by
  obtain ⟨indx, fuel, spawned, tfirst, -, hpc, hcell, hready, -⟩ := step_started hstep
  have hin := (hs.1.cell hpc hcell).2
  have hscheduling : s.pc.scheduling = true := by
    rw [hpc]
    rfl
  rw [ht.synclist hscheduling] at hready
  obtain ⟨hover, hsync⟩ := (isTaskReady_first hready (started_first hs hin hstarts)).1 hwait
  refine ⟨hin, ?_, hover, hsync⟩
  rw [hpc]
  exact nofun

/-- In every run and at every first start of an entry that waits, the moment it waits for is not
after the pass if and only if its tag is not one in the future that is taken for an older one. -/
theorem firstStart_notBefore_iff (h : run Sched.step (init newid infos) as = some (tr, s)) :
    (∀ a p t, Sched.step s a = some (.started p, t) →
      (s.sd.infos p).info.has schedWait = true → (history p tr).starts = 0 →
      (NotBefore s.sd.timetaglist (s.sd.infos p) s.time ↔
        ¬ Early s.sd.timetaglist (s.sd.infos p) s.time)) ∧
    (∀ fuel c p t, Sched.step s (.schedule fuel c) = some (.scheduled p, t) →
      (t.sd.infos p).tinit = c.now) ∧
    ∀ a e p t, Sched.step s a = some (e, t) → p ∈ t.sd.entries → e ≠ .scheduled p →
      (t.sd.infos p).tinit = (s.sd.infos p).tinit := by
  have hs := entriesOk_run h
  have ht := timeOk_run h
  refine ⟨?_, ?_, ?_⟩
  · intro a p t hstep hwait hstarts
    obtain ⟨hin, hpass, hover, -⟩ := firstStart_waited hs ht hstep hwait hstarts
    exact notBefore_iff (hs.2 p hin).accepted hwait (ht.tnow hpass).1 hover
  · intro fuel c p t hstep
    cases stepped hstep with
    | scheduled hmalloc hcall =>
      obtain ⟨-, -, hinfos, -⟩ := hs.1.list.entries_schedule hcall
      rw [hinfos, Function.update_self]
      rfl
  · intro a e p t hstep hp hne
    obtain ⟨c, r, he, -⟩ | ⟨-, hentry⟩ := step_entry hs.1 hstep hp
    · exact absurd he hne
    · exact congrArg (fun x => x.2.2) hentry.static

/-! ### A tag in the past and one in the future -/

def waitTagTask : SchedulerTask :=
  { plainTask with flag := schedWait, waittype := schedWaitTag, waittag := ['a'] }

/-- The tag is set to a time, and a pass comes to the entry in epoch 0 of second 100. -/
def tagRun (tagtime : ℤ) : List SchedAction :=
  [.schedule 9 (callAt waitTagTask 0 0), .setTag ['a'] tagtime true, .beat (100 * oneSec),
    .finishedTags fun _ => true]

theorem pastTag_starts : (run Sched.step (init 0 blankInfos) (tagRun (99 * oneSec))).any (fun r =>
    (Sched.step r.2 (.ready 1 true)).any fun d => d.1 = .started 0 ∧
      (r.2.sd.infos 0).info.has schedWait = true ∧ (history 0 r.1).starts = 0 ∧
      findTag r.2.sd.timetaglist (r.2.sd.infos 0).info.waittag = some ⟨['a'], 99, 0⟩ ∧
      r.2.time.tnow = 1600) = true := by
  decide +kernel

theorem firstStart_notBefore_pastTag :
    ∃ tr s t, run Sched.step (init 0 blankInfos) (tagRun (99 * oneSec)) = some (tr, s) ∧
      Sched.step s (.ready 1 true) = some (.started 0, t) ∧
      NotBefore s.sd.timetaglist (s.sd.infos 0) s.time := by
  obtain ⟨⟨tr, s⟩, hrun, hany⟩ := (Option.any_eq_true _ _).mp pastTag_starts
  obtain ⟨⟨e, t⟩, hstep, hfacts⟩ := (Option.any_eq_true _ _).mp hany
  obtain ⟨rfl, hwait, hstarts, hfind, htnow⟩ := of_decide_eq_true hfacts
  refine ⟨tr, s, t, hrun, hstep, ?_⟩
  refine ((firstStart_notBefore_iff hrun).1 _ 0 t hstep hwait hstarts).mpr ?_
  rintro ⟨-, ltag, hltag, hfuture, -⟩
  rw [hfind] at hltag
  obtain rfl := Option.some.inj hltag
  rw [show s.time.tnow = 1600 from htnow] at hfuture
  exact absurd hfuture (by decide)

theorem futureTag_starts :
    (run Sched.step (init 0 blankInfos) (tagRun (100 * oneSec + 5 * epochNsec))).any (fun r =>
      (Sched.step r.2 (.ready 1 true)).any fun d => d.1 = .started 0 ∧
        (r.2.sd.infos 0).info.has schedWait = true ∧ (history 0 r.1).starts = 0 ∧
        (r.2.sd.infos 0).info.waittype ∈ tagWaits ∧
        findTag r.2.sd.timetaglist (r.2.sd.infos 0).info.waittag = some ⟨['a'], 100, 5⟩ ∧
        r.2.time.tnow = 1600) = true := by
  decide +kernel

/-- The entry is started five epochs before its tag. -/
theorem futureTag_not_notBefore :
    ¬ ∀ newid infos as tr s, run Sched.step (init newid infos) as = some (tr, s) →
      ∀ a p t, Sched.step s a = some (.started p, t) →
      (s.sd.infos p).info.has schedWait = true → (history p tr).starts = 0 →
      NotBefore s.sd.timetaglist (s.sd.infos p) s.time := by
  intro hall
  obtain ⟨⟨tr, s⟩, hrun, hany⟩ := (Option.any_eq_true _ _).mp futureTag_starts
  obtain ⟨⟨e, t⟩, hstep, hfacts⟩ := (Option.any_eq_true _ _).mp hany
  obtain ⟨rfl, hwait, hstarts, htype, hfind, htnow⟩ := of_decide_eq_true hfacts
  have hbefore := hall 0 blankInfos _ tr s hrun _ 0 t hstep hwait hstarts
  obtain ⟨ltag, hltag, hle, -⟩ := hbefore.tag htype
  rw [hfind] at hltag
  obtain rfl := Option.some.inj hltag
  rw [show s.time.tnow = 1600 from htnow] at hle
  exact absurd hle (by decide)

/-- In every run an entry with `SCHED_SYNC_IEPOCH` is first started in epoch 0 of a second that its
value divides. -/
theorem firstStart_inEpoch (h : run Sched.step (init newid infos) as = some (tr, s)) :
    (∀ a p t, Sched.step s a = some (.started p, t) →
      (s.sd.infos p).info.has schedWait = true → (history p tr).starts = 0 →
      (s.sd.infos p).info.synctype = schedSyncIepoch →
      s.time.epoch = 0 ∧ (s.sd.infos p).info.syncval ∣ s.time.tai) ∧
    (∀ indx p fuel r, s.pc = .ready indx → s.sd.tasklist indx = some p →
      (s.sd.infos p).info.has schedWait = true → (history p tr).starts = 0 →
      (s.sd.infos p).info.synctype = schedSyncEpoch →
      (s.sd.infos p).markForTermination = false → timedOut (s.sd.infos p) s.time = false →
      waitOver s.sd.timetaglist (s.sd.infos p) s.time = true →
      calcStartTime fuel (s.sd.infos p).info s.time = some (.ok r) →
      ((∀ tfirst, isTaskReady fuel s.sd.timetaglist (s.sd.infos p) s.time s.synclist =
          some (.ok (.ready tfirst)) → s.time.epoch = (s.sd.infos p).info.syncval) ↔
        s.time.epoch = (s.sd.infos p).info.syncval ∨
          ¬ Missed s.time (s.sd.infos p).info.syncval)) ∧
    (EveryEpoch as → run (restrict busy Sched.step) (init newid infos) as = some (tr, s) →
      ∀ a p t, Sched.step s a = some (.started p, t) →
      (s.sd.infos p).info.has schedWait = true → (history p tr).starts = 0 →
      (s.sd.infos p).info.synctype = schedSyncEpoch →
      s.time.epoch = (s.sd.infos p).info.syncval) := by
  have hs := entriesOk_run h
  have ht := timeOk_run h
  refine ⟨?_, ?_, ?_⟩
  · intro a p t hstep hwait hstarts htype
    obtain ⟨-, -, -, hsync⟩ := firstStart_waited hs ht hstep hwait hstarts
    unfold inSync at hsync
    rw [htype, if_neg (by decide), if_pos rfl] at hsync
    obtain ⟨-, hepoch, hdvd⟩ := of_decide_eq_true hsync
    exact ⟨hepoch, Int.dvd_of_tmod_eq_zero hdvd⟩
  · intro indx p fuel r hpc hcell hwait hstarts htype hmark htime hover hcalc
    have hin := (hs.1.cell hpc hcell).2
    have hscheduling : s.pc.scheduling = true := by
      rw [hpc]
      rfl
    have hpass : s.pc ≠ .sync := by
      rw [hpc]
      exact nofun
    have hval := (syncOk_accepted (hs.2 p hin).accepted).epoch hwait htype
    rw [isTaskReady_waited hmark htime (started_first hs hin hstarts) hwait hover,
      ht.synclist hscheduling, hcalc]
    by_cases hepoch : s.time.epoch = (s.sd.infos p).info.syncval
    · exact iff_of_true (fun _ _ => hepoch) (Or.inl hepoch)
    · have hlist : inSync (s.sd.infos p) s.time (synclist s.time) = true ↔
          Missed s.time (s.sd.infos p).info.syncval := by
        rw [← synclist_iff ht hpass hval hepoch]
        unfold inSync
        rw [if_pos htype]
        simp [hval]
      simp only [hepoch, false_or]
      by_cases hmissed : Missed s.time (s.sd.infos p).info.syncval
      · rw [if_pos (hlist.mpr hmissed)]
        refine iff_of_false ?_ (not_not.mpr hmissed)
        exact fun hnone => hnone r rfl
      · rw [if_neg fun hsync => hmissed (hlist.mp hsync)]
        exact iff_of_true nofun hmissed
  · intro hevery hbusy a p t hstep hwait hstarts htype
    obtain ⟨hin, hpass, -, hsync⟩ := firstStart_waited hs ht hstep hwait hstarts
    have hval := (syncOk_accepted (hs.2 p hin).accepted).epoch hwait htype
    unfold inSync at hsync
    rw [if_pos htype] at hsync
    by_contra hepoch
    exact not_missed hevery hbusy hpass
      ((synclist_iff ht hpass hval hepoch).mp (Bool.and_eq_true_iff.mp hsync).2)

/-! ### A busy list and an idle one -/

/-- A task that is synchronized with epoch 1. -/
def syncTask : SchedulerTask :=
  { plainTask with flag := schedWait, synctype := schedSyncEpoch, syncval := 1 }

/-- The task is in the list in epochs 0 and 1. -/
def busyRun : List SchedAction :=
  .schedule 9 (callAt syncTask 0 0) :: passTo 0 [.ready 1 true, .ready 1 true] ++ passEnd ++
    [.beat (100 * oneSec + epochNsec), .finishedTags fun _ => true]

theorem busyRun_starts : (run (restrict busy Sched.step) (init 0 blankInfos) busyRun).any (fun r =>
    (Sched.step r.2 (.ready 1 true)).any fun d => d.1 = .started 0 ∧
      (r.2.sd.infos 0).info.has schedWait = true ∧ (history 0 r.1).starts = 0 ∧
      (r.2.sd.infos 0).info.synctype = schedSyncEpoch ∧
      (r.2.sd.infos 0).info.syncval = 1) = true := by
  decide +kernel

theorem firstStart_inEpoch_busyRun :
    ∃ tr s t, run Sched.step (init 0 blankInfos) busyRun = some (tr, s) ∧
      Sched.step s (.ready 1 true) = some (.started 0, t) ∧ s.time.epoch = 1 := by
  obtain ⟨⟨tr, s⟩, hrun, hany⟩ := (Option.any_eq_true _ _).mp busyRun_starts
  obtain ⟨⟨e, t⟩, hstep, hfacts⟩ := (Option.any_eq_true _ _).mp hany
  obtain ⟨rfl, hwait, hstarts, htype, hval⟩ := of_decide_eq_true hfacts
  have hepochs : beatEpochs busyRun = [1600, 1601] := by decide +kernel
  have hevery : EveryEpoch busyRun := by
    unfold EveryEpoch
    rw [hepochs]
    decide
  have hepoch := (firstStart_inEpoch (run_of_restrict hrun)).2.2 hevery hrun _ 0 t hstep hwait
    hstarts htype
  exact ⟨tr, s, t, run_of_restrict hrun, hstep, hepoch.trans hval⟩

/-- After a pass in epoch 0 the list is empty in epochs 1 and 2; the task is in it in epoch 3. -/
def idleRun : List SchedAction :=
  plainRun ++ passEnd ++
    [.beat (100 * oneSec + epochNsec), .beat (100 * oneSec + 2 * epochNsec),
      .schedule 9 (callAt syncTask 0 0), .beat (100 * oneSec + 3 * epochNsec),
      .finishedTags fun _ => true]

theorem idleRun_starts : (run Sched.step (init 0 blankInfos) idleRun).any (fun r =>
    (Sched.step r.2 (.ready 1 true)).any fun d => d.1 = .started 0 ∧
      (r.2.sd.infos 0).info.has schedWait = true ∧ (history 0 r.1).starts = 0 ∧
      (r.2.sd.infos 0).info.synctype = schedSyncEpoch ∧
      (r.2.sd.infos 0).info.syncval = 1 ∧ r.2.time.epoch = 3) = true := by
  decide +kernel

/-- The task for epoch 1 is started in epoch 3. -/
theorem idleRun_not_inEpoch :
    ¬ ∀ newid infos as tr s, run Sched.step (init newid infos) as = some (tr, s) →
      EveryEpoch as → ∀ a p t, Sched.step s a = some (.started p, t) →
      (s.sd.infos p).info.has schedWait = true → (history p tr).starts = 0 →
      (s.sd.infos p).info.synctype = schedSyncEpoch →
      s.time.epoch = (s.sd.infos p).info.syncval := by
  intro hall
  obtain ⟨⟨tr, s⟩, hrun, hany⟩ := (Option.any_eq_true _ _).mp idleRun_starts
  obtain ⟨⟨e, t⟩, hstep, hfacts⟩ := (Option.any_eq_true _ _).mp hany
  obtain ⟨rfl, hwait, hstarts, htype, hval, hepoch⟩ := of_decide_eq_true hfacts
  have hepochs : beatEpochs idleRun = [1600, 1601, 1602, 1603] := by decide +kernel
  have hevery : EveryEpoch idleRun := by
    unfold EveryEpoch
    rw [hepochs]
    decide
  have heq := hall 0 blankInfos idleRun tr s hrun hevery _ 0 t hstep hwait hstarts htype
  rw [show s.time.epoch = 3 from hepoch,
    show (s.sd.infos 0).info.syncval = 1 from hval] at heq
  exact absurd heq (by decide)

end First

end Sync

end AdvLigoRts.Gds.Sched
