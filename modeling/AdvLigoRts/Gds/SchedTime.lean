import AdvLigoRts.Gds.SchedStartTime

/-!
# The time of a pass

What the heartbeat, the end of a pass and the other steps do to the time and the synchronization
table, and what holds of them while entries are started.
-/

namespace AdvLigoRts.Gds.Sched

open PvLib

/-! ## Heartbeats -/

/-- The epoch of a heartbeat. -/
def beatTnow (now : ℤ) : ℤ := (SchedTime.beat ⟨0, 0, 0, 0, 0, 0, 0⟩ now).tnow

/-- The second and the epoch of a heartbeat, which is below 16 unless the time is too early. -/
theorem beat_cases (time : SchedTime) (now : ℤ) : ∃ tai epoch,
    time.beat now = { time with
      now := now, tai := tai, epoch := epoch, tnow := tai * numberOfEpochs + epoch } ∧
    beatTnow now = tai * numberOfEpochs + epoch ∧
    (minTime * numberOfEpochs ≤ beatTnow now → 0 ≤ epoch ∧ epoch < numberOfEpochs) := by
  have hbounds : 0 ≤ now → 0 ≤ (now.tmod oneSec + epochNsec.tdiv 10).tdiv epochNsec ∧
      (now.tmod oneSec + epochNsec.tdiv 10).tdiv epochNsec ≤ numberOfEpochs := by
    intro hnow
    have hlo := Int.tmod_nonneg oneSec hnow
    have hhi := Int.tmod_lt_of_pos now (show 0 < oneSec by decide)
    have htenth : epochNsec.tdiv 10 = 6250000 := by decide
    rw [htenth, Int.tdiv_eq_ediv_of_nonneg (by omega)]
    unfold epochNsec numberOfEpochs oneSec at *
    omega
  have hearly : ¬ 0 ≤ now → now.tdiv oneSec ≤ 0 ∧
      (now.tmod oneSec + epochNsec.tdiv 10).tdiv epochNsec ≤ 0 := by
    intro hnow
    have hneg : now ≤ 0 := by omega
    refine ⟨tdiv_nonpos hneg (by decide), ?_⟩
    have hr := tmod_nonpos hneg oneSec
    have htenth : epochNsec.tdiv 10 = 6250000 := by decide
    rw [htenth]
    by_cases hpos : 0 ≤ now.tmod oneSec + 6250000
    · rw [Int.tdiv_eq_ediv_of_nonneg hpos]
      unfold epochNsec
      omega
    · exact tdiv_nonpos (by omega) (by decide)
  unfold beatTnow SchedTime.beat
  dsimp only
  split
  · next hhigh =>
    refine ⟨_, _, rfl, rfl, ?_⟩
    intro _
    by_cases hnow : 0 ≤ now
    · have hle := (hbounds hnow).2
      exact ⟨Int.sub_nonneg_of_le hhigh, by unfold numberOfEpochs at *; omega⟩
    · have hle := (hearly hnow).2
      unfold numberOfEpochs at *
      omega
  · next hlow =>
    refine ⟨_, _, rfl, rfl, ?_⟩
    intro hvalid
    by_cases hnow : 0 ≤ now
    · exact ⟨(hbounds hnow).1, Int.not_le.mp hlow⟩
    · obtain ⟨hq, hle⟩ := hearly hnow
      unfold numberOfEpochs minTime at *
      omega

/-! ## Steps -/

/-- The process starts entries. -/
def Pc.scheduling : Pc → Bool
  | .ready _ | .call _ _ => true
  | _ => false

section Steps

variable {s t : SchedProcess} {a : SchedAction} {e : SchedEvent}

/-- The steps that leave the time and the synchronization table alone. -/
def SameTime (s t : SchedProcess) : Prop :=
  t.time = s.time ∧ t.synclist = s.synclist ∧ (t.pc = .sync ↔ s.pc = .sync) ∧
    (t.pc.scheduling = true → s.pc.scheduling = true)

theorem sameTime_of_pc {sd : Scheduler} {pc : Pc} (hsync : pc ≠ .sync) (hfrom : s.pc ≠ .sync)
    (hready : pc.scheduling = true → s.pc.scheduling = true) :
    SameTime s { s with sd := sd, pc := pc } :=
  ⟨rfl, rfl, iff_of_false hsync hfrom, hready⟩

theorem sameTime_sd {sd : Scheduler} : SameTime s { s with sd := sd } :=
  ⟨rfl, rfl, Iff.rfl, id⟩

theorem sameTime_ready {indx fuel : ℕ} {spawned : Bool} (hpc : s.pc = .ready indx)
    (h : readyStep s indx fuel spawned = some (e, t)) : SameTime s t := by
  have hfrom : s.pc ≠ .sync := by
    rw [hpc]
    exact nofun
  have hready : s.pc.scheduling = true := by
    rw [hpc]
    rfl
  obtain ⟨rfl, rfl⟩ | ⟨p, -, ⟨-, rfl, rfl⟩ | ⟨-, rfl, rfl⟩ | ⟨tfirst, -, hstart⟩⟩ :=
    readyStep_cases h
  · exact sameTime_of_pc nofun hfrom nofun
  · exact sameTime_of_pc nofun hfrom fun _ => hready
  · exact sameTime_of_pc nofun hfrom fun _ => hready
  · obtain ⟨-, rfl, rfl⟩ | ⟨rfl, rfl⟩ | ⟨i, -, -, ⟨rfl, rfl⟩ | ⟨rfl, rfl⟩⟩ :=
      startEntry_cases hstart
    all_goals exact sameTime_of_pc nofun hfrom fun _ => hready

/-- A heartbeat leaves the time alone or sets it, and a pass follows or not. -/
theorem step_beat {now : ℤ} (h : step s (.beat now) = some (e, t)) :
    s.pc = .sync ∧
    ((t.pc = .sync ∧ t.sd = s.sd ∧ (t.time = s.time ∧ s.sd.tasklist 0 = none ∨
        t.time = s.time.beat now ∧ beatTnow now < minTime * numberOfEpochs)) ∨
      (t.pc = .finishedTags ∧ t.time = s.time.beat now ∧ s.sd.tasklist 0 ≠ none ∧
        minTime * numberOfEpochs ≤ beatTnow now)) := by
  cases stepped h with
  | beat hpc h =>
    refine ⟨hpc, ?_⟩
    obtain ⟨tai, epoch, hbeat, htnow, -⟩ := beat_cases s.time now
    obtain ⟨time, -, rfl, ⟨rfl, hempty⟩ | ⟨rfl, hearly⟩⟩ | ⟨hentry, hvalid, -, rfl⟩ :=
      beatStep_cases h
    · exact Or.inl ⟨hpc, rfl, Or.inl ⟨rfl, hempty⟩⟩
    · rw [hbeat] at hearly
      exact Or.inl ⟨hpc, rfl, Or.inr ⟨rfl, htnow ▸ hearly⟩⟩
    · rw [hbeat] at hvalid
      exact Or.inr ⟨rfl, rfl, hentry, htnow ▸ hvalid⟩

/-- What the other steps do to the time: the table is computed, the pass is over, or nothing. -/
theorem step_time (h : step s a = some (e, t)) (ha : ∀ now, a ≠ .beat now) :
    (s.pc = .finishedTags ∧ t.pc = .ready 0 ∧ t.time = s.time ∧ t.synclist = synclist s.time) ∨
    (s.pc = .retireTags ∧ t.pc = .sync ∧ t.time = s.time.close) ∨ SameTime s t := by
  cases stepped h with
  | beat => exact absurd rfl (ha _)
  | finishedTags hpc => exact Or.inl ⟨hpc, rfl, rfl, rfl⟩
  | ready hpc h => exact Or.inr (Or.inr (sameTime_ready hpc h))
  | returns hpc =>
    refine Or.inr (Or.inr (sameTime_of_pc nofun ?_ fun _ => ?_))
    · rw [hpc]
      exact nofun
    · rw [hpc]
      rfl
  | scheduledTags hpc | retire hpc =>
    refine Or.inr (Or.inr (sameTime_of_pc nofun ?_ nofun))
    rw [hpc]
    exact nofun
  | retireTags hpc => exact Or.inr (Or.inl ⟨hpc, rfl, rfl⟩)
  | _ => exact Or.inr (Or.inr sameTime_sd)

/-! ## What holds in a pass -/

/-- The time is split into seconds and epochs, that of the last pass too, if there was one, and
the table is that of the time when entries are started. -/
structure TimeOk (s : SchedProcess) : Prop where
  tnow : s.pc ≠ .sync → s.time.tnow = s.time.tai * numberOfEpochs + s.time.epoch ∧
    0 ≤ s.time.epoch ∧ s.time.epoch < numberOfEpochs ∧ minTime * numberOfEpochs ≤ s.time.tnow
  told : s.time.oldepoch ≠ -1 → s.time.told = s.time.oldtai * numberOfEpochs + s.time.oldepoch ∧
    0 ≤ s.time.oldepoch ∧ s.time.oldepoch < numberOfEpochs
  synclist : s.pc.scheduling = true → s.synclist = synclist s.time

theorem TimeOk.beat (hs : TimeOk s) {now : ℤ} (h : Sched.step s (.beat now) = some (e, t)) :
    TimeOk t := by
  obtain ⟨tai, epoch, hbeat, htnow, hepoch⟩ := beat_cases s.time now
  obtain ⟨hpc, ⟨hpc', -, htime⟩ | ⟨hpc', htime, -, hvalid⟩⟩ := step_beat h
  · constructor
    · exact fun hne => absurd hpc' hne
    · obtain ⟨htime, -⟩ | ⟨htime, -⟩ := htime
      · rw [htime]
        exact hs.told
      · rw [htime, hbeat]
        exact hs.told
    · rw [hpc']
      exact nofun
  · rw [hbeat] at htime
    constructor
    · rw [htime]
      intro _
      obtain ⟨hlo, hhi⟩ := hepoch hvalid
      exact ⟨rfl, hlo, hhi, htnow ▸ hvalid⟩
    · rw [htime]
      exact hs.told
    · rw [hpc']
      exact nofun

theorem TimeOk.step (hs : TimeOk s) (h : Sched.step s a = some (e, t)) : TimeOk t := by
  by_cases hbeat : ∃ now, a = .beat now
  · obtain ⟨now, rfl⟩ := hbeat
    exact hs.beat h
  · obtain ⟨hpc, hpc', htime, hsync⟩ | ⟨hpc, hpc', htime⟩ | ⟨htime, hsync, hpc, hready⟩ :=
      step_time h fun now ha => hbeat ⟨now, ha⟩
    · have hin := hs.tnow (by rw [hpc]; exact nofun)
      constructor
      · rw [htime]
        exact fun _ => hin
      · rw [htime]
        exact hs.told
      · rw [htime]
        exact fun _ => hsync
    · obtain ⟨htnow, hlo, hhi, -⟩ := hs.tnow (by rw [hpc]; exact nofun)
      constructor
      · exact fun hne => absurd hpc' hne
      · rw [htime]
        exact fun _ => ⟨htnow, hlo, hhi⟩
      · rw [hpc']
        exact nofun
    · constructor
      · rw [htime]
        exact fun hne => hs.tnow fun hfrom => hne (hpc.mpr hfrom)
      · rw [htime]
        exact hs.told
      · rw [htime, hsync]
        exact fun hin => hs.synclist (hready hin)

theorem timeOk_init (newid : ℕ) (infos : ℕ → SchedInfo) : TimeOk (init newid infos) where
  tnow := fun hne => absurd rfl hne
  told := fun hne => absurd rfl hne
  synclist := nofun

theorem timeOk_run {newid : ℕ} {infos : ℕ → SchedInfo} {as : List SchedAction}
    {tr : List SchedEvent} (h : run Sched.step (init newid infos) as = some (tr, s)) : TimeOk s :=
  run_invariant TimeOk (fun _ _ _ _ _ hs hstep => hs.step hstep) (timeOk_init newid infos) h

end Steps

end AdvLigoRts.Gds.Sched
