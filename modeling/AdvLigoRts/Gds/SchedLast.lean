import AdvLigoRts.Gds.SchedRetire

/-!
# The tag for the last end

The flag that the series of an entry is over is set when one of its instances ends. An entry with
threads may have others that still run.
-/

namespace AdvLigoRts.Gds.Sched

open PvLib

/-- When threads are collected and one of them ends the series, all threads have ended. -/
def LastOk (info : SchedInfo) : Prop :=
  tagsLast info.info → SeriesEnds info →
    ∀ i, (info.tasks i).valid = true → (info.tasks i).terminated = true

instance (info : SchedInfo) : Decidable (LastOk info) := inferInstanceAs (Decidable (_ → _))

/-- No heartbeat finds the end of a series while other threads of the entry run. -/
def lastOk (s : SchedProcess) : SchedAction → Prop
  | .beat _ => ∀ p ∈ s.sd.entries, LastOk (s.sd.infos p)
  | _ => True

instance (s : SchedProcess) (a : SchedAction) : Decidable (lastOk s a) :=
  match a with
  | .beat _ => inferInstanceAs (Decidable (∀ p ∈ s.sd.entries, LastOk (s.sd.infos p)))
  | .finishedTags _ | .ready .. | .returns _ | .scheduledTags _ | .retire _ | .retireTags
  | .finish .. | .schedule .. | .remove .. | .setTag .. => .isTrue trivial

/-- When the series is over, the entry has no thread. -/
def Quiet (info : SchedInfo) : Prop :=
  tagsLast info.info → info.lastFinished ≠ 0 → ∀ i, (info.tasks i).valid = false

section Entry

variable {p : ℕ} {info info' : SchedInfo} {called called' : Bool} {e : SchedEvent} {h : History}

theorem Quiet.same (hq : Quiet info) (hinfo : info'.info = info.info)
    (hlast : info'.lastFinished ≠ 0 → info.lastFinished ≠ 0)
    (hvalid : ∀ i, (info.tasks i).valid = false → (info'.tasks i).valid = false) :
    Quiet info' := by
  unfold Quiet
  rw [hinfo]
  exact fun htag hne i => hvalid i (hq htag (hlast hne) i)

/-- After a heartbeat the entry is quiet just when no thread was running. -/
theorem quiet_collect_iff (hq : Quiet info) : Quiet (cleanupEntry info) ↔ LastOk info := by
  have hinfo : (cleanupEntry info).info = info.info :=
    congrArg Prod.fst (static_cleanupEntry info)
  unfold Quiet LastOk
  rw [hinfo, cleanupEntry_last]
  simp only [cleanupEntry_valid]
  constructor
  · intro hquiet htag hseries i hvalid
    rw [if_pos hseries] at hquiet
    have hnone := hquiet htag Nat.one_ne_zero i
    rw [hvalid, Bool.true_and, Bool.not_eq_false'] at hnone
    exact hnone
  · intro hok htag hne i
    by_cases hseries : SeriesEnds info
    · cases hvalid : (info.tasks i).valid
      · rfl
      · rw [hok htag hseries i hvalid]
        rfl
    · rw [if_neg hseries] at hne
      rw [hq htag hne i]
      rfl

theorem Quiet.start (hf : Flags info called h) (hready : Startable info)
    (hlast : info'.lastFinished = info.lastFinished) : Quiet info' := by
  intro _ hne
  rw [hlast] at hne
  have hmark := (hf.ended hne).1
  rw [hready.1] at hmark
  cases hmark

theorem Quiet.step (hq : Quiet info) (ho : EntryOk info called h)
    (hstep : EntryStep p info called e info' called')
    (hlast : ∀ ps, e = .finished ps → LastOk info) : Quiet info' := by
  cases hstep with
  | other he => exact hq
  | collect hps => exact (quiet_collect_iff hq).mpr (hlast _ rfl)
  | tags finished hps =>
    have hmark : (markTags finished info).tasks = info.tasks ∧
        ((markTags finished info).lastFinished ≠ 0 → info.lastFinished ≠ 0) := by
      unfold markTags
      split_ifs
      · exact ⟨rfl, id⟩
      · exact ⟨rfl, fun hne hzero => hne (seen_eq_zero.mpr hzero)⟩
      · exact ⟨rfl, id⟩
    apply hq.same
    · exact congrArg Prod.fst (static_markTags finished info)
    · exact hmark.2
    · rw [hmark.1]
      exact fun _ => id
  | call tfirst hready hsync | spawn tfirst i hready hasync hfree =>
    exact .start ho.flags hready rfl
  | unspawned i hasync hfree =>
    apply hq.same
    · rfl
    · exact id
    · intro j hj
      show (Function.update info.tasks i _ j).valid = false
      by_cases hji : j = i
      · rw [hji, Function.update_self]
      · rw [Function.update_of_ne hji]
        exact hj
  | returns result =>
    -- a synchronous entry has no threads
    intro _ _ i
    unfold returnInfo
    rw [updateEndOfTask_eq]
    exact ho.running.slots (ho.running.sync rfl) i
  | timeout => exact hq
  | remove hp terminate cancelled =>
    apply hq.same
    · rfl
    · exact id
    · intro i hi
      unfold markRemoved
      dsimp only
      split
      · exact hi
      · exact hi
  | finish i result hrunning =>
    apply hq.same
    · rfl
    · exact id
    · intro j hj
      show (Function.update info.tasks i _ j).valid = false
      by_cases hji : j = i
      · rw [hji, Function.update_self]
        exact hji ▸ hj
      · rw [Function.update_of_ne hji]
        exact hj

theorem EntryStep.mark (hstep : EntryStep p info called e info' called')
    (hmark : info.markForTermination = true) : info'.markForTermination = true := by
  cases hstep with
  | collect hps => exact (cleanupEntry_mark info).mpr (Or.inl hmark)
  | tags finished hps =>
    unfold markTags
    split_ifs
    all_goals exact hmark
  | returns result =>
    unfold returnInfo
    rw [updateEndOfTask_eq]
    show (info.markForTermination || _) = true
    rw [hmark, Bool.true_or]
  | timeout => rfl
  | remove hp terminate cancelled => rfl
  | _ => exact hmark

end Entry

section Runs

variable {s t u : SchedProcess} {a : SchedAction} {e : SchedEvent} {p : ℕ}
variable {as bs : List SchedAction} {tr tr' : List SchedEvent} {newid : ℕ} {infos : ℕ → SchedInfo}

theorem quiet_run (h : run (restrict lastOk step) (init newid infos) as = some (tr, s)) :
    EntriesOk tr s ∧ ∀ p ∈ s.sd.entries, Quiet (s.sd.infos p) := by
  refine entries_run (fun _ info => Quiet info) (fun _ _ _ _ _ hne => absurd rfl hne) ?_ h
  intro s a e t p h hlast hstep hin ho hentry hq
  refine hq.step ho hentry ?_
  rintro ps rfl
  obtain ⟨now, rfl⟩ := step_finished hstep
  exact hlast p hin

theorem marked_run (hs : ProcOk s)
    (hmark : p ∈ s.sd.entries → (s.sd.infos p).markForTermination = true)
    (h : run step s bs = some (tr', u)) (hnew : .scheduled p ∉ tr') : .started p ∉ tr' := by
  suffices hgen : ProcOk u ∧ (.scheduled p ∉ tr' →
      (p ∈ u.sd.entries → (u.sd.infos p).markForTermination = true) ∧ .started p ∉ tr') from
    (hgen.2 hnew).2
  clear hnew
  refine run_induction (fun tr' u => ProcOk u ∧ (.scheduled p ∉ tr' →
    (p ∈ u.sd.entries → (u.sd.infos p).markForTermination = true) ∧ .started p ∉ tr')) ?_
    ⟨hs, fun _ => ⟨hmark, List.not_mem_nil⟩⟩ h
  intro tr s a _ e t hs hstep
  refine ⟨hs.1.step hstep, ?_⟩
  intro hnew
  rw [List.mem_append, List.mem_singleton, not_or] at hnew
  obtain ⟨hmark, hquiet⟩ := hs.2 hnew.1
  constructor
  · intro hin
    obtain ⟨c, r, rfl, -⟩ | ⟨hin, hentry⟩ := step_entry hs.1 hstep hin
    · exact absurd rfl hnew.2
    · exact hentry.mark (hmark hin)
  · rw [List.mem_append, List.mem_singleton, not_or]
    refine ⟨hquiet, ?_⟩
    rintro rfl
    obtain ⟨indx, fuel, spawned, tfirst, -, hpc, hcell, hready, -⟩ := step_started hstep
    have hunmarked := (isTaskReady_startable hready).1
    rw [hmark (hs.1.cell hpc hcell).2] at hunmarked
    cases hunmarked

/-- What `evaluateTags` finds at the end of a series: the entry is marked. -/
theorem tagged_last (hs : EntriesOk tr s) {accept : List Char → Bool} {ps : List ℕ}
    (hstep : step s (.finishedTags accept) = some (.tags ps, t)) (hp : p ∈ ps)
    (hlast : tagsLast (s.sd.infos p).info) :
    p ∈ s.sd.entries ∧ s.pc.calls p = false ∧ (s.sd.infos p).lastFinished ≠ 0 ∧
      (s.sd.infos p).markForTermination = true := by
  cases stepped hstep with
  | finishedTags hpc =>
    obtain ⟨hin, hdue⟩ := List.mem_filter.mp hp
    have hone : (s.sd.infos p).lastFinished = 1 := by
      simpa [tagDue, hlast.1, hlast.2, schedTagLast, schedTagStart, schedTagEnd] using hdue
    have hne : (s.sd.infos p).lastFinished ≠ 0 := by
      rw [hone]
      exact Nat.one_ne_zero
    rw [hpc]
    exact ⟨hin, rfl, hne, ((hs.2 p hin).flags.ended hne).1⟩

/-- In every run in which no heartbeat finds the end of a series while other threads of the entry
run, the tag for the last end is set when nothing of the entry runs, all that was started has ended,
and nothing of it is started again. -/
theorem lastTag_done (h : run (restrict lastOk step) (init newid infos) as = some (tr, s)) :
    (∀ accept ps t, step s (.finishedTags accept) = some (.tags ps, t) → ∀ p ∈ ps,
      tagsLast (s.sd.infos p).info →
        (∀ i, ((s.sd.infos p).tasks i).valid = false) ∧ s.pc.calls p = false ∧
        (history p tr).ends = (history p tr).starts ∧
        ∀ bs tr' u, run step t bs = some (tr', u) → .scheduled p ∉ tr' → .started p ∉ tr') ∧
    ∀ now ps t, step s (.beat now) = some (.finished ps, t) →
      ((∀ p ∈ t.sd.entries, Quiet (t.sd.infos p)) ↔ lastOk s (.beat now)) := by
  obtain ⟨hs, hquiet⟩ := quiet_run h
  constructor
  · intro accept ps t hstep p hp hlast
    obtain ⟨hin, hcalls, hover, hmark⟩ := tagged_last hs hstep hp hlast
    have hnone := hquiet p hin hlast hover
    have hcount := (hs.2 p hin).running.count
    have hbalance := (hs.2 p hin).running.balance
    rw [hcalls, countTasks_eq_zero.mpr hnone] at hcount
    simp only [Bool.false_eq_true, if_false] at hcount
    refine ⟨hnone, hcalls, by omega, ?_⟩
    intro bs tr' u hrest hnew
    refine marked_run (hs.1.step hstep) ?_ hrest hnew
    intro hin'
    obtain ⟨c, r, he, -⟩ | ⟨-, hentry⟩ := step_entry hs.1 hstep hin'
    · cases he
    · exact hentry.mark hmark
  · intro now ps t hstep
    have hbeat : t.sd = cleanupFinishedTasks s.sd := by
      cases stepped hstep with
      | beat hpc h =>
        obtain ⟨time, he, -⟩ | ⟨-, -, -, rfl⟩ := beatStep_cases h
        · cases he
        · rfl
    have hentries : t.sd.entries = s.sd.entries := by
      rw [hbeat]
      exact (sameList_foldl (fun sd p => sameList_modify (static_cleanupEntry _)) _ _).entries
    have hinfos : ∀ p ∈ s.sd.entries, t.sd.infos p = cleanupEntry (s.sd.infos p) := by
      intro p hp
      rw [hbeat]
      exact infos_cleanupFinishedTasks hs.1.list.nodup hp
    rw [hentries]
    show _ ↔ ∀ p ∈ s.sd.entries, LastOk (s.sd.infos p)
    apply forall₂_congr
    intro p hp
    rw [hinfos p hp]
    exact quiet_collect_iff (hquiet p hp)

/-! ## Two runs -/

/-- A task with threads that is called twice, with a tag for the last end. -/
def twiceTask : SchedulerTask :=
  { plainTask with
    flag := schedRepeat ||| schedTimetag ||| schedAsync
    tagtype := schedTagLast
    timetag := ['a']
    repeattype := schedRepeatN
    repeatval := 2
    repeatrate := 1 }

/-- The two threads end between the same two passes. -/
def quietRun : List SchedAction :=
  .schedule 9 (callAt twiceTask 0 0) ::
    passTo 0 [.ready 1 true, .ready 1 true] ++ passEnd ++
    passTo 1 [.ready 1 true, .ready 1 true] ++ passEnd ++
    [.finish 0 1 0, .finish 0 0 0, .beat (100 * oneSec + 2 * epochNsec)]

theorem quietRun_tags : (run (restrict lastOk step) (init 0 blankInfos) quietRun).any (fun r =>
    (step r.2 (.finishedTags fun _ => true)).any fun d => d.1 = .tags [0] ∧
      tagsLast (r.2.sd.infos 0).info) = true := by
  decide +kernel

theorem lastTag_done_quietRun :
    ∃ tr s t, run (restrict lastOk step) (init 0 blankInfos) quietRun = some (tr, s) ∧
      step s (.finishedTags fun _ => true) = some (.tags [0], t) ∧
      ∀ i, ((s.sd.infos 0).tasks i).valid = false := by
  obtain ⟨⟨tr, s⟩, hrun, hany⟩ := (Option.any_eq_true _ _).mp quietRun_tags
  obtain ⟨⟨e, t⟩, hstep, hfacts⟩ := (Option.any_eq_true _ _).mp hany
  obtain ⟨rfl, hlast⟩ := of_decide_eq_true hfacts
  have hdone := (lastTag_done hrun).1 _ _ _ hstep 0 (List.mem_singleton_self 0) hlast
  exact ⟨tr, s, t, hrun, hstep, hdone.1⟩

/-- The first thread ends, the second one still runs. -/
def overlapRun : List SchedAction :=
  .schedule 9 (callAt twiceTask 0 0) ::
    passTo 0 [.ready 1 true, .ready 1 true] ++ passEnd ++
    passTo 1 [.ready 1 true, .ready 1 true] ++ passEnd ++
    [.finish 0 0 0, .beat (100 * oneSec + 2 * epochNsec)]

theorem overlapRun_tags : (run step (init 0 blankInfos) overlapRun).any (fun r =>
    (step r.2 (.finishedTags fun _ => true)).any fun d => d.1 = .tags [0] ∧
      tagsLast (r.2.sd.infos 0).info ∧
      ((r.2.sd.infos 0).tasks 1).valid = true ∧
      ((r.2.sd.infos 0).tasks 1).terminated = false) = true := by
  decide +kernel

/-- The tag for the last end is set while the second thread runs. -/
theorem overlapRun_not_done :
    ¬ ∀ newid infos as tr s, run step (init newid infos) as = some (tr, s) →
      ∀ accept ps t, step s (.finishedTags accept) = some (.tags ps, t) → ∀ p ∈ ps,
        tagsLast (s.sd.infos p).info →
        ∀ i, ((s.sd.infos p).tasks i).valid = true →
          ((s.sd.infos p).tasks i).terminated = true := by
  intro hall
  obtain ⟨⟨tr, s⟩, hrun, hany⟩ := (Option.any_eq_true _ _).mp overlapRun_tags
  obtain ⟨⟨e, t⟩, hstep, hfacts⟩ := (Option.any_eq_true _ _).mp hany
  obtain ⟨rfl, hlast, hvalid, hruns⟩ := of_decide_eq_true hfacts
  have hended := hall 0 blankInfos overlapRun tr s hrun _ _ _ hstep 0
    (List.mem_singleton_self 0) hlast 1 hvalid
  rw [show ((s.sd.infos 0).tasks 1).terminated = false from hruns] at hended
  cases hended

end Runs

end AdvLigoRts.Gds.Sched
