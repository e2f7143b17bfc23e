import AdvLigoRts.Gds.SchedCounts

/-!
# Run counts and retirement

An entry is deleted when its flags say that its tags have been seen to (`Tagged`). What has been
started of it has ended by then, as often as it had to be, and its tag is set.
-/

namespace AdvLigoRts.Gds.Sched

open PvLib

section Steps

variable {p : ℕ} {info info' : SchedInfo} {called called' : Bool} {e : SchedEvent} {h : History}

/-! ## Tags -/

/-- A tag that `evaluateTags` has seen to was set after the first start, after the first end, or
behind the last start. -/
structure Tagged (info : SchedInfo) (h : History) : Prop where
  start : info.info.has schedTimetag = true → info.info.tagtype = schedTagStart →
    info.firstScheduled = 2 → ∃ x ∈ h.tagged, x.1 ≠ 0
  finish : info.info.has schedTimetag = true → info.info.tagtype = schedTagEnd →
    info.firstFinished = 2 → ∃ x ∈ h.tagged, x.2 ≠ 0
  last : info.info.has schedTimetag = true → info.info.tagtype = schedTagLast →
    info.lastFinished = 2 → ∃ x ∈ h.tagged, x.1 = h.starts ∧ x.2 ≠ 0

/-- No flag is seen to. -/
theorem Tagged.same (ht : Tagged info h) {h' : History} (hinfo : info'.info = info.info)
    (hscheduled : info'.firstScheduled = 2 → info.firstScheduled = 2)
    (hfinished : info'.firstFinished = 2 → info.firstFinished = 2)
    (hlast : info'.lastFinished = 2 → info.lastFinished = 2 ∧ h'.starts = h.starts)
    (htagged : h'.tagged = h.tagged) : Tagged info' h' := by
  constructor
  · rw [hinfo, htagged]
    exact fun htag htype hseen => ht.start htag htype (hscheduled hseen)
  · rw [hinfo, htagged]
    exact fun htag htype hseen => ht.finish htag htype (hfinished hseen)
  · rw [hinfo, htagged]
    intro htag htype hseen
    obtain ⟨hold, hstarts⟩ := hlast hseen
    rw [hstarts]
    exact ht.last htag htype hold

/-- What `evaluateTags` has marked it has seen before, or it sets the tag now. -/
theorem seen_cases {flag : ℕ} (h : seen flag = 2) : flag = 2 ∨ flag = 1 := by
  unfold seen at h
  split at h
  · exact Or.inr ‹_›
  · exact Or.inl h

/-- As `seen_cases`, of the end of the series, which only the finished tags look at. -/
theorem lastFinished_markTags {finished : Bool} (htag : info.info.has schedTimetag = true)
    (hseen : (markTags finished info).lastFinished = 2) :
    info.lastFinished = 2 ∨ finished = true ∧ info.lastFinished = 1 := by
  unfold markTags at hseen
  rw [htag, Bool.not_true, if_neg Bool.false_ne_true] at hseen
  cases finished with
  | true => exact (seen_cases hseen).imp_right fun hone => ⟨rfl, hone⟩
  | false => exact Or.inl hseen

theorem Tagged.tags (ht : Tagged info h) (hf : Flags info false h) (finished : Bool)
    {ps : List ℕ} (hps : p ∈ ps ↔ tagDue finished info = true) :
    Tagged (markTags finished info) (h.after p (.tags ps)) := by
  have hstarts : (h.after p (.tags ps)).starts = h.starts := by
    show (if _ then _ else h).starts = _
    split
    · rfl
    · rfl
  have hold : ∀ x ∈ h.tagged, x ∈ (h.after p (.tags ps)).tagged := by
    intro x hx
    show x ∈ (if _ then _ else h).tagged
    split
    · exact List.mem_append_left _ hx
    · exact hx
  -- a flag that is 1 is that of the tag's type, so that the tag is set
  have hdue (hdue : tagDue finished info = true) :
      (h.starts, h.ends) ∈ (h.after p (.tags ps)).tagged := by
    show _ ∈ (if _ then _ else h).tagged
    rw [if_pos (hps.mpr hdue)]
    exact List.mem_append_right _ (List.mem_singleton_self _)
  have hinfo : (markTags finished info).info = info.info :=
    congrArg Prod.fst (static_markTags finished info)
  have hscheduled (htag : info.info.has schedTimetag = true)
      (hseen : (markTags finished info).firstScheduled = 2) :
      info.firstScheduled = 2 ∨ finished = false ∧ info.firstScheduled = 1 := by
    unfold markTags at hseen
    rw [htag, Bool.not_true, if_neg Bool.false_ne_true] at hseen
    cases finished with
    | true => exact Or.inl hseen
    | false => exact (seen_cases hseen).imp_right fun hone => ⟨rfl, hone⟩
  have hfinished (htag : info.info.has schedTimetag = true)
      (hseen : (markTags finished info).firstFinished = 2) :
      info.firstFinished = 2 ∨ finished = true ∧ info.firstFinished = 1 := by
    unfold markTags at hseen
    rw [htag, Bool.not_true, if_neg Bool.false_ne_true] at hseen
    cases finished with
    | true => exact (seen_cases hseen).imp_right fun hone => ⟨rfl, hone⟩
    | false => exact Or.inl hseen
  constructor
  · rw [hinfo]
    intro htag htype hseen
    obtain htwo | ⟨rfl, hone⟩ := hscheduled htag hseen
    · obtain ⟨x, hx, hne⟩ := ht.start htag htype htwo
      exact ⟨x, hold x hx, hne⟩
    · refine ⟨_, hdue (by simp [tagDue, htag, htype, hone]), ?_⟩
      have hzero := hf.scheduled.2
      dsimp only
      omega
  · rw [hinfo]
    intro htag htype hseen
    obtain htwo | ⟨rfl, hone⟩ := hfinished htag hseen
    · obtain ⟨x, hx, hne⟩ := ht.finish htag htype htwo
      exact ⟨x, hold x hx, hne⟩
    · refine ⟨_, hdue (by simp [tagDue, htag, htype, hone]), ?_⟩
      have hzero := hf.finished.2
      dsimp only
      omega
  · rw [hinfo, hstarts]
    intro htag htype hseen
    obtain htwo | ⟨rfl, hone⟩ := lastFinished_markTags htag hseen
    · obtain ⟨x, hx, hne⟩ := ht.last htag htype htwo
      exact ⟨x, hold x hx, hne⟩
    · refine ⟨_, hdue (by simp [tagDue, htag, htype, hone]), rfl, ?_⟩
      exact (hf.ended (by omega)).2.1

theorem flag_set_two {flag : ℕ} (h : (if flag = 0 then 1 else flag) = 2) : flag = 2 := by
  split at h
  · cases h
  · exact h

theorem Tagged.start' (ht : Tagged info h) (hf : Flags info false h) (hready : Startable info)
    (hinfo : info'.info = info.info)
    (hscheduled : info'.firstScheduled =
      if info.firstScheduled = 0 then 1 else info.firstScheduled)
    (hfinished : info'.firstFinished = info.firstFinished)
    (hlast : info'.lastFinished = info.lastFinished) :
    Tagged info' (h.after p (.started p)) := by
  apply ht.same hinfo
  · rw [hscheduled]
    exact flag_set_two
  · rw [hfinished]
    exact id
  · rw [hlast]
    intro htwo
    have hmark := (hf.ended (by omega)).1
    rw [hready.1] at hmark
    cases hmark
  · rw [History.after_started]

theorem Tagged.step (ht : Tagged info h) (hf : Flags info called h)
    (hstep : EntryStep p info called e info' called') : Tagged info' (h.after p e) := by
  cases hstep with
  | other he =>
    rw [History.after_other he]
    exact ht
  | collect hps =>
    have hcollected := collected_cleanupEntry info
    apply ht.same
    · exact congrArg Prod.fst hcollected.static
    · rw [hcollected.scheduled]
      exact id
    · rw [cleanupEntry_first]
      split
      · exact nofun
      · exact id
    · rw [cleanupEntry_last]
      split
      · exact nofun
      · exact fun htwo => ⟨htwo, rfl⟩
    · rfl
  | tags finished hps => exact ht.tags hf finished hps
  | call tfirst hready hsync | spawn tfirst i hready hasync hfree =>
    exact ht.start' hf hready rfl rfl rfl rfl
  | unspawned i hasync hfree => exact ⟨ht.1, ht.2, ht.3⟩
  | returns result =>
    unfold returnInfo
    rw [updateEndOfTask_eq, endsSeries_runningtasks, History.after_returned]
    apply ht.same
    · rfl
    · exact id
    · exact flag_set_two
    · dsimp only
      split
      · exact nofun
      · exact fun htwo => ⟨htwo, rfl⟩
    · rfl
  | timeout =>
    rw [History.after_timedOut]
    exact ⟨ht.1, ht.2, ht.3⟩
  | remove hp terminate cancelled =>
    rw [History.after_removed hp]
    exact ⟨ht.1, ht.2, ht.3⟩
  | finish i result hrunning => exact ⟨ht.1, ht.2, ht.3⟩

/-! ## Entries in a run -/

/-- What holds of an entry after its history. -/
structure EntryOk (info : SchedInfo) (called : Bool) (h : History) : Prop where
  accepted : Accepted info.info
  running : Running info called h
  flags : Flags info called h
  tagged : Tagged info h

theorem EntryOk.step (ho : EntryOk info called h)
    (hstep : EntryStep p info called e info' called') : EntryOk info' called' (h.after p e) where
  accepted := by
    rw [hstep.info_eq]
    exact ho.accepted
  running := ho.running.step hstep
  flags := ho.flags.step ho.accepted hstep
  tagged := ho.tagged.step ho.flags hstep

theorem entryOk_new {timenow : ℤ} {task : SchedulerTask} (hvalid : checkValidity timenow task = 0)
    (id now : ℤ) : EntryOk (newInfo task id now) false ⟨0, 0, [], false⟩ where
  accepted := ⟨timenow, task, id, now, hvalid, rfl⟩
  running := running_new task id now
  flags := flags_new hvalid id now
  tagged := ⟨nofun, nofun, nofun⟩

def EntriesOk (tr : List SchedEvent) (s : SchedProcess) : Prop :=
  ProcOk s ∧ ∀ p ∈ s.sd.entries, EntryOk (s.sd.infos p) (s.pc.calls p) (history p tr)

theorem EntriesOk.step {s t : SchedProcess} {a : SchedAction} {tr : List SchedEvent}
    (hs : EntriesOk tr s) (hstep : Sched.step s a = some (e, t)) :
    EntriesOk (tr ++ [e]) t := by
  refine ⟨hs.1.step hstep, ?_⟩
  intro p hp
  rw [history_snoc]
  obtain ⟨c, r, rfl, -, hvalid, hnew, hcalls⟩ | ⟨hin, hentry⟩ := step_entry hs.1 hstep hp
  · rw [hnew, hcalls]
    have hfresh : (history p tr).after p (.scheduled p) = ⟨0, 0, [], false⟩ := if_pos rfl
    rw [hfresh]
    exact entryOk_new hvalid _ _
  · exact (hs.2 p hin).step hentry

theorem entriesOk_run {newid : ℕ} {infos : ℕ → SchedInfo} {as : List SchedAction}
    {tr : List SchedEvent} {s : SchedProcess}
    (h : run Sched.step (init newid infos) as = some (tr, s)) : EntriesOk tr s := by
  refine run_induction EntriesOk (fun _ _ _ _ _ _ hs hstep => hs.step hstep) ?_ h
  refine ⟨procOk_init newid infos, ?_⟩
  intro p hp
  rw [show (init newid infos).sd.entries = [] from (holds_init newid infos).listed_eq] at hp
  cases hp

end Steps

/-! ## The tag of the last end -/

def tagsLast (info : SchedulerTask) : Prop :=
  info.has schedTimetag = true ∧ info.tagtype = schedTagLast

instance (info : SchedulerTask) : Decidable (tagsLast info) :=
  inferInstanceAs (Decidable (_ ∧ _))

/-- When the tag for the last end has been set, threads are collected only with one that ends the
series. -/
def LateOk (info : SchedInfo) : Prop :=
  tagsLast info.info → info.lastFinished = 2 → 0 < info.countTasks SchedTask.finished →
    SeriesEnds info

instance (info : SchedInfo) : Decidable (LateOk info) := inferInstanceAs (Decidable (_ → _))

/-- No heartbeat collects late threads alone. -/
def lateOk (s : SchedProcess) : SchedAction → Prop
  | .beat _ => ∀ p ∈ s.sd.entries, LateOk (s.sd.infos p)
  | _ => True

instance (s : SchedProcess) (a : SchedAction) : Decidable (lateOk s a) :=
  match a with
  | .beat _ => inferInstanceAs (Decidable (∀ p ∈ s.sd.entries, LateOk (s.sd.infos p)))
  | .finishedTags _ | .ready .. | .returns _ | .scheduledTags _ | .retire _ | .retireTags
  | .finish .. | .schedule .. | .remove .. | .setTag .. => .isTrue trivial

/-- The tag was set when all that was started had ended. -/
def LastTagged (info : SchedInfo) (h : History) : Prop :=
  tagsLast info.info → info.lastFinished = 2 → (h.starts, h.ends) ∈ h.tagged

section Last

variable {p : ℕ} {info info' : SchedInfo} {called called' : Bool} {e : SchedEvent} {h : History}

theorem LastTagged.same (hl : LastTagged info h) {h' : History} (hinfo : info'.info = info.info)
    (hlast : info'.lastFinished = 2 → info.lastFinished = 2 ∧ h'.starts = h.starts ∧
      h'.ends = h.ends) (htagged : h'.tagged = h.tagged) : LastTagged info' h' := by
  unfold LastTagged
  rw [hinfo, htagged]
  intro htag hseen
  obtain ⟨hold, hstarts, hends⟩ := hlast hseen
  rw [hstarts, hends]
  exact hl htag hold

theorem LastTagged.start (hf : Flags info called h) (hready : Startable info)
    (hlast : info'.lastFinished = info.lastFinished) {h' : History} : LastTagged info' h' := by
  intro _ htwo
  rw [hlast] at htwo
  have hmark := (hf.ended (by omega)).1
  rw [hready.1] at hmark
  cases hmark

theorem LastTagged.collect (hl : LastTagged info h) {ps : List ℕ}
    (hps : ps.count p = info.countTasks SchedTask.finished) (hlate : LateOk info) :
    LastTagged (cleanupEntry info) (h.after p (.finished ps)) := by
  have hinfo : (cleanupEntry info).info = info.info :=
    congrArg Prod.fst (static_cleanupEntry info)
  unfold LastTagged
  rw [hinfo, cleanupEntry_last]
  intro htag hseen
  by_cases hseries : SeriesEnds info
  · rw [if_pos hseries] at hseen
    cases hseen
  · rw [if_neg hseries] at hseen
    have hnone : ps.count p = 0 := by
      by_contra hne
      exact hseries (hlate htag hseen (by omega))
    have hafter : h.after p (.finished ps) = h := by
      show { h with ends := h.ends + ps.count p } = h
      rw [hnone]
      rfl
    rw [hafter]
    exact hl htag hseen

theorem LastTagged.tags (hl : LastTagged info h) (finished : Bool) {ps : List ℕ}
    (hps : p ∈ ps ↔ tagDue finished info = true) :
    LastTagged (markTags finished info) (h.after p (.tags ps)) := by
  have hinfo : (markTags finished info).info = info.info :=
    congrArg Prod.fst (static_markTags finished info)
  unfold LastTagged
  rw [hinfo]
  intro htag hseen
  have hbefore := lastFinished_markTags htag.1 hseen
  by_cases hin : p ∈ ps
  · have hafter : h.after p (.tags ps) =
        { h with tagged := h.tagged ++ [(h.starts, h.ends)] } := if_pos hin
    rw [hafter]
    exact List.mem_append_right _ (List.mem_singleton_self _)
  · have hafter : h.after p (.tags ps) = h := if_neg hin
    rw [hafter]
    obtain htwo | ⟨rfl, hone⟩ := hbefore
    · exact hl htag htwo
    · exact absurd (hps.mpr (by simp [tagDue, htag.1, htag.2, hone])) hin

theorem LastTagged.step (hl : LastTagged info h) (hf : Flags info called h)
    (hstep : EntryStep p info called e info' called')
    (hlate : ∀ ps, e = .finished ps → LateOk info) : LastTagged info' (h.after p e) := by
  cases hstep with
  | other he =>
    rw [History.after_other he]
    exact hl
  | collect hps => exact hl.collect hps (hlate _ rfl)
  | tags finished hps => exact hl.tags finished hps
  | call tfirst hready hsync | spawn tfirst i hready hasync hfree => exact .start hf hready rfl
  | unspawned i hasync hfree => exact hl
  | returns result =>
    have hnot : info.lastFinished = 0 := hf.called rfl
    unfold returnInfo
    rw [updateEndOfTask_eq, endsSeries_runningtasks, History.after_returned]
    apply hl.same
    · rfl
    · dsimp only
      split
      · exact nofun
      · omega
    · rfl
  | timeout =>
    rw [History.after_timedOut]
    exact hl
  | remove hp terminate cancelled =>
    rw [History.after_removed hp]
    exact hl
  | finish i result hrunning => exact hl

end Last

/-! ## Retirement -/

section Retirement

variable {s t : SchedProcess} {a : SchedAction} {e : SchedEvent} {p : ℕ} {ps : List ℕ}
variable {as : List SchedAction} {tr : List SchedEvent} {newid : ℕ} {infos : ℕ → SchedInfo}

/-- Threads are collected at a heartbeat. -/
theorem step_finished (h : step s a = some (.finished ps, t)) : ∃ now, a = .beat now := by
  cases stepped h with
  | beat => exact ⟨_, rfl⟩
  | ready hpc h =>
    obtain ⟨he, -⟩ | ⟨p, -, ⟨-, he, -⟩ | ⟨-, he, -⟩ | ⟨tfirst, -, hstart⟩⟩ := readyStep_cases h
    · cases he
    · cases he
    · cases he
    · obtain ⟨-, he, -⟩ | ⟨he, -⟩ | ⟨i, -, -, ⟨he, -⟩ | ⟨he, -⟩⟩ := startEntry_cases hstart
      all_goals cases he

theorem step_deleted (h : step s a = some (.deleted ps, t)) (hp : p ∈ ps) :
    p ∈ s.sd.entries ∧ retired (s.sd.infos p) = true ∧ s.pc.calls p = false := by
  obtain ⟨-, hsilent⟩ | ⟨fuel, c, q, r, rfl, he, -⟩ | ⟨realloc, rfl, he, -⟩ := step_tasklist h
  · have hkept := hsilent [p]
    have hmem : p ∈ [p].filter fun q => q ∉ ps := by
      rw [show ([p].filter fun q => q ∉ ps) = [p] from hkept]
      exact List.mem_singleton_self p
    exact absurd hp (of_decide_eq_true (List.mem_filter.mp hmem).2)
  · cases he
  · obtain rfl := SchedEvent.deleted.inj he
    obtain ⟨hin, hretired⟩ := List.mem_filter.mp hp
    cases stepped h with
    | retire hpc =>
      rw [hpc]
      exact ⟨hin, hretired, rfl⟩

/-- The number of runs of an entry that ends by itself. -/
def RunCount (info : SchedulerTask) (starts : ℕ) : Prop :=
  (info.has schedRepeat = false → starts = 1) ∧
    (repeatsN info → (starts : ℤ) = info.repeatval)

/-- The tag of the entry has been set: after the first start, after the first end, or behind the
last start and an end. -/
def TagsSet (info : SchedulerTask) (h : History) : Prop :=
  info.has schedTimetag = true →
    (info.tagtype = schedTagStart → ∃ x ∈ h.tagged, x.1 ≠ 0) ∧
    (info.tagtype = schedTagEnd → ∃ x ∈ h.tagged, x.2 ≠ 0) ∧
    (info.tagtype = schedTagLast → ∃ x ∈ h.tagged, x.1 = h.starts ∧ x.2 ≠ 0)

theorem retired_flags {info : SchedInfo} {called : Bool} {h : History} (ho : EntryOk info called h)
    (hretired : retired info = true) (hgoing : h.stopped = false) :
    info.lastFinished ≠ 0 ∧ h.starts ≠ 0 ∧ (info.info.has schedTimetag = true →
      info.firstScheduled = 2 ∧ info.firstFinished = 2 ∧ info.lastFinished = 2) := by
  unfold retired at hretired
  simp only [Bool.and_eq_true, Bool.or_eq_true, Bool.not_eq_true', decide_eq_true_eq] at hretired
  obtain ⟨⟨hmark, hrunning⟩, htags⟩ := hretired
  have hlast := ho.flags.mark hgoing hmark
  have hends := (ho.flags.ended hlast).2.1
  have hbalance := ho.running.balance
  have hstarts : h.starts ≠ 0 := by omega
  obtain ⟨hscheduled, hscheduled0⟩ := ho.flags.scheduled
  obtain ⟨hfinished, hfinished0⟩ := ho.flags.finished
  have hle := ho.flags.last
  refine ⟨hlast, hstarts, ?_⟩
  intro htag
  rw [htag] at htags
  obtain hno | ⟨⟨h1, h2⟩, h3⟩ := htags
  · cases hno
  · omega

theorem EntryOk.retired {info : SchedInfo} {h : History} (ho : EntryOk info false h)
    (hretired : Sched.retired info = true) : (∀ i, (info.tasks i).valid = false) ∧
      (h.stopped = false → RunCount info.info h.starts ∧ h.ends = h.starts ∧
        TagsSet info.info h) := by
  have hrunning : info.runningtasks = 0 := by
    unfold Sched.retired at hretired
    simp only [Bool.and_eq_true, decide_eq_true_eq] at hretired
    exact hretired.1.2
  have hcount := ho.running.count
  have hbalance := ho.running.balance
  simp only [Bool.false_eq_true, if_false] at hcount
  refine ⟨countTasks_eq_zero.mp (by omega), ?_⟩
  intro hgoing
  obtain ⟨hlast, hstarts, hflags⟩ := retired_flags ho hretired hgoing
  refine ⟨⟨?_, (ho.flags.ended hlast).2.2⟩, by omega, ?_⟩
  · intro hsingle
    have hle := ho.flags.single hsingle
    omega
  · intro htag
    obtain ⟨hscheduled, hfinished, hlast⟩ := hflags htag
    exact ⟨fun htype => ho.tagged.start htag htype hscheduled,
      fun htype => ho.tagged.finish htag htype hfinished,
      fun htype => ho.tagged.last htag htype hlast⟩

/-- What a new entry has and the steps of an entry keep, the entries of every run have. -/
theorem entries_run {ok : SchedProcess → SchedAction → Prop} [∀ s a, Decidable (ok s a)]
    (P : History → SchedInfo → Prop) (hnew : ∀ h task r now, P h (newInfo task r now))
    (hkeep : ∀ {s a e t p h}, ok s a → step s a = some (e, t) → p ∈ s.sd.entries →
      EntryOk (s.sd.infos p) (s.pc.calls p) h →
      EntryStep p (s.sd.infos p) (s.pc.calls p) e (t.sd.infos p) (t.pc.calls p) →
      P h (s.sd.infos p) → P (h.after p e) (t.sd.infos p))
    (h : run (restrict ok step) (init newid infos) as = some (tr, s)) :
    EntriesOk tr s ∧ ∀ p ∈ s.sd.entries, P (history p tr) (s.sd.infos p) := by
  refine run_induction (fun tr s => EntriesOk tr s ∧
    ∀ p ∈ s.sd.entries, P (history p tr) (s.sd.infos p)) ?_ ?_ h
  · intro tr s a _ e t hs hstep
    obtain ⟨hok, hstep⟩ := restrict_eq_some.mp hstep
    refine ⟨hs.1.step hstep, ?_⟩
    intro p hp
    rw [history_snoc]
    obtain ⟨c, r, rfl, -, -, hinfo, -⟩ | ⟨hin, hentry⟩ := step_entry hs.1.1 hstep hp
    · rw [hinfo]
      exact hnew ..
    · exact hkeep hok hstep hin (hs.1.2 p hin) hentry (hs.2 p hin)
  · refine ⟨entriesOk_run (show run step (init newid infos) [] = some ([], _) from rfl), ?_⟩
    rw [show (init newid infos).sd.entries = [] from (holds_init newid infos).listed_eq]
    exact nofun

theorem lastTagged_run
    (h : run (restrict lateOk step) (init newid infos) as = some (tr, s)) :
    ∀ p ∈ s.sd.entries, LastTagged (s.sd.infos p) (history p tr) := by
  refine (entries_run (fun h info => LastTagged info h) (fun _ _ _ _ _ => nofun) ?_ h).2
  intro s a e t p h hlate hstep hin ho hentry hl
  refine hl.step ho.flags hentry ?_
  rintro ps rfl
  obtain ⟨now, rfl⟩ := step_finished hstep
  exact hlate p hin

/-! ## Tags in the list -/

theorem findTag_setTag {tags : List TimeTag} {tag : List Char}
    (hlength : tag.length < timetagLength) (tai epoch : ℤ) :
    (findTag (setTag tags tag tai epoch) tag).isSome := by
  unfold setTag
  split
  · next ltag hfound =>
    rw [hfound]
    rfl
  · have htake : tag.take (timetagLength - 1) = tag := List.take_of_length_le (by
      unfold timetagLength at hlength ⊢
      omega)
    rw [htake]
    unfold findTag
    rw [List.find?_isSome]
    exact ⟨_, List.mem_append_right _ (List.mem_singleton_self _), beq_self_eq_true _⟩

theorem findTag_setTag_of_isSome {tags : List TimeTag} {tag : List Char}
    (h : (findTag tags tag).isSome) (tag' : List Char) (tai epoch : ℤ) :
    (findTag (setTag tags tag' tai epoch) tag).isSome := by
  unfold setTag
  split
  · exact h
  · unfold findTag at h ⊢
    rw [List.find?_isSome] at h ⊢
    obtain ⟨ltag, hltag, hsame⟩ := h
    exact ⟨ltag, List.mem_append_left _ hltag, hsame⟩

section EvaluateTags

variable {sd : Scheduler} {finished : Bool} {time : SchedTime} {accept : List Char → Bool}
variable {tag : List Char}

theorem findTag_evaluateEntry_of_isSome (h : (findTag sd.timetaglist tag).isSome) (q : ℕ) :
    (findTag (evaluateEntry finished time accept sd q).timetaglist tag).isSome := by
  show (findTag (if _ then _ else sd.timetaglist) tag).isSome
  split
  · exact findTag_setTag_of_isSome h _ _ _
  · exact h

theorem findTag_foldl_of_isSome (qs : List ℕ) (h : (findTag sd.timetaglist tag).isSome) :
    (findTag (qs.foldl (evaluateEntry finished time accept) sd).timetaglist tag).isSome := by
  induction qs generalizing sd with
  | nil => exact h
  | cons q qs ih => exact ih (findTag_evaluateEntry_of_isSome h q)

/-- The loop of `evaluateTags` sets the tag of an entry where it is due and accepted. -/
theorem findTag_foldl {qs : List ℕ} (hnodup : qs.Nodup) (hp : p ∈ qs)
    (hdue : tagDue finished (sd.infos p) = true) (haccept : accept (sd.infos p).info.timetag = true)
    (hlength : (sd.infos p).info.timetag.length < timetagLength) :
    (findTag (qs.foldl (evaluateEntry finished time accept) sd).timetaglist
      (sd.infos p).info.timetag).isSome := by
  induction qs generalizing sd with
  | nil => cases hp
  | cons q qs ih =>
    obtain ⟨hq, hqs⟩ := List.nodup_cons.mp hnodup
    rw [List.foldl_cons]
    by_cases hpq : p = q
    · subst hpq
      apply findTag_foldl_of_isSome
      show (findTag (if _ then _ else sd.timetaglist) _).isSome
      rw [if_pos ⟨hdue, haccept⟩]
      exact findTag_setTag hlength _ _
    · have hsame : (evaluateEntry finished time accept sd q).infos p = sd.infos p :=
        Function.update_of_ne hpq _ _
      have hrest := @ih (evaluateEntry finished time accept sd q) hqs
        ((List.mem_cons.mp hp).resolve_left hpq)
      rw [hsame] at hrest
      exact hrest hdue haccept hlength

end EvaluateTags

theorem Accepted.timetag {info : SchedulerTask} (h : Accepted info)
    (htag : info.has schedTimetag = true) : info.timetag.length < timetagLength := by
  obtain ⟨timenow, task, id, now, hvalid, rfl⟩ := h
  obtain ⟨synctype, waittype, priority, hinfo, -⟩ := newInfo_info task id now
  rw [hinfo] at htag ⊢
  have hflag : task.has schedTimetag = true := htag
  have hcheck := validityChecks_false hvalid
    (task.has schedTimetag && task.timetag.length ≥ timetagLength, -19)
    (by simp [validityChecks])
  simp only [hflag, Bool.true_and, decide_eq_false_iff_not] at hcheck
  exact Nat.lt_of_not_le hcheck

theorem step_tags (hs : EntriesOk tr s) {accept : List Char → Bool}
    (ha : a = .finishedTags accept ∨ a = .scheduledTags accept)
    (h : step s a = some (.tags ps, t)) (hp : p ∈ ps)
    (haccept : accept (s.sd.infos p).info.timetag = true) :
    (findTag t.sd.timetaglist (s.sd.infos p).info.timetag).isSome := by
  have hset (finished : Bool) (hin : p ∈ taggedEntries finished s.sd) :
      (findTag (evaluateTags finished s.time accept s.sd).timetaglist
        (s.sd.infos p).info.timetag).isSome := by
    obtain ⟨hentry, hdue⟩ := List.mem_filter.mp hin
    have htag : (s.sd.infos p).info.has schedTimetag = true := by
      unfold tagDue at hdue
      exact (Bool.and_eq_true_iff.mp hdue).1
    exact findTag_foldl hs.1.list.nodup hentry hdue haccept
      ((hs.2 p hentry).accepted.timetag htag)
  obtain rfl | rfl := ha
  · cases stepped h with
    | finishedTags => exact hset true hp
  · cases stepped h with
    | scheduledTags => exact hset false hp

/-- In every run `runningtasks` is the number of threads that are not collected and of the
synchronous call. -/
theorem retirement_exact (h : run step (init newid infos) as = some (tr, s)) :
    (∀ p ∈ s.sd.entries, (s.sd.infos p).runningtasks =
      (s.sd.infos p).countTasks SchedTask.valid + (if s.pc.calls p then 1 else 0 : ℕ)) ∧
    (∀ a ps t, step s a = some (.deleted ps, t) → ∀ p ∈ ps,
      (∀ i, ((s.sd.infos p).tasks i).valid = false) ∧ s.pc.calls p = false ∧
      ((history p tr).stopped = false →
        RunCount (s.sd.infos p).info (history p tr).starts ∧
        (history p tr).ends = (history p tr).starts ∧
        TagsSet (s.sd.infos p).info (history p tr) ∧
        (run (restrict lateOk step) (init newid infos) as = some (tr, s) →
          tagsLast (s.sd.infos p).info →
          ((history p tr).starts, (history p tr).ends) ∈ (history p tr).tagged))) ∧
    ∀ a accept ps t, a = .finishedTags accept ∨ a = .scheduledTags accept →
      step s a = some (.tags ps, t) → ∀ p ∈ ps, accept (s.sd.infos p).info.timetag = true →
      (findTag t.sd.timetaglist (s.sd.infos p).info.timetag).isSome := by
  have hs := entriesOk_run h
  refine ⟨fun p hp => (hs.2 p hp).running.count, ?_, ?_⟩
  · intro a ps t hstep p hp
    obtain ⟨hin, hretired, hcalls⟩ := step_deleted hstep hp
    have ho := hs.2 p hin
    rw [hcalls] at ho
    obtain ⟨hnone, hdone⟩ := ho.retired hretired
    refine ⟨hnone, hcalls, ?_⟩
    intro hgoing
    obtain ⟨hcount, hends, htags⟩ := hdone hgoing
    refine ⟨hcount, hends, htags, ?_⟩
    intro hlate hlast
    have hflags := (retired_flags ho hretired hgoing).2.2 hlast.1
    exact lastTagged_run hlate p hin hlast hflags.2.2
  · intro a accept ps t ha hstep p hp haccept
    exact step_tags hs ha hstep hp haccept

/-! ## Two runs -/

instance : NeZero maxTasks := ⟨by decide⟩

/-- A pass of the process at an epoch of second 100, with what happens in `scheduleReadyTasks`, up
to `deleteRetiredEntries`. -/
def passTo (epoch : ℤ) (ready : List SchedAction) : List SchedAction :=
  .beat (100 * oneSec + epoch * epochNsec) :: .finishedTags (fun _ => true) :: ready ++
    [.scheduledTags fun _ => true]

def passEnd : List SchedAction := [.retire true, .retireTags]

/-- One task is called once. -/
def plainRun : List SchedAction :=
  .schedule 9 (callAt plainTask 0 0) :: passTo 0 [.ready 1 true, .returns 0, .ready 1 true]

theorem plainRun_deletes : (run step (init 0 blankInfos) plainRun).any (fun r =>
    (step r.2 (.retire true)).any fun d => d.1 = .deleted [0] ∧
      (history 0 r.1).stopped = false ∧ (r.2.sd.infos 0).info.has schedRepeat = false) = true := by
  decide +kernel

theorem retirement_exact_plainRun :
    ∃ tr s t, run step (init 0 blankInfos) plainRun = some (tr, s) ∧
      step s (.retire true) = some (.deleted [0], t) ∧ (history 0 tr).starts = 1 := by
  obtain ⟨⟨tr, s⟩, hrun, hany⟩ := (Option.any_eq_true _ _).mp plainRun_deletes
  obtain ⟨⟨e, t⟩, hstep, hfacts⟩ := (Option.any_eq_true _ _).mp hany
  obtain ⟨rfl, hgoing, hsingle⟩ := of_decide_eq_true hfacts
  obtain ⟨-, hdeleted, -⟩ := retirement_exact hrun
  obtain ⟨-, -, hcounts⟩ := hdeleted _ _ _ hstep 0 (List.mem_singleton_self 0)
  exact ⟨tr, s, t, hrun, hstep, (hcounts hgoing).1.1 hsingle⟩

/-- A task with threads that is repeated in each epoch until one of them does not return 0. -/
def condTask : SchedulerTask :=
  { plainTask with
    flag := schedRepeat ||| schedTimetag ||| schedAsync
    tagtype := schedTagLast
    timetag := ['a']
    repeattype := schedRepeatCond
    repeatrate := 1 }

/-- Two threads of the task run at once; the first one returns 1, and when its tag has been set
the second one returns 0. -/
def lateRun : List SchedAction :=
  .schedule 9 (callAt condTask 0 0) ::
    passTo 0 [.ready 1 true, .ready 1 true] ++ passEnd ++
    passTo 1 [.ready 1 true, .ready 1 true] ++ passEnd ++
    .finish 0 0 1 :: passTo 2 [.ready 1 true, .ready 1 true] ++ passEnd ++
    .finish 0 1 0 :: passTo 3 [.ready 1 true, .ready 1 true]

theorem lateRun_deletes : (run step (init 0 blankInfos) lateRun).any (fun r =>
    (step r.2 (.retire true)).any fun d => d.1 = .deleted [0] ∧
      history 0 r.1 = ⟨2, 2, [(2, 1)], false⟩ ∧ tagsLast (r.2.sd.infos 0).info) = true := by
  decide +kernel

/-- The entry is deleted though its tag for the last end was set before the last end only. -/
theorem lateRun_not_tagged_at_end :
    ¬ ∀ newid infos as tr s, run step (init newid infos) as = some (tr, s) →
      ∀ a ps t, step s a = some (.deleted ps, t) → ∀ p ∈ ps, (history p tr).stopped = false →
        tagsLast (s.sd.infos p).info →
        ∃ x ∈ (history p tr).tagged, x.2 = (history p tr).ends := by
  intro hall
  obtain ⟨⟨tr, s⟩, hrun, hany⟩ := (Option.any_eq_true _ _).mp lateRun_deletes
  obtain ⟨⟨e, t⟩, hstep, hfacts⟩ := (Option.any_eq_true _ _).mp hany
  obtain ⟨rfl, hhistory, hlast⟩ := of_decide_eq_true hfacts
  have htagged := hall 0 blankInfos lateRun tr s hrun _ _ _ hstep 0 (List.mem_singleton_self 0)
  rw [show history 0 tr = ⟨2, 2, [(2, 1)], false⟩ from hhistory] at htagged
  obtain ⟨x, hx, hends⟩ := htagged rfl hlast
  obtain rfl := List.mem_singleton.mp hx
  exact absurd hends (by decide)

end Retirement

end AdvLigoRts.Gds.Sched
