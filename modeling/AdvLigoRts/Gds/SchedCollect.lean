import AdvLigoRts.Gds.SchedEntry

/-!
# Collecting the threads of an entry

`cleanupFinishedTasks` goes through the threads of an entry one by one and updates its counters
and flags each time. Here is what it does to them in all.
-/

namespace AdvLigoRts.Gds.Sched

open PvLib

/-! ## Counting threads -/

section Counting

variable {α : Type*} {info info' : SchedInfo} {kind : SchedTask → Bool}

theorem countP_split {p q r : α → Bool} (h : ∀ a, (p a).toNat = (q a).toNat + (r a).toNat)
    (l : List α) : l.countP p = l.countP q + l.countP r := by
  induction l with
  | nil => rfl
  | cons a l ih =>
    have ha := h a
    rw [List.countP_cons, List.countP_cons, List.countP_cons, ih]
    cases hp : p a
    all_goals cases hq : q a
    all_goals cases hr : r a
    all_goals
      rw [hp, hq, hr] at ha
      simp only [Bool.toNat_true, Bool.toNat_false] at ha
      simp
      try omega

theorem countTasks_congr (h : ∀ i, kind (info'.tasks i) = kind (info.tasks i)) :
    info'.countTasks kind = info.countTasks kind := by
  unfold SchedInfo.countTasks
  rw [funext h]

theorem countTasks_eq_zero : info.countTasks kind = 0 ↔ ∀ i, kind (info.tasks i) = false := by
  unfold SchedInfo.countTasks
  rw [List.countP_eq_zero]
  constructor
  · intro h i
    simpa using h i (List.mem_finRange i)
  · intro h i _
    simp [h i]

theorem countTasks_pos : 0 < info.countTasks kind ↔ ∃ i, kind (info.tasks i) = true := by
  rw [Nat.pos_iff_ne_zero, Ne, countTasks_eq_zero]
  push Not
  simp

theorem freeTask_valid {i : Fin maxTasks} (h : freeTask info = some i) :
    (info.tasks i).valid = false := by
  have hfree := List.find?_some h
  simpa using hfree

/-- A thread more. -/
theorem countTasks_prepareTask {i : Fin maxTasks} (hfree : freeTask info = some i) :
    (prepareTask i true info).countTasks SchedTask.valid =
      info.countTasks SchedTask.valid + 1 := by
  have hi : (info.tasks i).valid = false := freeTask_valid hfree
  have hone : (List.finRange maxTasks).countP (fun j => j == i) = 1 :=
    List.count_eq_one_of_mem (List.nodup_finRange _) (List.mem_finRange i)
  unfold SchedInfo.countTasks
  rw [← hone]
  apply countP_split
  intro j
  show (Function.update info.tasks i _ j).valid.toNat = _
  by_cases hj : j = i
  · subst hj
    rw [Function.update_self, hi, beq_self_eq_true]
    rfl
  · rw [Function.update_of_ne hj, beq_eq_false_iff_ne.mpr hj]
    rfl

end Counting

/-! ## The threads that are collected -/

/-- The record after the loop of `cleanupFinishedTasks` over these threads. -/
structure Collected (info : SchedInfo) (is : List (Fin maxTasks)) (info' : SchedInfo) : Prop where
  static : info'.static = info.static
  tfirst : info'.tfirst = info.tfirst
  scheduled : info'.firstScheduled = info.firstScheduled
  repeatN : info'.repeatN = info.repeatN
  tasks : ∀ i, info'.tasks i =
    if i ∈ is ∧ (info.tasks i).finished then { info.tasks i with valid := false }
    else info.tasks i
  running : info'.runningtasks =
    info.runningtasks - is.countP fun i => (info.tasks i).finished
  first : info'.firstFinished =
    if (∃ i ∈ is, (info.tasks i).finished) ∧ info.firstFinished = 0 then 1
    else info.firstFinished
  last : info'.lastFinished =
    if ∃ i ∈ is, (info.tasks i).finished ∧ endsSeries info (info.tasks i).result then 1
    else info.lastFinished
  mark : info'.markForTermination = true ↔ info.markForTermination = true ∨
    ∃ i ∈ is, (info.tasks i).finished ∧ endsSeries info (info.tasks i).result

section Collect

variable {info info' : SchedInfo} {is : List (Fin maxTasks)} {i : Fin maxTasks}

theorem endsSeries_congr (hstatic : info'.static = info.static)
    (hrepeat : info'.repeatN = info.repeatN) (result : ℤ) :
    endsSeries info' result = endsSeries info result := by
  have hinfo : info'.info = info.info := congrArg Prod.fst hstatic
  unfold endsSeries
  rw [hinfo, hrepeat]

/-- What `updateEndOfTask` changes. -/
theorem endsSeries_runningtasks (info : SchedInfo) (n result : ℤ) :
    endsSeries { info with runningtasks := n } result = endsSeries info result := rfl

theorem updateEndOfTask_eq (info : SchedInfo) (result : ℤ) :
    updateEndOfTask info result = { info with
      firstFinished := if info.firstFinished = 0 then 1 else info.firstFinished
      lastFinished := if endsSeries info result then 1 else info.lastFinished
      markForTermination := info.markForTermination || endsSeries info result } := by
  have hends : endsSeries { info with
      firstFinished := if info.firstFinished = 0 then 1 else info.firstFinished } result =
    endsSeries info result := rfl
  unfold updateEndOfTask
  dsimp only
  rw [hends]
  cases endsSeries info result
  · rw [Bool.or_false]
    rfl
  · rw [Bool.or_true]
    rfl

theorem collected_nil (info : SchedInfo) : Collected info [] info where
  static := rfl
  tfirst := rfl
  scheduled := rfl
  repeatN := rfl
  tasks := by simp
  running := by simp
  first := by simp
  last := by simp
  mark := by simp

/-- One thread more. -/
theorem Collected.snoc (h : Collected info is info') (hi : i ∉ is) :
    Collected info (is ++ [i]) (cleanupTask info' i) := by
  have htask : info'.tasks i = info.tasks i := by
    rw [h.tasks, if_neg fun hin => hi hin.1]
  have hexists (P : Fin maxTasks → Prop) : (∃ j ∈ is ++ [i], P j) ↔ (∃ j ∈ is, P j) ∨ P i := by
    simp only [List.mem_append, List.mem_singleton]
    constructor
    · rintro ⟨j, hj | rfl, hP⟩
      · exact Or.inl ⟨j, hj, hP⟩
      · exact Or.inr hP
    · rintro (⟨j, hj, hP⟩ | hP)
      · exact ⟨j, Or.inl hj, hP⟩
      · exact ⟨i, Or.inr rfl, hP⟩
  unfold cleanupTask
  rw [htask]
  by_cases hfinished : (info.tasks i).finished = true
  · rw [if_pos hfinished]
    have hends := endsSeries_congr h.static h.repeatN (info.tasks i).result
    rw [updateEndOfTask_eq, hends]
    constructor
    · exact h.static
    · exact h.tfirst
    · exact h.scheduled
    · exact h.repeatN
    · intro j
      show Function.update info'.tasks i _ j = _
      rw [htask]
      by_cases hj : j = i
      · subst hj
        rw [Function.update_self, if_pos ⟨by simp, hfinished⟩]
      · rw [Function.update_of_ne hj, h.tasks]
        simp [hj]
    · show info'.runningtasks - 1 = _
      rw [h.running, List.countP_append, List.countP_singleton, if_pos hfinished]
      omega
    · show (if info'.firstFinished = 0 then 1 else info'.firstFinished) = _
      rw [h.first]
      simp only [hexists, hfinished, or_true, true_and]
      split_ifs
      all_goals omega
    · show (if endsSeries info _ = true then 1 else info'.lastFinished) = _
      rw [h.last]
      simp only [hexists, hfinished, true_and]
      by_cases hseries : endsSeries info (info.tasks i).result = true
      · rw [if_pos hseries, if_pos (Or.inr hseries)]
      · rw [if_neg hseries]
        simp only [hseries, Bool.false_eq_true, or_false]
    · show (info'.markForTermination || endsSeries info _) = true ↔ _
      rw [Bool.or_eq_true, h.mark, hexists, or_assoc]
      simp only [hfinished, true_and]
  · rw [if_neg hfinished]
    constructor
    · exact h.static
    · exact h.tfirst
    · exact h.scheduled
    · exact h.repeatN
    · intro j
      rw [h.tasks]
      by_cases hj : j = i
      · subst hj
        rw [if_neg fun hin => hi hin.1, if_neg fun hin => hfinished hin.2]
      · simp [hj]
    · rw [h.running, List.countP_append, List.countP_singleton, if_neg hfinished]
      rfl
    · rw [h.first]
      simp only [hexists, hfinished, Bool.false_eq_true, or_false]
    · rw [h.last]
      simp only [hexists, hfinished, Bool.false_eq_true, false_and, or_false]
    · rw [h.mark]
      simp only [hexists, hfinished, Bool.false_eq_true, false_and, or_false]

theorem collected_foldl {js : List (Fin maxTasks)} (h : Collected info is info')
    (hnodup : (is ++ js).Nodup) : Collected info (is ++ js) (js.foldl cleanupTask info') := by
  induction js generalizing is info' with
  | nil =>
    rw [List.append_nil]
    exact h
  | cons j js ih =>
    rw [List.append_cons] at hnodup ⊢
    have hj : j ∉ is := by
      intro hin
      have hdisjoint := List.disjoint_of_nodup_append (List.Nodup.of_append_left hnodup)
      exact hdisjoint hin (List.mem_singleton_self j)
    exact ih (h.snoc hj) hnodup

theorem collected_cleanupEntry (info : SchedInfo) :
    Collected info (List.finRange maxTasks) (cleanupEntry info) :=
  collected_foldl (collected_nil info) (List.nodup_finRange _)

theorem cleanupEntry_running (info : SchedInfo) : (cleanupEntry info).runningtasks =
    info.runningtasks - info.countTasks SchedTask.finished :=
  (collected_cleanupEntry info).running

theorem cleanupEntry_valid (info : SchedInfo) (i : Fin maxTasks) :
    ((cleanupEntry info).tasks i).valid =
      ((info.tasks i).valid && !(info.tasks i).terminated) := by
  rw [(collected_cleanupEntry info).tasks]
  unfold SchedTask.finished
  cases hvalid : (info.tasks i).valid
  · simp [hvalid]
  · cases hterm : (info.tasks i).terminated
    · simp [hvalid]
    · simp

theorem countTasks_cleanupEntry (info : SchedInfo) : info.countTasks SchedTask.valid =
    (cleanupEntry info).countTasks SchedTask.valid + info.countTasks SchedTask.finished := by
  apply countP_split
  intro i
  rw [cleanupEntry_valid]
  unfold SchedTask.finished
  cases (info.tasks i).valid
  all_goals cases (info.tasks i).terminated
  all_goals rfl

/-- The series of the entry ends with one of the threads that are collected. -/
def SeriesEnds (info : SchedInfo) : Prop :=
  ∃ i, (info.tasks i).finished = true ∧ endsSeries info (info.tasks i).result = true

instance (info : SchedInfo) : Decidable (SeriesEnds info) :=
  inferInstanceAs (Decidable (∃ _, _))

theorem cleanupEntry_last (info : SchedInfo) :
    (cleanupEntry info).lastFinished = if SeriesEnds info then 1 else info.lastFinished := by
  rw [(collected_cleanupEntry info).last]
  simp only [List.mem_finRange, true_and]
  rfl

theorem cleanupEntry_mark (info : SchedInfo) : (cleanupEntry info).markForTermination = true ↔
    info.markForTermination = true ∨ SeriesEnds info := by
  rw [(collected_cleanupEntry info).mark]
  simp only [List.mem_finRange, true_and]
  rfl

theorem cleanupEntry_first (info : SchedInfo) : (cleanupEntry info).firstFinished =
    if 0 < info.countTasks SchedTask.finished ∧ info.firstFinished = 0 then 1
    else info.firstFinished := by
  rw [(collected_cleanupEntry info).first]
  simp only [countTasks_pos, List.mem_finRange, true_and]

end Collect

end AdvLigoRts.Gds.Sched
