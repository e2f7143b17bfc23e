import AdvLigoRts.Daqd.FilesysScanTheorems
import AdvLigoRts.Daqd.TrendFramer

/-!
# Where written trend frames are found

A framer names a file by the seconds of its data and registers it in its file map with the number
of its blocks. The file is found for as many seconds as it was registered with, which is all of them
where a block is a second.
-/

namespace AdvLigoRts.Daqd

open PvLib

namespace Filesys

variable {s : Filesys} {blist : List RangeBlock} {gps len t : ℤ} {d : ℕ}

/-- The second belongs to the file. -/
def FileFound (s : Filesys) (gps secs : ℤ) (d : ℕ) : Prop :=
  ∀ t, gps ≤ t → t < gps + secs → ∃ fsecs, (s.dirNumber t).1 = some (d, gps, fsecs)

/-- The range has files of the framer that end by `gps`, as they were registered or scanned. -/
structure EarlierRange (f : TrendFramer) (gps : ℤ) (r : Range) : Prop where
  wellFormed : r.run.WellFormed
  ends : r.maxTime ≤ gps
  length : r.fileSecs = f.registeredSecs ∨ r.fileSecs = f.namedSecs

/-- The map has files of the framer that end by `gps`. -/
structure EarlierFiles (f : TrendFramer) (s : Filesys) (gps : ℤ) : Prop where
  nonneg : 0 ≤ gps
  curDir_lt : s.curDir < s.numDirs
  cur_lt : ∀ cur, s.curUpdateDir = some cur → cur < s.numDirs
  times : ∀ d < s.numDirs, (s.dir d).minTime ≤ gps ∧ (s.dir d).maxTime ≤ gps
  ranges : ∀ d < s.numDirs, ∀ r ∈ (s.dir d).ranges, EarlierRange f gps r

/-! ## The search -/

/-- A new file is found in its directory, if the files before it are of its length. -/
theorem findRange_addFile (hlen : 0 < len) (hok : RangesOk (rangesOf blist))
    (hsecs : ∀ r ∈ rangesOf blist, r.fileSecs = len) (hends : ∀ r ∈ rangesOf blist, r.maxTime ≤ gps)
    (hle : gps ≤ t) (hlt : t < gps + len) :
    findRange t (rangesOf (addFile blist gps len)) = some (gps, len) := by
  have hfits : FitsCurrent blist gps len := by
    intro cur hcur _
    apply hsecs
    cases blist with
    | nil => exact absurd hcur (Option.not_mem_none cur)
    | cons rb rest =>
      rw [List.head?_cons, Option.mem_some_iff] at hcur
      rw [← hcur]
      exact List.mem_flatMap.mpr ⟨rb, List.mem_cons_self, List.mem_append_right _ (by simp)⟩
  have hokNew : RangesOk (rangesOf (addFile blist gps len)) := rangesOk_addFile hlen hok
  -- a range that has a file with the second has the new file
  have hnew : ∀ r ∈ rangesOf (addFile blist gps len), ∀ g, r.run.Has g → g ≤ t →
      t < g + r.fileSecs → g = gps ∧ r.fileSecs = len := by
    intro r hr g hhas _ hlt'
    rcases (hasFile_addFile hlen hok hfits).mp ⟨r, hr, hhas, rfl⟩ with hold | heq
    · obtain ⟨r', hr', hhas', hlen'⟩ := hold
      have hend : g + r'.fileSecs ≤ r'.maxTime := hhas'.2
      have hmax := hends r' hr'
      omega
    · exact heq
  obtain ⟨r, hr, hhas, hrlen⟩ := (hasFile_addFile hlen hok hfits).mpr (Or.inr ⟨rfl, rfl⟩)
  rw [findRange_eq, findRun_eq_some]
  · exact ⟨r.run, List.mem_map_of_mem hr, hhas, hrlen.symm, hle, hlt⟩
  · intro run hrun
    obtain ⟨r', hr', rfl⟩ := List.mem_map.mp hrun
    exact hokNew r' hr'
  · intro run hrun run' hrun' g g' hg hg' hle1 hlt1 hle2 hlt2
    obtain ⟨r1, hr1, rfl⟩ := List.mem_map.mp hrun
    obtain ⟨r2, hr2, rfl⟩ := List.mem_map.mp hrun'
    obtain ⟨hg1, hlen1⟩ := hnew r1 hr1 g hg hle1 hlt1
    obtain ⟨hg2, hlen2⟩ := hnew r2 hr2 g' hg' hle2 hlt2
    exact ⟨hg1.trans hg2.symm, hlen1.trans hlen2.symm⟩

theorem dirLoop_none (hn : 0 < s.numDirs) (hno : ∀ e < s.numDirs, ¬ s.Spans e t) {i fdir : ℕ}
    (hfdir : fdir < s.numDirs) : s.dirLoop t i fdir = none := by
  induction i generalizing fdir with
  | zero => rfl
  | succ i ih =>
    unfold dirLoop
    have hnot := hno fdir hfdir
    rw [Spans] at hnot
    rw [if_neg hnot]
    exact ih (Nat.mod_lt _ hn)

theorem dirNumber_of_spans (hcur : s.curDir < s.numDirs) (hd : d < s.numDirs)
    (hspan : s.Spans d t) (honly : ∀ e < s.numDirs, e ≠ d → ¬ s.Spans e t) :
    (s.dirNumber t).1 =
      (findRange t (s.dir d).ranges).map fun (tr, fsecs) => (d, tr, fsecs) := by
  have hn : 0 < s.numDirs := Nat.zero_lt_of_lt hcur
  have hat := ringAt_ringOffset hcur hd
  have hloop := dirLoop_eq (t := t) hcur (ringOffset_lt hn s.curDir d) (hat.symm ▸ hspan) (by
    intro k' hk' hspan'
    have hk'n := lt_trans hk' (ringOffset_lt hn s.curDir d)
    have heq : ringAt s.numDirs s.curDir k' = d := by
      by_contra hne
      exact honly _ (ringAt_lt hn _ _) hne hspan'
    rw [← heq, ringOffset_ringAt hcur hk'n] at hk'
    exact absurd hk' (lt_irrefl k'))
  rw [dirNumber_fst, hloop, hat]

/-! ## A registration -/

/-- The first second of a directory is set to that of the new file, or to none, or kept. -/
theorem minTime_updateDir (s : Filesys) (gps period : ℤ) (d : ℕ) :
    ((s.updateDir gps period d).dir d).minTime = gps ∨
      ((s.updateDir gps period d).dir d).minTime = 0 ∨
      ((s.updateDir gps period d).dir d).minTime = (s.dir d).minTime := by
  have hfirst : ((s.firstUpdate gps d).dir d).minTime = gps ∨
      ((s.firstUpdate gps d).dir d).minTime = (s.dir d).minTime := by
    unfold firstUpdate
    split
    next => exact Or.inr rfl
    next =>
      by_cases hzero : (s.dir d).minTime = 0
      · simp [hzero]
      · simp [hzero]
  rw [(dir_updateDir_self s gps period d).2.2]
  unfold switchDir
  cases hclean : (s.firstUpdate gps d).cleaned d with
  | none => exact hfirst.imp id Or.inr
  | some next =>
    simp only
    by_cases hnext : next = d
    · rw [hnext, Function.update_self]
      exact Or.inr (Or.inl rfl)
    · rw [Function.update_of_ne (Ne.symm hnext), Function.update_self]
      exact Or.inl rfl

theorem curUpdateDir_updateDir (s : Filesys) (gps period : ℤ) (d : ℕ) :
    (s.updateDir gps period d).curUpdateDir = some d ∨
      (s.updateDir gps period d).curUpdateDir = s.curUpdateDir := by
  have hfirst : (s.firstUpdate gps d).curUpdateDir = some d ∨
      (s.firstUpdate gps d).curUpdateDir = s.curUpdateDir := by
    unfold firstUpdate
    split
    next cur hcur => exact Or.inr rfl
    next => exact Or.inl rfl
  show ((s.firstUpdate gps d).switchDir gps d).curUpdateDir = _ ∨
    ((s.firstUpdate gps d).switchDir gps d).curUpdateDir = _
  unfold switchDir
  split
  next => exact hfirst
  next => exact Or.inl rfl

variable {f : TrendFramer}

theorem EarlierRange.mono {r : Range} {gps' : ℤ} (h : EarlierRange f gps r) (hle : gps ≤ gps') :
    EarlierRange f gps' r :=
  ⟨h.wellFormed, le_trans h.ends hle, h.length⟩

theorem earlierRange_addFile (hold : ∀ r ∈ rangesOf blist, EarlierRange f gps r) :
    ∀ r ∈ rangesOf (addFile blist gps f.registeredSecs), EarlierRange f (gps + f.namedSecs) r := by
  have hpos : (0 : ℤ) < f.registeredSecs := Nat.cast_pos.mpr f.registered_pos
  have hreg : (f.registeredSecs : ℤ) ≤ f.namedSecs := Nat.cast_le.mpr f.registered_le
  have hlater : ∀ r ∈ rangesOf blist, EarlierRange f (gps + f.namedSecs) r :=
    fun r hr => (hold r hr).mono (by omega)
  have hput : EarlierRange f (gps + f.namedSecs) (.put f.registeredSecs gps) :=
    ⟨wellFormed_put hpos gps, by show gps + (f.registeredSecs : ℤ) ≤ _; omega, Or.inl rfl⟩
  have hmem : ∀ {rb : RangeBlock} {rest : List RangeBlock} {r : Range},
      r ∈ rangesOf (rb :: rest) ↔ r ∈ rb.older ∨ r = rb.current ∨ r ∈ rangesOf rest := by
    intro rb rest r
    simp only [rangesOf, RangeBlock.d, List.flatMap_cons, List.mem_append, List.mem_singleton,
      or_assoc]
  intro r hr
  cases blist with
  | nil =>
    rcases hmem.mp hr with hnone | hnew | hnone
    · exact absurd hnone List.not_mem_nil
    · exact hnew ▸ hput
    · exact absurd hnone List.not_mem_nil
  | cons cur rest =>
    unfold addFile at hr
    simp only at hr
    split at hr
    next hend =>
      rcases hmem.mp hr with holder | hext | hrest
      · exact hlater r (hmem.mpr (Or.inl holder))
      · have hcur := hold cur.current (hmem.mpr (Or.inr (Or.inl rfl)))
        rw [hext]
        refine ⟨hcur.wellFormed.extend, ?_, hcur.length⟩
        show cur.current.maxTime + cur.current.fileSecs ≤ _
        rcases hcur.length with hlen | hlen
        all_goals omega
      · exact hlater r (hmem.mpr (Or.inr (Or.inr hrest)))
    next =>
      split at hr
      next =>
        rcases hmem.mp hr with hnone | hnew | hrest
        · exact absurd hnone List.not_mem_nil
        · exact hnew ▸ hput
        · exact hlater r hrest
      next =>
        rcases hmem.mp hr with holder | hnew | hrest
        · rcases List.mem_append.mp holder with hold' | hlast
          · exact hlater r (hmem.mpr (Or.inl hold'))
          · exact hlater r (hmem.mpr (Or.inr (Or.inl (List.mem_singleton.mp hlast))))
        · exact hnew ▸ hput
        · exact hlater r (hmem.mpr (Or.inr (Or.inr hrest)))

section

variable (h : EarlierFiles f s gps)

include h

theorem EarlierFiles.numDirs_pos : 0 < s.numDirs := Nat.zero_lt_of_lt h.curDir_lt

theorem EarlierFiles.dnum_lt : s.dnum < s.numDirs := by
  unfold dnum
  cases hcur : s.curUpdateDir with
  | none => exact h.numDirs_pos
  | some cur =>
    show (if _ then (if _ then _ else _) else _) < _
    rw [if_pos h.numDirs_pos]
    split
    next => exact Nat.mod_lt _ h.numDirs_pos
    next => exact h.cur_lt cur hcur

theorem EarlierFiles.times_other (period : ℤ) {e : ℕ} (he : e < s.numDirs) (hne : e ≠ d) :
    ((s.updateDir gps period d).dir e).minTime ≤ gps ∧
      ((s.updateDir gps period d).dir e).maxTime ≤ gps := by
  rw [dir_updateDir_of_ne hne]
  split
  next => exact ⟨h.nonneg, h.nonneg⟩
  next => exact h.times e he

/-- The times of the directory of the new file. -/
theorem EarlierFiles.times_self (period : ℤ) (hd : d < s.numDirs) :
    ((s.updateDir gps period d).dir d).minTime ≤ gps ∧
      ((s.updateDir gps period d).dir d).maxTime = gps + period := by
  refine ⟨?_, (dir_updateDir_self s gps period d).2.1⟩
  rcases minTime_updateDir s gps period d with hmin | hmin | hmin
  · exact le_of_eq hmin
  · exact hmin ▸ h.nonneg
  · exact hmin ▸ (h.times d hd).1

/-- Only the directory of the new file spans a second of it or behind it. -/
theorem EarlierFiles.spans_iff {period : ℤ} (hd : d < s.numDirs) (hle : gps ≤ t) {e : ℕ}
    (he : e < s.numDirs) :
    (s.updateDir gps period d).Spans e t ↔ e = d ∧ t < gps + period := by
  unfold Spans
  by_cases hne : e = d
  · subst hne
    obtain ⟨hmin, hmax⟩ := h.times_self period hd
    rw [hmax]
    exact ⟨fun hand => ⟨rfl, hand.2⟩, fun hand => ⟨le_trans hmin hle, hand.2⟩⟩
  · obtain ⟨-, hmax⟩ := h.times_other period he hne
    constructor
    · intro hand
      exact absurd hand.2 (not_lt.mpr (le_trans hmax hle))
    · exact fun hand => absurd hand.1 hne

theorem EarlierFiles.found_iff :
    FileFound (s.updateDir gps f.registeredSecs s.dnum) gps f.namedSecs s.dnum ↔
      f.registeredSecs = f.namedSecs := by
  have hd := h.dnum_lt
  have hpos : (0 : ℤ) < f.registeredSecs := Nat.cast_pos.mpr f.registered_pos
  obtain ⟨hnum, hcur⟩ := numDirs_updateDir s gps f.registeredSecs s.dnum
  have hcur' : (s.updateDir gps f.registeredSecs s.dnum).curDir <
      (s.updateDir gps f.registeredSecs s.dnum).numDirs := by
    rw [hnum, hcur]
    exact h.curDir_lt
  constructor
  · intro hfound
    by_contra hne
    have hlt : f.registeredSecs < f.namedSecs := lt_of_le_of_ne f.registered_le hne
    -- the second behind those with which the file was registered
    obtain ⟨fsecs, hsome⟩ := hfound (gps + f.registeredSecs) (by omega) (by omega)
    have hnone : ((s.updateDir gps f.registeredSecs s.dnum).dirNumber
        (gps + f.registeredSecs)).1 = none := by
      rw [dirNumber_fst]
      apply dirLoop_none (Nat.zero_lt_of_lt hcur') _ hcur'
      intro e he hspan
      rw [hnum] at he
      have hboth := (h.spans_iff hd (by omega) he).mp hspan
      exact absurd hboth.2 (lt_irrefl _)
    exact absurd (hnone.symm.trans hsome) (Option.some_ne_none _).symm
  · intro heq t hle hlt
    rw [← heq] at hlt
    have hspan := (h.spans_iff hd hle hd).mpr ⟨rfl, hlt⟩
    have honly : ∀ e < (s.updateDir gps f.registeredSecs s.dnum).numDirs, e ≠ s.dnum →
        ¬ (s.updateDir gps f.registeredSecs s.dnum).Spans e t := by
      intro e he hne hspan'
      rw [hnum] at he
      exact hne ((h.spans_iff hd hle he).mp hspan').1
    have hrange : findRange t ((s.updateDir gps f.registeredSecs s.dnum).dir s.dnum).ranges =
        some (gps, (f.registeredSecs : ℤ)) := by
      unfold Dir.ranges
      rw [(dir_updateDir_self s gps f.registeredSecs s.dnum).1]
      have hold := h.ranges s.dnum hd
      refine findRange_addFile hpos (fun r hr => (hold r hr).wellFormed) (fun r hr => ?_)
        (fun r hr => (hold r hr).ends) hle hlt
      rcases (hold r hr).length with hreg | hname
      · exact hreg
      · rw [hname, heq]
    refine ⟨f.registeredSecs, ?_⟩
    rw [dirNumber_of_spans hcur' (hnum.symm ▸ hd) hspan honly, hrange]
    rfl

/-- The map after a registration. -/
theorem EarlierFiles.register :
    EarlierFiles f (s.updateDir gps f.registeredSecs s.dnum) (gps + f.namedSecs) := by
  have hd := h.dnum_lt
  have hreg : (f.registeredSecs : ℤ) ≤ f.namedSecs := Nat.cast_le.mpr f.registered_le
  have hgps : gps ≤ gps + f.namedSecs := by omega
  obtain ⟨hnum, hcur⟩ := numDirs_updateDir s gps f.registeredSecs s.dnum
  exact
    { nonneg := le_trans h.nonneg hgps
      curDir_lt := by
        rw [hnum, hcur]
        exact h.curDir_lt
      cur_lt := by
        intro cur hsome
        rw [hnum]
        rcases curUpdateDir_updateDir s gps f.registeredSecs s.dnum with hnew | hold
        · rw [hnew] at hsome
          exact Option.some.inj hsome ▸ hd
        · exact h.cur_lt cur (hold.symm.trans hsome)
      times := by
        intro e he
        rw [hnum] at he
        by_cases hne : e = s.dnum
        · rw [hne]
          obtain ⟨hmin, hmax⟩ := h.times_self f.registeredSecs hd
          rw [hmax]
          exact ⟨le_trans hmin hgps, by omega⟩
        · obtain ⟨hmin, hmax⟩ := h.times_other f.registeredSecs he hne
          exact ⟨le_trans hmin hgps, le_trans hmax hgps⟩
      ranges := by
        intro e he r hr
        rw [hnum] at he
        by_cases hne : e = s.dnum
        · rw [hne] at hr
          unfold Dir.ranges at hr
          rw [(dir_updateDir_self s gps f.registeredSecs s.dnum).1] at hr
          exact earlierRange_addFile (h.ranges s.dnum hd) r hr
        · rw [dir_updateDir_of_ne hne] at hr
          split at hr
          next => exact absurd hr List.not_mem_nil
          next => exact (h.ranges e he r hr).mono hgps }

/-- A query moves nothing but `cur_dir`. -/
theorem EarlierFiles.query (t : ℤ) : EarlierFiles f (s.dirNumber t).2 gps := by
  unfold dirNumber
  split
  next => exact h
  next fdir tr fsecs hloop =>
    exact { h with curDir_lt := (dirLoop_some h.numDirs_pos h.curDir_lt hloop).1 }

theorem EarlierFiles.mono {gps' : ℤ} (hle : gps ≤ gps') : EarlierFiles f s gps' where
  nonneg := le_trans h.nonneg hle
  curDir_lt := h.curDir_lt
  cur_lt := h.cur_lt
  times := fun d hd => ⟨le_trans (h.times d hd).1 hle, le_trans (h.times d hd).2 hle⟩
  ranges := fun d hd r hr => (h.ranges d hd r hr).mono hle

end

/-! ## Runs -/

theorem earlierFiles_start {n : ℕ} (hn : 0 < n) (filesPerDir : ℤ) :
    EarlierFiles f (start n filesPerDir) 0 where
  nonneg := le_refl 0
  curDir_lt := hn
  cur_lt := nofun
  times := fun _ _ => ⟨le_refl 0, le_refl 0⟩
  ranges := fun _ _ _ hr => absurd hr List.not_mem_nil

/-- Earlier files of the framer, each beginning at or after the end of the one before it, and
queries. -/
theorem EarlierFiles.run {acts : List FilesysAction} {earliest : ℤ} {gps : ℕ}
    (h : EarlierFiles f s earliest)
    (hspaced : Spaced (fun _ => f.namedSecs) earliest (acts ++ [.write gps])) :
    ∃ tr u, PvLib.run (step fun _ => f.registeredSecs) s acts = some (tr, u) ∧
      EarlierFiles f u gps := by
  induction acts generalizing s earliest with
  | nil => exact ⟨[], s, rfl, h.mono hspaced.1⟩
  | cons act acts ih =>
    cases act with
    | write gps' =>
      obtain ⟨hle, hspaced⟩ := hspaced
      obtain ⟨tr, u, hrun, hu⟩ := ih (h.mono hle).register hspaced
      refine ⟨.wrote ⟨gps', s.dnum⟩ ((s.firstUpdate gps' s.dnum).cleaned s.dnum) :: tr, u, ?_, hu⟩
      simp only [PvLib.run, step, hrun]
    | query t =>
      obtain ⟨tr, u, hrun, hu⟩ := ih (h.query t) hspaced
      refine ⟨.answered (s.dirNumber t).1 :: tr, u, ?_, hu⟩
      simp only [PvLib.run, step, hrun]

/-- Whatever files of the framer there are before, a new file is found for each second that its
name gives it exactly if those are as many as it is registered with. -/
theorem trend_file_found_iff (f : TrendFramer) (s : Filesys) (earliest : ℤ)
    (acts : List FilesysAction) (gps : ℕ) (hs : EarlierFiles f s earliest)
    (hspaced : Spaced (fun _ => f.namedSecs) earliest (acts ++ [.write gps])) :
    ∃ tr u, PvLib.run (step fun _ => f.registeredSecs) s acts = some (tr, u) ∧
      (FileFound (u.updateDir gps f.registeredSecs u.dnum) gps f.namedSecs u.dnum ↔
        f.registeredSecs = f.namedSecs) := by
  obtain ⟨tr, u, hrun, hu⟩ := hs.run hspaced
  exact ⟨tr, u, hrun, hu.found_iff⟩

/-- Second trend frames of half an hour, from an empty map on. -/
theorem trend_file_found_three : ∃ tr u,
    PvLib.run (step fun _ => 1800) (start 2 1) [.write 3600, .query 4000, .write 5400] =
      some (tr, u) ∧
      FileFound (u.updateDir 9000 1800 u.dnum) 9000 1800 u.dnum := by
  obtain ⟨tr, u, hrun, hiff⟩ := trend_file_found_iff (.framer 1800 (by decide)) (start 2 1) 0
    [.write 3600, .query 4000, .write 5400] 9000 (earlierFiles_start (by decide) 1)
    ⟨by decide, by decide, by decide, trivial⟩
  exact ⟨tr, u, hrun, hiff.mpr rfl⟩

/-- The second minute of a minute trend file. -/
theorem trend_file_minute_lost :
    ¬ FileFound ((start 1 3600).updateDir 3600 TrendFramer.minuteFramer.registeredSecs 0) 3600
      TrendFramer.minuteFramer.namedSecs 0 := by
  intro h
  obtain ⟨fsecs, hsome⟩ := h 3660 (by decide) (by decide)
  have hnone : (((start 1 3600).updateDir 3600 TrendFramer.minuteFramer.registeredSecs 0).dirNumber
      3660).1 = none := by decide
  exact absurd (hnone.symm.trans hsome) (Option.some_ne_none _).symm

end Filesys

end AdvLigoRts.Daqd
