import Mathlib.Data.List.Pairwise
import AdvLigoRts.Daqd.Filesys
import AdvLigoRts.Lib.Ring

/-!
# The file map answers every query

The invariant relates the map to the list of files that were recorded and not cleaned since. `DirOk`
is about one directory: its ranges stand for its files, and its two times are the ends of what it
holds.
-/

namespace AdvLigoRts.Daqd

open PvLib

def Range.run (r : Range) : IntervalRun := ⟨r.fileSecs, r.minTime, r.maxTime⟩

namespace Filesys

variable {period gps t : ℤ} {secs : ℤ → ℤ} {s : Filesys} {blist : List RangeBlock}
  {files : List RecordedFile}

/-! ## Ranges -/

theorem findRange_eq (t : ℤ) (rs : List Range) : findRange t rs = findRun (rs.map Range.run) t := by
  induction rs with
  | nil => rfl
  | cons r rs ih =>
    unfold findRange
    split
    · next h =>
      have hcov : (Range.run r).Covers t := h
      simp only [findRun, List.map_cons, List.find?_cons, hcov, decide_true, Option.map_some]
      rfl
    · next h =>
      have hcov : ¬ (Range.run r).Covers t := h
      simp only [findRun, List.map_cons, List.find?_cons, hcov, decide_false] at ih ⊢
      exact ih

/-- The ranges are runs of files. -/
def RangesOk (rs : List Range) : Prop := ∀ r ∈ rs, r.run.WellFormed

/-- A file of length `len` that begins at `g` belongs to one of the ranges. -/
def HasFile (rs : List Range) (g len : ℤ) : Prop := ∃ r ∈ rs, r.run.Has g ∧ r.fileSecs = len

def rangesOf (blist : List RangeBlock) : List Range := blist.flatMap RangeBlock.d

theorem rangesOk_cons {rb : RangeBlock} : RangesOk (rangesOf (rb :: blist)) ↔
    RangesOk rb.older ∧ rb.current.run.WellFormed ∧ RangesOk (rangesOf blist) := by
  simp only [RangesOk, rangesOf, RangeBlock.d, List.flatMap_cons, List.mem_append,
    List.mem_singleton, or_imp, forall_and, forall_eq, and_assoc]

theorem hasFile_append {rs rs' : List Range} {g len : ℤ} :
    HasFile (rs ++ rs') g len ↔ HasFile rs g len ∨ HasFile rs' g len := by
  simp only [HasFile, List.mem_append, or_and_right, exists_or]

theorem hasFile_singleton {r : Range} {g len : ℤ} :
    HasFile [r] g len ↔ r.run.Has g ∧ r.fileSecs = len := by
  simp only [HasFile, List.mem_singleton, exists_eq_left]

theorem hasFile_cons {rb : RangeBlock} {g len : ℤ} : HasFile (rangesOf (rb :: blist)) g len ↔
    HasFile rb.older g len ∨ (rb.current.run.Has g ∧ rb.current.fileSecs = len) ∨
      HasFile (rangesOf blist) g len := by
  rw [rangesOf, List.flatMap_cons, RangeBlock.d, hasFile_append, hasFile_append,
    hasFile_singleton, or_assoc]
  rfl

theorem wellFormed_put {len : ℤ} (hlen : 0 < len) (gps : ℤ) :
    (Range.put len gps).run.WellFormed :=
  IntervalRun.wellFormed_single hlen gps

theorem has_put {len : ℤ} (hlen : 0 < len) {g l : ℤ} :
    (Range.put len gps).run.Has g ∧ (Range.put len gps).fileSecs = l ↔ g = gps ∧ l = len := by
  rw [show (Range.put len gps).run = IntervalRun.single len gps from rfl,
    IntervalRun.has_single hlen, eq_comm (b := l)]
  rfl

theorem hasFile_new {len : ℤ} (hlen : 0 < len) {g l : ℤ} :
    HasFile (rangesOf (.new len gps :: blist)) g l ↔
      (g = gps ∧ l = len) ∨ HasFile (rangesOf blist) g l := by
  have hnone : ¬ HasFile (RangeBlock.new len gps).older g l := nofun
  rw [hasFile_cons, or_iff_right hnone]
  exact or_congr_left (has_put hlen)

theorem rangesOk_addFile {len : ℤ} (hlen : 0 < len) (h : RangesOk (rangesOf blist)) :
    RangesOk (rangesOf (addFile blist gps len)) := by
  have hput := wellFormed_put hlen gps
  cases blist with
  | nil => exact rangesOk_cons.mpr ⟨by simp [RangesOk, RangeBlock.new], hput, h⟩
  | cons cur rest =>
    obtain ⟨holder, hcur, hrest⟩ := rangesOk_cons.mp h
    unfold addFile
    simp only
    split
    · exact rangesOk_cons.mpr ⟨holder, hcur.extend, hrest⟩
    · split
      · exact rangesOk_cons.mpr ⟨by simp [RangesOk, RangeBlock.new], hput, h⟩
      · refine rangesOk_cons.mpr ⟨?_, hput, hrest⟩
        intro r hr
        obtain hr | hr := List.mem_append.mp hr
        · exact holder r hr
        · obtain rfl := List.mem_singleton.mp hr
          exact hcur

/-- The current range ends at `gps` only if its files have the length `len`. -/
def FitsCurrent (blist : List RangeBlock) (gps len : ℤ) : Prop :=
  ∀ cur ∈ blist.head?, cur.current.maxTime = gps → cur.current.fileSecs = len

theorem hasFile_addFile {len : ℤ} (hlen : 0 < len) (h : RangesOk (rangesOf blist))
    (hfits : FitsCurrent blist gps len) {g l : ℤ} :
    HasFile (rangesOf (addFile blist gps len)) g l ↔
      HasFile (rangesOf blist) g l ∨ g = gps ∧ l = len := by
  have hput : (Range.put len gps).run.Has g ∧ (Range.put len gps).fileSecs = l ↔
      g = gps ∧ l = len := has_put hlen
  cases blist with
  | nil =>
    rw [addFile, hasFile_new hlen]
    exact or_comm
  | cons cur rest =>
    obtain ⟨holder, hcur, hrest⟩ := rangesOk_cons.mp h
    unfold addFile
    simp only
    split
    · next hgps =>
      -- one more file at the end of the current range
      have hsecs := hfits cur rfl hgps
      have hextend := hcur.has_extend (g := g)
      have hstop : cur.current.run.stop = gps := hgps
      rw [hasFile_cons, hasFile_cons,
        show (cur.currentMaxTimeAdd cur.current.fileSecs).current.run
          = cur.current.run.extend from rfl, hextend, hstop]
      simp only [RangeBlock.currentMaxTimeAdd, hsecs]
      tauto
    · split
      · rw [hasFile_new hlen]
        exact or_comm
      · rw [hasFile_cons, hasFile_cons, RangeBlock.put, RangeBlock.d, hasFile_append,
          hasFile_singleton, hput]
        tauto

/-! ## One directory -/

/-- The two times of a directory are the ends of the files `fs` that it holds, given by first second
and length. -/
structure TimesOk (fs : ℤ → ℤ → Prop) (d : Dir) : Prop where
  bounds : ∀ g len, fs g len → d.minTime ≤ g ∧ g + len ≤ d.maxTime
  first : ∀ g len, fs g len → ∃ len', fs d.minTime len'
  last : ∀ g len, fs g len → ∃ g' len', fs g' len' ∧ d.maxTime = g' + len'
  empty : (∀ g len, ¬ fs g len) → d.minTime = 0 ∧ d.maxTime = 0

/-- The ranges stand for the files `fs`. -/
structure RangesFit (fs : ℤ → ℤ → Prop) (rs : List Range) : Prop where
  ranges : RangesOk rs
  hasFile : ∀ g len, HasFile rs g len ↔ fs g len

/-- A directory holds the files `fs`. -/
structure DirOk (fs : ℤ → ℤ → Prop) (d : Dir) : Prop extends TimesOk fs d, RangesFit fs d.ranges

theorem timesOk_empty : TimesOk (fun _ _ => False) {} where
  bounds := nofun
  first := nofun
  last := nofun
  empty := fun _ => ⟨rfl, rfl⟩

theorem rangesFit_nil : RangesFit (fun _ _ => False) [] where
  ranges := nofun
  hasFile := by simp [HasFile]

/-- Files without a gap between them have one length. -/
def Uniform (fs : ℤ → ℤ → Prop) : Prop := ∀ g len len', fs g len → fs (g + len) len' → len = len'

/-- The current range ends with one of the files. -/
theorem RangesFit.last {fs : ℤ → ℤ → Prop} (h : RangesFit fs (rangesOf blist)) {cur : RangeBlock}
    (hcur : cur ∈ blist.head?) :
    fs (cur.current.maxTime - cur.current.fileSecs) cur.current.fileSecs := by
  obtain ⟨rest, rfl⟩ := List.head?_eq_some_iff.mp hcur
  have hwf := (rangesOk_cons.mp h.ranges).2.1
  exact (h.hasFile _ _).mp (hasFile_cons.mpr (Or.inr (Or.inl ⟨hwf.has_last, rfl⟩)))

theorem RangesFit.add {fs : ℤ → ℤ → Prop} (h : RangesFit fs (rangesOf blist)) (hp : 0 < period)
    (hadjacent : ∀ g len, fs g len → g + len = gps → len = period) :
    RangesFit (fun g len => fs g len ∨ g = gps ∧ len = period)
      (rangesOf (addFile blist gps period)) := by
  refine ⟨rangesOk_addFile hp h.ranges, fun g len => ?_⟩
  rw [← h.hasFile]
  refine hasFile_addFile hp h.ranges fun cur hcur hend => ?_
  exact hadjacent _ _ (h.last hcur) (by omega)

theorem TimesOk.add {fs : ℤ → ℤ → Prop} {d d' : Dir} (h : TimesOk fs d) (hp : 0 < period)
    (hlater : ∀ g len, fs g len → g + len ≤ gps) (hpos : ∀ g len, fs g len → 0 < len)
    (hmax : d'.maxTime = gps + period)
    (hmin : (∃ g len, fs g len) ∧ d'.minTime = d.minTime ∨
      (∀ g len, ¬ fs g len) ∧ d'.minTime = gps) :
    TimesOk (fun g len => fs g len ∨ g = gps ∧ len = period) d' where
  bounds := by
    rintro g len (hg | ⟨rfl, rfl⟩)
    · have hold := h.bounds g len hg
      have hend := hlater g len hg
      rw [hmax]
      obtain ⟨-, hmin⟩ | ⟨hno, -⟩ := hmin
      · omega
      · exact absurd hg (hno g len)
    · rw [hmax]
      obtain ⟨⟨g', len', hg'⟩, hmin⟩ | ⟨-, hmin⟩ := hmin
      · have hold := h.bounds g' len' hg'
        have hend := hlater g' len' hg'
        have hlen := hpos g' len' hg'
        omega
      · omega
  first := by
    intro _ _ _
    obtain ⟨⟨g', len', hg'⟩, hmin⟩ | ⟨-, hmin⟩ := hmin
    · obtain ⟨len'', hfirst⟩ := h.first g' len' hg'
      exact ⟨len'', Or.inl (hmin ▸ hfirst)⟩
    · exact ⟨period, Or.inr ⟨hmin, rfl⟩⟩
  last := fun _ _ _ => ⟨gps, period, Or.inr ⟨rfl, rfl⟩, hmax⟩
  empty := fun hno => absurd (Or.inr ⟨rfl, rfl⟩) (hno gps period)

/-! ## The search -/

/-- Directory `d` spans the second `t`. -/
def Spans (s : Filesys) (d : ℕ) (t : ℤ) : Prop :=
  (s.dir d).minTime ≤ t ∧ (s.dir d).maxTime > t

/-- An answer comes from a range of a directory. -/
theorem dirLoop_some {i fdir d : ℕ} {g len : ℤ} (hn : 0 < s.numDirs) (hfdir : fdir < s.numDirs)
    (h : s.dirLoop t i fdir = some (d, g, len)) :
    d < s.numDirs ∧ findRange t (s.dir d).ranges = some (g, len) := by
  induction i generalizing fdir with
  | zero => cases h
  | succ i ih =>
    unfold dirLoop at h
    split at h
    · obtain ⟨⟨g', len'⟩, hfind, heq⟩ := Option.map_eq_some_iff.mp h
      cases heq
      exact ⟨hfdir, hfind⟩
    · exact ih (Nat.mod_lt _ hn) h

/-- The search stops at the first directory that spans `t`. -/
theorem dirLoop_eq {i fdir k : ℕ} (hfdir : fdir < s.numDirs) (hk : k < i)
    (hspan : s.Spans (ringAt s.numDirs fdir k) t)
    (hbefore : ∀ k' < k, ¬ s.Spans (ringAt s.numDirs fdir k') t) :
    s.dirLoop t i fdir = (findRange t (s.dir (ringAt s.numDirs fdir k)).ranges).map
      fun (tr, fsecs) => (ringAt s.numDirs fdir k, tr, fsecs) := by
  induction i generalizing fdir k with
  | zero => exact absurd hk (Nat.not_lt_zero k)
  | succ i ih =>
    have hzero := ringAt_zero hfdir
    unfold dirLoop
    cases k with
    | zero =>
      rw [hzero] at hspan ⊢
      exact if_pos hspan
    | succ k =>
      have hno := hbefore 0 (Nat.succ_pos k)
      rw [hzero, Spans] at hno
      rw [if_neg hno]
      have hshift := ringAt_succ_start s.numDirs fdir
      rw [← hshift k] at hspan ⊢
      refine ih (Nat.mod_lt _ (Nat.zero_lt_of_lt hfdir)) (Nat.lt_of_succ_lt_succ hk) hspan ?_
      intro k' hk'
      rw [hshift k']
      exact hbefore (k' + 1) (Nat.succ_lt_succ hk')

/-- The files of the directories: no two files share a second, and the files of one directory
come before all those of another. -/
structure Apart (n : ℕ) (fs : ℕ → ℤ → ℤ → Prop) : Prop where
  files : ∀ d < n, ∀ g len g' len', fs d g len → fs d g' len' →
    (g = g' ∧ len = len') ∨ g + len ≤ g' ∨ g' + len' ≤ g
  dirs : ∀ d < n, ∀ d' < n, d ≠ d' →
    (∀ g len g' len', fs d g len → fs d' g' len' → g + len ≤ g') ∨
      ∀ g len g' len', fs d g len → fs d' g' len' → g' + len' ≤ g

section Search

variable {fs : ℕ → ℤ → ℤ → Prop} {d : ℕ} {g len : ℤ}

theorem findRange_iff (hdirs : ∀ d < s.numDirs, DirOk (fs d) (s.dir d))
    (hapart : Apart s.numDirs fs) (hd : d < s.numDirs) :
    findRange t (s.dir d).ranges = some (g, len) ↔ fs d g len ∧ g ≤ t ∧ t < g + len := by
  have hok := hdirs d hd
  rw [findRange_eq, findRun_eq_some]
  · simp only [List.mem_map, exists_exists_and_eq_and]
    constructor
    · rintro ⟨r, hr, hhas, rfl, hle, hlt⟩
      exact ⟨(hok.hasFile g _).mp ⟨r, hr, hhas, rfl⟩, hle, hlt⟩
    · rintro ⟨hfile, hle, hlt⟩
      obtain ⟨r, hr, hhas, hlen⟩ := (hok.hasFile g len).mpr hfile
      exact ⟨r, hr, hhas, hlen.symm, hle, hlt⟩
  · intro r hr
    obtain ⟨r', hr', rfl⟩ := List.mem_map.mp hr
    exact hok.ranges r' hr'
  · rintro r hr r' hr' g g' hg hg' hle hlt hle' hlt'
    obtain ⟨q, hq, rfl⟩ := List.mem_map.mp hr
    obtain ⟨q', hq', rfl⟩ := List.mem_map.mp hr'
    have hfile := (hok.hasFile g _).mp ⟨q, hq, hg, rfl⟩
    have hfile' := (hok.hasFile g' _).mp ⟨q', hq', hg', rfl⟩
    obtain heq | hlt | hlt := hapart.files d hd _ _ _ _ hfile hfile'
    · exact heq
    all_goals
      simp only [Range.run] at *
      omega

/-- Only the directory of the file spans its seconds. -/
theorem spans_eq (hdirs : ∀ d < s.numDirs, DirOk (fs d) (s.dir d))
    (hapart : Apart s.numDirs fs) (hd : d < s.numDirs) (hfile : fs d g len) (hle : g ≤ t)
    (hlt : t < g + len) {d' : ℕ} (hd' : d' < s.numDirs) (hspan : s.Spans d' t) : d' = d := by
  by_contra hne
  have hok := hdirs d' hd'
  obtain ⟨hmin, hmax⟩ := hspan
  by_cases hempty : ∀ g len, ¬ fs d' g len
  · obtain ⟨hzero, hzero'⟩ := hok.empty hempty
    omega
  · push Not at hempty
    obtain ⟨g', len', hg'⟩ := hempty
    obtain ⟨len1, hfirst⟩ := hok.first g' len' hg'
    obtain ⟨g2, len2, hlast, hend⟩ := hok.last g' len' hg'
    obtain hbefore | hafter := hapart.dirs d hd d' hd' (Ne.symm hne)
    · have := hbefore _ _ _ _ hfile hfirst
      omega
    · have := hafter _ _ _ _ hfile hlast
      omega

theorem dirNumber_fst (s : Filesys) (t : ℤ) :
    (s.dirNumber t).1 = s.dirLoop t s.numDirs s.curDir := by
  unfold dirNumber
  split <;> simp [*]

/-- `dir_number` answers with the file that holds the second. -/
theorem dirNumber_iff (hcur : s.curDir < s.numDirs)
    (hdirs : ∀ d < s.numDirs, DirOk (fs d) (s.dir d)) (hapart : Apart s.numDirs fs) :
    (s.dirNumber t).1 = some (d, g, len) ↔
      d < s.numDirs ∧ fs d g len ∧ g ≤ t ∧ t < g + len := by
  have hn : 0 < s.numDirs := Nat.zero_lt_of_lt hcur
  rw [dirNumber_fst]
  constructor
  · intro h
    obtain ⟨hd, hfind⟩ := dirLoop_some hn hcur h
    exact ⟨hd, (findRange_iff hdirs hapart hd).mp hfind⟩
  · rintro ⟨hd, hfile, hle, hlt⟩
    have hat := ringAt_ringOffset hcur hd
    have hoff := ringOffset_lt hn s.curDir d
    have hbounds := (hdirs d hd).bounds g len hfile
    have hspan : s.Spans d t := ⟨by omega, by omega⟩
    rw [dirLoop_eq hcur hoff (by rwa [hat]), hat, (findRange_iff hdirs hapart hd).mpr
      ⟨hfile, hle, hlt⟩]
    · rfl
    · intro k hk hspan'
      -- a directory that is tried before spans another stretch
      have hsame := spans_eq hdirs hapart hd hfile hle hlt (ringAt_lt hn _ _) hspan'
      rw [← hat, ringAt_inj hcur (by omega) hoff] at hsame
      omega

end Search

/-! ## The order of the directories -/

/-- Where a directory comes in the lap that begins after the current one. -/
def lap (n cur d : ℕ) : ℕ := ringOffset n ((cur + 1) % n) d

/-- The files come in the order of their directories. -/
structure Laps (n cur : ℕ) (files : List RecordedFile) : Prop where
  cur_lt : cur < n
  inOrder : files.Pairwise fun f g => lap n cur f.dir ≤ lap n cur g.dir
  next_empty : 1 < n → ∀ f ∈ files, f.dir ≠ (cur + 1) % n
  inUse : ∀ f ∈ files, ∀ d < n, lap n cur f.dir ≤ lap n cur d → ∃ g ∈ files, g.dir = d

section Lap

variable {n cur d d' : ℕ}

theorem lap_lt (hcur : cur < n) (d : ℕ) : lap n cur d < n :=
  ringOffset_lt (Nat.zero_lt_of_lt hcur) _ d

theorem lap_inj (hcur : cur < n) (hd : d < n) (hd' : d' < n) :
    lap n cur d = lap n cur d' ↔ d = d' :=
  ringOffset_inj (Nat.mod_lt _ (Nat.zero_lt_of_lt hcur)) hd hd'

/-- The current directory is the last one. -/
theorem lap_cur (hcur : cur < n) : lap n cur cur = n - 1 := by
  rw [lap, ringOffset_succ_start hcur hcur, ringOffset_self, if_pos rfl]

theorem lap_eq_zero (hcur : cur < n) (hd : d < n) : lap n cur d = 0 ↔ d = (cur + 1) % n := by
  have hnext : (cur + 1) % n < n := Nat.mod_lt _ (Nat.zero_lt_of_lt hcur)
  rw [← ringOffset_self n ((cur + 1) % n), lap, ringOffset_inj hnext hd hnext]

theorem lap_switch (hcur : cur < n) (hd : d < n) : lap n ((cur + 1) % n) d
    = if lap n cur d = 0 then n - 1 else lap n cur d - 1 :=
  ringOffset_succ_start (Nat.mod_lt _ (Nat.zero_lt_of_lt hcur)) hd

theorem next_ne (hn : 1 < n) (hcur : cur < n) : (cur + 1) % n ≠ cur := by
  intro h
  rcases Nat.lt_or_ge (cur + 1) n with hlt | hge
  · rw [Nat.mod_eq_of_lt hlt] at h
    omega
  · obtain rfl : n = cur + 1 := by omega
    rw [Nat.mod_self] at h
    omega

end Lap

theorem laps_first {n : ℕ} (hn : 0 < n) (gps : ℤ) : Laps n 0 [⟨gps, 0⟩] where
  cur_lt := hn
  inOrder := List.pairwise_singleton _ _
  next_empty hn f hf := by
    obtain rfl := List.mem_singleton.mp hf
    exact (next_ne hn (by omega)).symm
  inUse f hf d hd hle := by
    obtain rfl := List.mem_singleton.mp hf
    have hlt := lap_lt hn d
    rw [lap_cur hn] at hle
    exact ⟨_, hf, (lap_inj hn hn hd).mp (by rw [lap_cur hn]; omega)⟩

theorem Laps.same {n cur : ℕ} (h : Laps n cur files) (hne : files ≠ []) (gps : ℤ) :
    Laps n cur (files ++ [⟨gps, cur⟩]) where
  cur_lt := h.cur_lt
  inOrder := by
    rw [List.pairwise_append]
    refine ⟨h.inOrder, List.pairwise_singleton _ _, ?_⟩
    intro f hf g hg
    obtain rfl := List.mem_singleton.mp hg
    have hlt := lap_lt h.cur_lt f.dir
    rw [lap_cur h.cur_lt]
    omega
  next_empty hn f hf := by
    obtain hf | hf := List.mem_append.mp hf
    · exact h.next_empty hn f hf
    · obtain rfl := List.mem_singleton.mp hf
      exact (next_ne hn h.cur_lt).symm
  inUse f hf d hd hle := by
    obtain ⟨f', hf', hle'⟩ : ∃ f' ∈ files, lap n cur f'.dir ≤ lap n cur d := by
      obtain hf | hf := List.mem_append.mp hf
      · exact ⟨f, hf, hle⟩
      · -- what lies behind the current directory lies behind every other
        obtain rfl := List.mem_singleton.mp hf
        obtain ⟨f', hf'⟩ := List.exists_mem_of_ne_nil files hne
        have hlt := lap_lt h.cur_lt f'.dir
        rw [lap_cur h.cur_lt] at hle
        exact ⟨f', hf', by omega⟩
    obtain ⟨g, hg, hgd⟩ := h.inUse f' hf' d hd hle'
    exact ⟨g, List.mem_append_left _ hg, hgd⟩

theorem Laps.switch {n cur : ℕ} (h : Laps n cur files) (hn : 1 < n)
    (hdir : ∀ f ∈ files, f.dir < n) (gps : ℤ) :
    Laps n ((cur + 1) % n) (files.filter (fun f => f.dir ≠ ((cur + 1) % n + 1) % n)
      ++ [⟨gps, (cur + 1) % n⟩]) := by
  have hcur := h.cur_lt
  have hnext : (cur + 1) % n < n := Nat.mod_lt _ (by omega)
  -- the laps of the files that stay are one less than before
  have hlap : ∀ f ∈ files, lap n ((cur + 1) % n) f.dir = lap n cur f.dir - 1 ∧
      0 < lap n cur f.dir := by
    intro f hf
    have hne : lap n cur f.dir ≠ 0 := by
      rw [Ne, lap_eq_zero hcur (hdir f hf)]
      exact h.next_empty hn f hf
    rw [lap_switch hcur (hdir f hf), if_neg hne]
    omega
  refine ⟨hnext, ?_, ?_, ?_⟩
  · rw [List.pairwise_append]
    refine ⟨?_, List.pairwise_singleton _ _, ?_⟩
    · refine (h.inOrder.filter _).imp_of_mem ?_
      intro f g hf hg hle
      have hlf := hlap f (List.mem_of_mem_filter hf)
      have hlg := hlap g (List.mem_of_mem_filter hg)
      omega
    · intro f hf g hg
      obtain rfl := List.mem_singleton.mp hg
      have hlt := lap_lt hnext f.dir
      rw [lap_cur hnext]
      omega
  · intro _ f hf
    obtain hf | hf := List.mem_append.mp hf
    · simpa using (List.mem_filter.mp hf).2
    · obtain rfl := List.mem_singleton.mp hf
      exact (next_ne hn hnext).symm
  · intro f hf d hd hle
    by_cases hdn : d = (cur + 1) % n
    · exact ⟨_, List.mem_append_right _ (List.mem_singleton.mpr rfl), hdn.symm⟩
    · obtain hf | hf := List.mem_append.mp hf
      · obtain ⟨hmem, hstay⟩ := List.mem_filter.mp hf
        have hlf := hlap f hmem
        have hld : lap n cur d ≠ 0 := by rwa [Ne, lap_eq_zero hcur hd]
        rw [hlf.1, lap_switch hcur hd, if_neg hld] at hle
        obtain ⟨g, hg, rfl⟩ := h.inUse f hmem d hd (by omega)
        refine ⟨g, List.mem_append_left _ (List.mem_filter.mpr ⟨hg, ?_⟩), rfl⟩
        -- a directory behind one that stays is not the one that is cleaned
        have hne : lap n ((cur + 1) % n) f.dir ≠ 0 := by
          rw [Ne, lap_eq_zero hnext (hdir f hmem)]
          simpa using hstay
        have hg0 : lap n ((cur + 1) % n) g.dir ≠ 0 := by
          have hlg := hlap g hg
          omega
        rw [Ne, lap_eq_zero hnext hd] at hg0
        simpa using hg0
      · obtain rfl := List.mem_singleton.mp hf
        have hlt := lap_lt hnext d
        rw [lap_cur hnext] at hle
        have heq : lap n ((cur + 1) % n) d = lap n ((cur + 1) % n) ((cur + 1) % n) := by
          rw [lap_cur hnext]
          omega
        exact absurd ((lap_inj hnext hd hnext).mp heq) hdn

/-! ## The invariant -/

/-- The files in directory `d`. -/
def filesIn (secs : ℤ → ℤ) (files : List RecordedFile) (d : ℕ) (g len : ℤ) : Prop :=
  ⟨g, d⟩ ∈ files ∧ len = secs g

theorem filesIn_nil (secs : ℤ → ℤ) (d : ℕ) : filesIn secs [] d = fun _ _ => False := by
  ext g len
  simp [filesIn]

/-- The map `s` is that of the files `files`. -/
structure Inv (secs : ℤ → ℤ) (files : List RecordedFile) (s : Filesys) : Prop where
  curDir_lt : s.curDir < s.numDirs
  dir_lt : ∀ f ∈ files, f.dir < s.numDirs
  nonneg : ∀ f ∈ files, 0 ≤ f.gps
  sorted : files.Pairwise fun f g => f.gps + secs f.gps ≤ g.gps
  times : ∀ d < s.numDirs, TimesOk (filesIn secs files d) (s.dir d)
  ranges : ∀ d < s.numDirs, Uniform (filesIn secs files d) →
    RangesFit (filesIn secs files d) (s.dir d).ranges
  fresh : s.curUpdateDir = none → files = [] ∧ s.minTime = 0
  laps : ∀ cur, s.curUpdateDir = some cur → files ≠ [] ∧ Laps s.numDirs cur files
  minTime : files ≠ [] → (∃ f ∈ files, f.gps = s.minTime) ∧ ∀ f ∈ files, s.minTime ≤ f.gps
  maxTime : files ≠ [] →
    (∃ f ∈ files, f.gps + secs f.gps = s.maxTime) ∧ ∀ f ∈ files, f.gps + secs f.gps ≤ s.maxTime

theorem inv_start {n : ℕ} (hn : 0 < n) (filesPerDir : ℤ) : Inv secs [] (start n filesPerDir) where
  curDir_lt := hn
  dir_lt := nofun
  nonneg := nofun
  sorted := .nil
  times := fun _ _ => filesIn_nil secs _ ▸ timesOk_empty
  ranges := fun _ _ _ => filesIn_nil secs _ ▸ rangesFit_nil
  fresh := fun _ => ⟨rfl, rfl⟩
  laps := nofun
  minTime := by simp
  maxTime := by simp

theorem rel_or_rel {α : Type*} {R : α → α → Prop} {l : List α} (h : l.Pairwise R) {a b : α}
    (ha : a ∈ l) (hb : b ∈ l) (hne : a ≠ b) : R a b ∨ R b a := by
  have hsymm : Std.Symm fun a b => R a b ∨ R b a := ⟨fun _ _ => Or.symm⟩
  have hor : l.Pairwise fun a b => R a b ∨ R b a := h.imp Or.inl
  exact hor.forall ha hb hne

theorem lt_of_end_le (hp : ∀ g, 0 < secs g) {g g' : ℤ} (h : g + secs g ≤ g') : g < g' :=
  lt_of_lt_of_le (lt_add_of_pos_right g (hp g)) h

/-- Files of earlier directories are earlier. -/
theorem before_of_lap {n cur : ℕ} (hsorted : files.Pairwise fun f g => f.gps + secs f.gps ≤ g.gps)
    (hlaps : Laps n cur files) {f g : RecordedFile} (hf : f ∈ files) (hg : g ∈ files)
    (hlt : lap n cur f.dir < lap n cur g.dir) : f.gps + secs f.gps ≤ g.gps := by
  have hne : f ≠ g := by
    rintro rfl
    exact absurd hlt (lt_irrefl _)
  obtain h | h := rel_or_rel (hsorted.and hlaps.inOrder) hf hg hne
  · exact h.1
  · omega

theorem Inv.apart (h : Inv secs files s) : Apart s.numDirs (filesIn secs files) where
  files d _ g len g' len' hg hg' := by
    obtain ⟨hmem, rfl⟩ := hg
    obtain ⟨hmem', rfl⟩ := hg'
    by_cases heq : g = g'
    · exact Or.inl ⟨heq, congrArg secs heq⟩
    · exact Or.inr (rel_or_rel h.sorted hmem hmem' (by simpa using heq))
  dirs d hd d' hd' hne := by
    cases hcur : s.curUpdateDir with
    | none => simp [filesIn, (h.fresh hcur).1]
    | some cur =>
      obtain ⟨-, hlaps⟩ := h.laps cur hcur
      have hinj := (lap_inj hlaps.cur_lt hd hd').not.mpr hne
      rcases Nat.lt_or_gt_of_ne hinj with hlt | hlt
      · left
        rintro g len g' len' ⟨hg, rfl⟩ ⟨hg', -⟩
        exact before_of_lap h.sorted hlaps hg hg' hlt
      · right
        rintro g len g' len' ⟨hg, -⟩ ⟨hg', rfl⟩
        exact before_of_lap h.sorted hlaps hg' hg hlt

/-- Every query is answered. -/
theorem Inv.dirNumber_iff (h : Inv secs files s)
    (huniform : ∀ d < s.numDirs, Uniform (filesIn secs files d)) {d : ℕ} {g len : ℤ} :
    (s.dirNumber t).1 = some (d, g, len) ↔
      ⟨g, d⟩ ∈ files ∧ len = secs g ∧ g ≤ t ∧ t < g + secs g := by
  rw [Filesys.dirNumber_iff h.curDir_lt (fun d hd => ⟨h.times d hd, h.ranges d hd (huniform d hd)⟩)
    h.apart]
  constructor
  · rintro ⟨-, ⟨hmem, rfl⟩, hle, hlt⟩
    exact ⟨hmem, rfl, hle, hlt⟩
  · rintro ⟨hmem, rfl, hle, hlt⟩
    exact ⟨h.dir_lt _ hmem, ⟨hmem, rfl⟩, hle, hlt⟩

/-- A query moves nothing but `cur_dir`. -/
theorem Inv.query (h : Inv secs files s) (t : ℤ) : Inv secs files (s.dirNumber t).2 := by
  unfold dirNumber
  split
  · exact h
  · next fdir tr fsecs hloop =>
    have hn : 0 < s.numDirs := Nat.zero_lt_of_lt h.curDir_lt
    exact { h with curDir_lt := (dirLoop_some hn h.curDir_lt hloop).1 }

/-! ## A write -/

/-- The files after a write to directory `d`. -/
def addRecorded (files : List RecordedFile) (cleaned : Option ℕ) (gps : ℤ) (d : ℕ) :
    List RecordedFile :=
  files.filter (fun f => some f.dir ≠ cleaned) ++ [⟨gps, d⟩]

/-- What a write leaves of the other directories. -/
theorem dir_updateDir_of_ne {d e : ℕ} (he : e ≠ d) :
    (s.updateDir gps period d).dir e
      = if (s.firstUpdate gps d).cleaned d = some e then {} else s.dir e := by
  have hfirst : (s.firstUpdate gps d).dir e = s.dir e := by
    unfold firstUpdate
    split
    · rfl
    · simp only
      split
      · exact Function.update_of_ne he ..
      · rfl
  simp only [updateDir, Function.update_of_ne he]
  unfold switchDir
  cases hc : (s.firstUpdate gps d).cleaned d with
  | none => simpa using hfirst
  | some w =>
    simp only [Option.some.injEq]
    split
    · next hw =>
      rw [hw, Function.update_self]
    · next hw =>
      rw [Function.update_of_ne (Ne.symm hw), Function.update_of_ne he, hfirst]

theorem dir_updateDir_self (s : Filesys) (gps period : ℤ) (d : ℕ) :
    ((s.updateDir gps period d).dir d).blist = addFile (s.dir d).blist gps period ∧
      ((s.updateDir gps period d).dir d).maxTime = gps + period ∧
      ((s.updateDir gps period d).dir d).minTime
        = (((s.firstUpdate gps d).switchDir gps d).dir d).minTime := by
  simp [updateDir]

theorem numDirs_updateDir (s : Filesys) (gps period : ℤ) (d : ℕ) :
    (s.updateDir gps period d).numDirs = s.numDirs ∧
      (s.updateDir gps period d).curDir = s.curDir := by
  unfold updateDir switchDir firstUpdate
  simp only
  split <;> split <;> exact ⟨rfl, rfl⟩

section Write

variable {d : ℕ}

theorem filesIn_addRecorded {cleaned : Option ℕ} (hclean : cleaned ≠ some d) (e : ℕ) :
    filesIn secs (addRecorded files cleaned gps d) e
      = if e = d then fun g len => filesIn secs files d g len ∨ g = gps ∧ len = secs gps
        else if cleaned = some e then fun _ _ => False else filesIn secs files e := by
  ext g len
  simp only [filesIn, addRecorded, List.mem_append, List.mem_filter, List.mem_singleton,
    RecordedFile.mk.injEq, decide_eq_true_eq]
  split
  · next hed =>
    subst hed
    have hstay : some e ≠ cleaned := Ne.symm hclean
    constructor
    · rintro ⟨⟨hg, -⟩ | ⟨rfl, -⟩, rfl⟩
      · exact Or.inl ⟨hg, rfl⟩
      · exact Or.inr ⟨rfl, rfl⟩
    · rintro (⟨hg, rfl⟩ | ⟨rfl, rfl⟩)
      · exact ⟨Or.inl ⟨hg, hstay⟩, rfl⟩
      · exact ⟨Or.inr ⟨rfl, rfl⟩, rfl⟩
  · next hed =>
    split
    · next hw => simp [hw, hed]
    · next hw => simp [filesIn, hed, Ne.symm hw]

/-- The times of a map with one more file. -/
theorem Inv.times_write (h : Inv secs files s) (hp : ∀ g, 0 < secs g)
    (hlater : ∀ f ∈ files, f.gps + secs f.gps ≤ gps)
    (hclean : (s.firstUpdate gps d).cleaned d ≠ some d)
    (hmin : (∃ f ∈ files, f.dir = d) ∧
        ((s.updateDir gps (secs gps) d).dir d).minTime = (s.dir d).minTime ∨
      (∀ f ∈ files, f.dir ≠ d) ∧ ((s.updateDir gps (secs gps) d).dir d).minTime = gps) :
    ∀ e < s.numDirs, TimesOk
      (filesIn secs (addRecorded files ((s.firstUpdate gps d).cleaned d) gps d) e)
      ((s.updateDir gps (secs gps) d).dir e) := by
  intro e he
  rw [filesIn_addRecorded hclean]
  by_cases hed : e = d
  · subst hed
    rw [if_pos rfl]
    refine (h.times e he).add (hp gps) ?_ ?_ (dir_updateDir_self s gps _ e).2.1 ?_
    · rintro g len ⟨hg, rfl⟩
      exact hlater _ hg
    · rintro g len ⟨-, rfl⟩
      exact hp g
    · obtain ⟨⟨f, hf, rfl⟩, hmin⟩ | ⟨hno, hmin⟩ := hmin
      · exact Or.inl ⟨⟨f.gps, secs f.gps, hf, rfl⟩, hmin⟩
      · exact Or.inr ⟨fun g len hg => hno _ hg.1 rfl, hmin⟩
  · rw [if_neg hed, dir_updateDir_of_ne hed]
    split
    · exact timesOk_empty
    · exact h.times e he

/-- The ranges of a map with one more file. -/
theorem Inv.ranges_write (h : Inv secs files s) (hp : ∀ g, 0 < secs g)
    (hclean : (s.firstUpdate gps d).cleaned d ≠ some d) :
    ∀ e < s.numDirs,
      Uniform (filesIn secs (addRecorded files ((s.firstUpdate gps d).cleaned d) gps d) e) →
      RangesFit (filesIn secs (addRecorded files ((s.firstUpdate gps d).cleaned d) gps d) e)
        ((s.updateDir gps (secs gps) d).dir e).ranges := by
  intro e he huniform
  rw [filesIn_addRecorded hclean] at huniform ⊢
  by_cases hed : e = d
  · subst hed
    rw [if_pos rfl] at huniform ⊢
    rw [Dir.ranges, (dir_updateDir_self s gps _ e).1]
    -- the files that were there before had one length where there is no gap, too
    have hbefore : Uniform (filesIn secs files e) :=
      fun g len len' hg hg' => huniform g len len' (Or.inl hg) (Or.inl hg')
    refine (h.ranges e he hbefore).add (hp gps) ?_
    rintro g len hg rfl
    exact huniform g len _ (Or.inl hg) (Or.inr ⟨rfl, rfl⟩)
  · rw [if_neg hed] at huniform ⊢
    rw [dir_updateDir_of_ne hed]
    split
    · exact rangesFit_nil
    · next hw =>
      rw [if_neg hw] at huniform
      exact h.ranges e he huniform

/-- What is left to show of a write: the time of the directory, the order of the directories
and the minimum. -/
theorem Inv.of_write (h : Inv secs files s) (hp : ∀ g, 0 < secs g) (hgps : 0 ≤ gps)
    (hlater : ∀ f ∈ files, f.gps + secs f.gps ≤ gps)
    (hclean : (s.firstUpdate gps d).cleaned d ≠ some d)
    (hmin : (∃ f ∈ files, f.dir = d) ∧
        ((s.updateDir gps (secs gps) d).dir d).minTime = (s.dir d).minTime ∨
      (∀ f ∈ files, f.dir ≠ d) ∧ ((s.updateDir gps (secs gps) d).dir d).minTime = gps)
    (hcur : (s.updateDir gps (secs gps) d).curUpdateDir = some d)
    (hlaps : Laps s.numDirs d (addRecorded files ((s.firstUpdate gps d).cleaned d) gps d))
    (hglobal : (∃ f ∈ addRecorded files ((s.firstUpdate gps d).cleaned d) gps d,
        f.gps = (s.updateDir gps (secs gps) d).minTime) ∧
      ∀ f ∈ addRecorded files ((s.firstUpdate gps d).cleaned d) gps d,
        (s.updateDir gps (secs gps) d).minTime ≤ f.gps) :
    Inv secs (addRecorded files ((s.firstUpdate gps d).cleaned d) gps d)
      (s.updateDir gps (secs gps) d) := by
  obtain ⟨hnum, hcurDir⟩ := numDirs_updateDir s gps (secs gps) d
  have hmax : (s.updateDir gps (secs gps) d).maxTime = gps + secs gps := rfl
  have hmem : ∀ f ∈ addRecorded files ((s.firstUpdate gps d).cleaned d) gps d,
      f ∈ files ∨ f = ⟨gps, d⟩ := by
    intro f hf
    obtain hf | hf := List.mem_append.mp hf
    · exact Or.inl (List.mem_of_mem_filter hf)
    · exact Or.inr (List.mem_singleton.mp hf)
  refine ⟨?_, ?_, ?_, ?_, ?_, ?_, ?_, ?_, fun _ => hglobal, fun _ => ⟨?_, ?_⟩⟩
  · rw [hnum, hcurDir]
    exact h.curDir_lt
  · intro f hf
    rw [hnum]
    obtain hf | rfl := hmem f hf
    · exact h.dir_lt f hf
    · exact hlaps.cur_lt
  · intro f hf
    obtain hf | rfl := hmem f hf
    · exact h.nonneg f hf
    · exact hgps
  · refine List.pairwise_append.mpr ⟨h.sorted.filter _, List.pairwise_singleton _ _, ?_⟩
    intro f hf g hg
    obtain rfl := List.mem_singleton.mp hg
    exact hlater f (List.mem_of_mem_filter hf)
  · rw [hnum]
    exact h.times_write hp hlater hclean hmin
  · rw [hnum]
    exact h.ranges_write hp hclean
  · intro hnone
    rw [hcur] at hnone
    cases hnone
  · intro cur hcur'
    obtain rfl : d = cur := by simpa [hcur] using hcur'
    rw [hnum]
    exact ⟨by simp [addRecorded], hlaps⟩
  · exact ⟨⟨gps, d⟩, by simp [addRecorded], hmax.symm⟩
  · intro f hf
    rw [hmax]
    obtain hf | rfl := hmem f hf
    · have hlen := hp gps
      have hend := hlater f hf
      omega
    · exact le_refl _

theorem Inv.write_first (h : Inv secs files s) (hp : ∀ g, 0 < secs g) (hgps : 0 ≤ gps)
    (hnone : s.curUpdateDir = none) :
    Inv secs (addRecorded files ((s.firstUpdate gps 0).cleaned 0) gps 0)
      (s.updateDir gps (secs gps) 0) := by
  obtain ⟨rfl, hmin⟩ := h.fresh hnone
  have hn : 0 < s.numDirs := Nat.zero_lt_of_lt h.curDir_lt
  obtain ⟨hdir, -⟩ := (h.times 0 hn).empty (by simp [filesIn])
  have hfirst : s.firstUpdate gps 0 = { s with
      curUpdateDir := some 0
      dir := Function.update s.dir 0 { s.dir 0 with minTime := gps }
      minTime := gps } := by
    simp [firstUpdate, hnone, hdir, hmin]
  have hclean : (s.firstUpdate gps 0).cleaned 0 = none := by
    simp [hfirst, cleaned]
  have hswitch : (s.firstUpdate gps 0).switchDir gps 0 = s.firstUpdate gps 0 := by
    simp [switchDir, hclean]
  apply h.of_write hp hgps (by simp)
  · simp [hclean]
  · refine Or.inr ⟨by simp, ?_⟩
    rw [(dir_updateDir_self s gps _ 0).2.2, hswitch, hfirst]
    simp
  · simp only [updateDir, hswitch]
    rw [hfirst]
  · rw [hclean]
    exact laps_first hn gps
  · simp only [updateDir, hswitch, hclean, addRecorded, List.filter_nil, List.nil_append,
      List.mem_singleton, exists_eq_left, forall_eq]
    simp [hfirst]

theorem Inv.write_same (h : Inv secs files s) (hp : ∀ g, 0 < secs g) (hgps : 0 ≤ gps)
    (hlater : ∀ f ∈ files, f.gps + secs f.gps ≤ gps) (hcur : s.curUpdateDir = some d) :
    Inv secs (addRecorded files ((s.firstUpdate gps d).cleaned d) gps d)
      (s.updateDir gps (secs gps) d) := by
  obtain ⟨hne, hlaps⟩ := h.laps d hcur
  have hfirst : s.firstUpdate gps d = s := by
    simp [firstUpdate, hcur]
  have hclean : (s.firstUpdate gps d).cleaned d = none := by
    simp [hfirst, cleaned, hcur]
  have hswitch : (s.firstUpdate gps d).switchDir gps d = s := by
    rw [switchDir, hclean]
    exact hfirst
  have hfiles : addRecorded files none gps d = files ++ [⟨gps, d⟩] := by
    simp [addRecorded]
  apply h.of_write hp hgps hlater
  · simp [hclean]
  · left
    obtain ⟨f, hf⟩ := List.exists_mem_of_ne_nil files hne
    -- the current directory is in use, as all behind one in use are
    have hlt := lap_lt hlaps.cur_lt f.dir
    refine ⟨hlaps.inUse f hf d hlaps.cur_lt (by rw [lap_cur hlaps.cur_lt]; omega), ?_⟩
    rw [(dir_updateDir_self s gps _ d).2.2, hswitch]
  · simp only [updateDir, hswitch, hcur]
  · rw [hclean, hfiles]
    exact hlaps.same hne gps
  · obtain ⟨⟨f, hf, hfmin⟩, hall⟩ := h.minTime hne
    have hmin : (s.updateDir gps (secs gps) d).minTime = s.minTime := by
      simp only [updateDir, hswitch]
    rw [hclean, hfiles, hmin]
    refine ⟨⟨f, List.mem_append_left _ hf, hfmin⟩, ?_⟩
    intro g hg
    obtain hg | hg := List.mem_append.mp hg
    · exact hall g hg
    · obtain rfl := List.mem_singleton.mp hg
      have hlt := lt_of_end_le hp (hlater f hf)
      simp only
      omega

/-- The minimum after a switch from `cur` to the directory `d` after it. -/
theorem minTime_switchDir (hclean : s.cleaned d = some ((d + 1) % s.numDirs)) :
    (s.switchDir gps d).minTime =
      let dir := Function.update (Function.update s.dir d { s.dir d with minTime := gps })
        ((d + 1) % s.numDirs) {}
      if (dir ((d + 2) % s.numDirs)).minTime ≠ 0 then (dir ((d + 2) % s.numDirs)).minTime
      else s.minTime := by
  simp only [switchDir, hclean]

theorem lap_cleaned {n cur : ℕ} (hcur : cur < n) (hd : d = (cur + 1) % n) {k : ℕ} (hk : k < n) :
    lap n cur ((d + k) % n) = k := by
  have hdn : (cur + 1) % n < n := Nat.mod_lt _ (Nat.zero_lt_of_lt hcur)
  subst hd
  exact ringOffset_ringAt hdn hk

theorem Inv.minTime_switch {cur : ℕ} (h : Inv secs files s) (hp : ∀ g, 0 < secs g)
    (hlater : ∀ f ∈ files, f.gps + secs f.gps ≤ gps) (hn : 1 < s.numDirs)
    (hcur : s.curUpdateDir = some cur) (hd : d = (cur + 1) % s.numDirs)
    (hclean : s.cleaned d = some ((d + 1) % s.numDirs)) :
    (∃ f ∈ files.filter (fun f => f.dir ≠ (d + 1) % s.numDirs) ++ [⟨gps, d⟩],
        f.gps = (s.switchDir gps d).minTime) ∧
      ∀ f ∈ files.filter (fun f => f.dir ≠ (d + 1) % s.numDirs) ++ [⟨gps, d⟩],
        (s.switchDir gps d).minTime ≤ f.gps := by
  obtain ⟨hne, hlaps⟩ := h.laps cur hcur
  have hcurlt := hlaps.cur_lt
  have hnn : (d + 2) % s.numDirs < s.numDirs := Nat.mod_lt _ (by omega)
  have hdlt : d < s.numDirs := hd ▸ Nat.mod_lt _ (by omega)
  have hnext := hlaps.next_empty hn
  have hlapw : lap s.numDirs cur ((d + 1) % s.numDirs) = 1 := lap_cleaned hcurlt hd hn
  have hlapd : lap s.numDirs cur d = 0 := (lap_eq_zero hcurlt hdlt).mpr hd
  obtain ⟨⟨f1, hf1, hf1min⟩, hall⟩ := h.minTime hne
  have hgps : 0 < gps := by
    have h0 := h.nonneg f1 hf1
    have hlt := lt_of_end_le hp (hlater f1 hf1)
    omega
  have hkept : ∀ f ∈ files.filter (fun f => f.dir ≠ (d + 1) % s.numDirs) ++ [⟨gps, d⟩],
      f = ⟨gps, d⟩ ∨ f ∈ files ∧ 1 < lap s.numDirs cur f.dir := by
    intro f hf
    obtain hf | hf := List.mem_append.mp hf
    · obtain ⟨hf, hw⟩ := List.mem_filter.mp hf
      have hne0 := (lap_eq_zero hcurlt (h.dir_lt f hf)).not.mpr (hnext f hf)
      have hne1 := (lap_inj hcurlt (h.dir_lt f hf) (Nat.mod_lt _ (by omega))).not.mpr
        (by simpa using hw)
      exact Or.inr ⟨hf, by omega⟩
    · exact Or.inl (List.mem_singleton.mp hf)
  rw [minTime_switchDir hclean]
  simp only
  rcases Nat.lt_or_ge 2 s.numDirs with hthree | htwo
  · -- the directory after the cleaned one is none of the two that were changed
    have hlapnn : lap s.numDirs cur ((d + 2) % s.numDirs) = 2 := lap_cleaned hcurlt hd hthree
    have hnnw : (d + 2) % s.numDirs ≠ (d + 1) % s.numDirs := by
      intro heq
      rw [heq, hlapw] at hlapnn
      omega
    have hnnd : (d + 2) % s.numDirs ≠ d := by
      intro heq
      rw [heq, hlapd] at hlapnn
      omega
    rw [Function.update_of_ne hnnw, Function.update_of_ne hnnd]
    by_cases hin : ∃ f ∈ files, f.dir = (d + 2) % s.numDirs
    · obtain ⟨f, hf, hfd⟩ := hin
      have hok := h.times _ hnn
      have hfile : filesIn secs files ((d + 2) % s.numDirs) f.gps _ := ⟨hfd ▸ hf, rfl⟩
      obtain ⟨-, hfirst, -⟩ := hok.first _ _ hfile
      have hzero : (s.dir ((d + 2) % s.numDirs)).minTime = 0 → s.minTime = 0 := by
        intro h0
        have hle := hall _ hfirst
        have hnonneg := h.nonneg f1 hf1
        simp only at hle
        omega
      have hmin : (if (s.dir ((d + 2) % s.numDirs)).minTime ≠ 0 then
          (s.dir ((d + 2) % s.numDirs)).minTime else s.minTime)
            = (s.dir ((d + 2) % s.numDirs)).minTime := by
        split
        · rfl
        · next h0 =>
          rw [not_not] at h0
          rw [h0, hzero h0]
      rw [hmin]
      refine ⟨⟨_, List.mem_append_left _ (List.mem_filter.mpr ⟨hfirst, by simpa using hnnw⟩),
        rfl⟩, ?_⟩
      intro g hg
      obtain rfl | ⟨hg, hlap⟩ := hkept g hg
      · exact (lt_of_end_le hp (hlater _ hfirst)).le
      · by_cases hsame : g.dir = (d + 2) % s.numDirs
        · exact (hok.bounds g.gps _ ⟨hsame ▸ hg, rfl⟩).1
        · have hlapne := (lap_inj hcurlt (h.dir_lt g hg) hnn).not.mpr hsame
          have hbefore := before_of_lap h.sorted hlaps hfirst hg (by simp only; omega)
          exact (lt_of_end_le hp hbefore).le
    · -- then the cleaned directory was not in use either
      push Not at hin
      obtain ⟨h0, -⟩ := (h.times _ hnn).empty fun g len hg => hin _ hg.1 rfl
      rw [h0, if_neg (by simp)]
      have hstay : ∀ f ∈ files, f.dir ≠ (d + 1) % s.numDirs := by
        intro f hf hfd
        obtain ⟨g, hg, hgd⟩ := hlaps.inUse f hf _ hnn (by rw [hfd, hlapw, hlapnn]; omega)
        exact hin g hg hgd
      refine ⟨⟨f1, List.mem_append_left _ (List.mem_filter.mpr ⟨hf1, by simpa using hstay f1 hf1⟩),
        hf1min⟩, ?_⟩
      intro g hg
      obtain rfl | ⟨hg, -⟩ := hkept g hg
      · have hlt := lt_of_end_le hp (hlater f1 hf1)
        simp only
        omega
      · exact hall g hg
  · -- of two directories the old one is cleaned, and the new file is alone
    obtain htwo : s.numDirs = 2 := by omega
    have hnnd : (d + 2) % s.numDirs = d := by
      rw [htwo, Nat.add_mod_right, Nat.mod_eq_of_lt (htwo ▸ hdlt)]
    have hdw : d ≠ (d + 1) % s.numDirs := (next_ne hn hdlt).symm
    rw [hnnd, Function.update_of_ne hdw, Function.update_self]
    rw [if_pos (by simp only; omega)]
    refine ⟨⟨_, List.mem_append_right _ (List.mem_singleton.mpr rfl), rfl⟩, ?_⟩
    intro g hg
    obtain rfl | ⟨hg, hlap⟩ := hkept g hg
    · exact le_refl _
    · have hlt := lap_lt hcurlt g.dir
      omega

theorem Inv.write_switch {cur : ℕ} (h : Inv secs files s) (hp : ∀ g, 0 < secs g) (hgps : 0 ≤ gps)
    (hlater : ∀ f ∈ files, f.gps + secs f.gps ≤ gps) (hn : 1 < s.numDirs)
    (hcur : s.curUpdateDir = some cur) (hd : d = (cur + 1) % s.numDirs) :
    Inv secs (addRecorded files ((s.firstUpdate gps d).cleaned d) gps d)
      (s.updateDir gps (secs gps) d) := by
  obtain ⟨hne, hlaps⟩ := h.laps cur hcur
  have hdlt : d < s.numDirs := hd ▸ Nat.mod_lt _ (by omega)
  have hfirst : s.firstUpdate gps d = s := by
    simp [firstUpdate, hcur]
  have hclean : s.cleaned d = some ((d + 1) % s.numDirs) := by
    have hcd : cur ≠ d := hd ▸ (next_ne hn hlaps.cur_lt).symm
    simp [cleaned, hn, hcur, hcd]
  have hdw : d ≠ (d + 1) % s.numDirs := (next_ne hn hdlt).symm
  have hfiles : addRecorded files (some ((d + 1) % s.numDirs)) gps d
      = files.filter (fun f => f.dir ≠ (d + 1) % s.numDirs) ++ [⟨gps, d⟩] := by
    simp [addRecorded]
  apply h.of_write hp hgps hlater
  · rw [hfirst, hclean]
    simpa using hdw.symm
  · refine Or.inr ⟨hd ▸ hlaps.next_empty hn, ?_⟩
    rw [(dir_updateDir_self s gps _ d).2.2, hfirst]
    simp [switchDir, hclean, Function.update_of_ne hdw]
  · simp [updateDir, hfirst, switchDir, hclean]
  · rw [hfirst, hclean, hfiles, hd]
    exact hlaps.switch hn h.dir_lt gps
  · have hmin : (s.updateDir gps (secs gps) d).minTime = (s.switchDir gps d).minTime := by
      simp only [updateDir, hfirst]
    rw [hfirst, hclean, hfiles, hmin]
    exact h.minTime_switch hp hlater hn hcur hd hclean

theorem Inv.write (h : Inv secs files s) (hp : ∀ g, 0 < secs g) (hgps : 0 ≤ gps)
    (hlater : ∀ f ∈ files, f.gps + secs f.gps ≤ gps) :
    Inv secs (addRecorded files ((s.firstUpdate gps s.dnum).cleaned s.dnum) gps s.dnum)
      (s.updateDir gps (secs gps) s.dnum) := by
  cases hcur : s.curUpdateDir with
  | none =>
    rw [show s.dnum = 0 by simp [dnum, hcur]]
    exact h.write_first hp hgps hcur
  | some cur =>
    have hn : 0 < s.numDirs := Nat.zero_lt_of_lt h.curDir_lt
    have hlt := (h.laps cur hcur).2.cur_lt
    -- with a single directory the next one is the current one
    by_cases hsame : s.dnum = cur
    · rw [hsame]
      exact h.write_same hp hgps hlater hcur
    · have hd : s.dnum = (cur + 1) % s.numDirs := by
        simp only [dnum, hcur] at hsame ⊢
        by_cases hfull : (s.dir cur).nfiles ≥ s.filesPerDir
        · rw [if_pos hfull, if_pos hn]
        · exact absurd (if_neg hfull) hsame
      have hmany : 1 < s.numDirs := by
        by_contra hone
        obtain hone : s.numDirs = 1 := by omega
        rw [hone, Nat.mod_one] at hd
        omega
      exact h.write_switch hp hgps hlater hmany hcur hd

end Write

/-! ## Runs -/

/-- Every file that is written begins at or after `earliest`, and at or after the end of the file
before it. -/
def Spaced (secs : ℤ → ℤ) : ℤ → List FilesysAction → Prop
  | _, [] => True
  | earliest, .write gps :: acts => earliest ≤ gps ∧ Spaced secs (gps + secs gps) acts
  | earliest, .query _ :: acts => Spaced secs earliest acts

theorem Inv.run {acts : List FilesysAction} {earliest : ℤ} (h : Inv secs files s)
    (hp : ∀ g, 0 < secs g) (hend : ∀ f ∈ files, f.gps + secs f.gps ≤ earliest)
    (hspaced : Spaced secs earliest acts) :
    ∃ tr u, PvLib.run (step secs) s acts = some (tr, u) ∧
      Inv secs (tr.foldl recordEvent files) u := by
  induction acts generalizing files s earliest with
  | nil => exact ⟨[], s, rfl, h⟩
  | cons act acts ih =>
    cases act with
    | write gps =>
      obtain ⟨hle, hspaced⟩ := hspaced
      have hlater : ∀ f ∈ files, f.gps + secs f.gps ≤ gps := fun f hf => (hend f hf).trans hle
      have hwrite := h.write hp (Int.natCast_nonneg gps) hlater
      have hend' : ∀ f ∈ addRecorded files ((s.firstUpdate gps s.dnum).cleaned s.dnum) gps s.dnum,
          f.gps + secs f.gps ≤ gps + secs gps := by
        intro f hf
        obtain hf | hf := List.mem_append.mp hf
        · have hbefore := hlater f (List.mem_of_mem_filter hf)
          have hlen := hp gps
          omega
        · obtain rfl := List.mem_singleton.mp hf
          exact le_refl _
      obtain ⟨tr, u, hrun, hinv⟩ := ih hwrite hend' hspaced
      refine ⟨.wrote ⟨gps, s.dnum⟩ ((s.firstUpdate gps s.dnum).cleaned s.dnum) :: tr, u, ?_, hinv⟩
      simp only [PvLib.run, step, hrun]
    | query t =>
      obtain ⟨tr, u, hrun, hinv⟩ := ih (h.query t) hend hspaced
      refine ⟨.answered (s.dirNumber t).1 :: tr, u, ?_, hinv⟩
      simp only [PvLib.run, step, hrun]

/-- From an empty map, after any sequence of writes of files of one length and of queries, each
file beginning at or after the end of the one before it: a second is found if and only if one of
the recorded files holds it whose directory has not been cleaned since, and the answer is that
file; the two times of the map are the ends of these files. -/
theorem file_map_answers (numDirs : ℕ) (filesPerDir period : ℤ) (acts : List FilesysAction)
    (hn : 1 ≤ numDirs) (hp : 0 < period) (hspaced : Spaced (fun _ => period) 0 acts) :
    ∃ tr s, PvLib.run (step fun _ => period) (start numDirs filesPerDir) acts = some (tr, s) ∧
      (∀ t d first len, (s.dirNumber t).1 = some (d, first, len) ↔
        ∃ f ∈ recordedFiles tr, (f.gps ≤ t ∧ t < f.gps + period) ∧
          d = f.dir ∧ first = f.gps ∧ len = period) ∧
      (recordedFiles tr ≠ [] →
        ((∃ f ∈ recordedFiles tr, f.gps = s.minTime) ∧
          ∀ f ∈ recordedFiles tr, s.minTime ≤ f.gps) ∧
        ((∃ f ∈ recordedFiles tr, f.gps + period = s.maxTime) ∧
          ∀ f ∈ recordedFiles tr, f.gps + period ≤ s.maxTime)) := by
  obtain ⟨tr, s, hrun, hinv⟩ := (inv_start hn filesPerDir).run (fun _ => hp) nofun hspaced
  refine ⟨tr, s, hrun, ?_, fun hne => ⟨hinv.minTime hne, hinv.maxTime hne⟩⟩
  intro t d first len
  rw [hinv.dirNumber_iff fun _ _ _ _ _ hg hg' => hg.2.trans hg'.2.symm]
  constructor
  · rintro ⟨hmem, hlen, hle, hlt⟩
    exact ⟨_, hmem, ⟨hle, hlt⟩, rfl, rfl, hlen⟩
  · rintro ⟨f, hmem, ⟨hle, hlt⟩, rfl, rfl, hlen⟩
    exact ⟨hmem, hlen, hle, hlt⟩

/-- Two directories of one file each: the third file finds the first directory cleaned. -/
theorem file_map_answers_three : ∃ tr s,
    PvLib.run (step fun _ => 16) (start 2 1) [.write 100, .query 110, .write 116, .write 140]
      = some (tr, s) ∧ recordedFiles tr = [⟨140, 0⟩] ∧
      (s.dirNumber 150).1 = some (0, 140, 16) := by
  obtain ⟨tr, s, hrun, hall, -⟩ := file_map_answers 2 1 16
    [.write 100, .query 110, .write 116, .write 140] (by decide) (by decide)
    ⟨by decide, by decide, by decide, trivial⟩
  have htr : recordedFiles tr = [⟨140, 0⟩] := by
    have hfiles := congrArg (Option.map fun r => recordedFiles r.1) hrun
    exact (Option.some.inj hfiles).symm
  refine ⟨tr, s, hrun, htr, (hall 150 0 140 16).mpr ?_⟩
  rw [htr]
  exact ⟨_, List.mem_singleton.mpr rfl, by decide, rfl, rfl, rfl⟩

end Filesys

end AdvLigoRts.Daqd
