import Mathlib.Data.List.Induction
import AdvLigoRts.Daqd.FilesysScan
import AdvLigoRts.Daqd.FilesysTheorems

/-!
# A scan rebuilds the map

Names are read back as the files they were made for (`ftosecs_fileName`), and the files of a
directory, sorted, go into its ranges one after the other just as `_update_dir` puts them there
(`ScanOk`), as long as files without a gap between them have the map's own length.
-/

namespace AdvLigoRts.Daqd

open PvLib

/-! ## Names -/

namespace FileAttrs

variable {a : FileAttrs} {f : TimestampTime}

/-- The suffix does not go on with the number before it. -/
def SfxOk (a : FileAttrs) : Prop := ∀ c, a.sfx.head? = some c → c.isDigit = false ∧ c ≠ '-'

/-- A name that `scan` reads back. -/
structure NameOk (a : FileAttrs) (f : TimestampTime) : Prop where
  gps_pos : 0 < f.gps
  gps_lt : f.gps < 2 ^ 31
  dt_pos : 0 < f.dt
  /-- A name without a length is that of a file of the map's own length. -/
  one : f.dt = 1 → a.period = 1
  length : 3 ≤ (a.fileName f).length

theorem toInt_eq {t : ℤ} (hpos : 0 < t) (hlt : t < 2 ^ 31) : toInt t = t := by
  rw [toInt, Int.bmod_eq_of_le]
  · omega
  · omega

theorem drop_fileName (a : FileAttrs) (f : TimestampTime) :
    (a.fileName f).drop a.prx.length = printInt (toInt f.gps) ++
      (if f.dt ≠ 1 then '-' :: printInt f.dt ++ a.sfx else a.sfx) ∧
    a.prx.isPrefixOf (a.fileName f) = true := by
  unfold fileName
  split
  · rw [List.append_assoc, List.append_assoc, List.drop_left]
    exact ⟨rfl, by simp⟩
  · rw [List.append_assoc, List.drop_left]
    exact ⟨rfl, by simp⟩

theorem ftosecs_two {text rest rest' : List Char} {times framedt : ℤ}
    (htimes : takeInt text = some (times, '-' :: rest))
    (hdt : takeInt rest = some (framedt, rest')) : a.ftosecs text = ⟨times, framedt⟩ := by
  rw [ftosecs, htimes]
  simp only [hdt]

theorem ftosecs_one {text rest : List Char} {times : ℤ}
    (htimes : takeInt text = some (times, rest)) (hrest : rest.head? ≠ some '-') :
    a.ftosecs text = ⟨times, a.period⟩ := by
  rw [ftosecs, htimes]
  cases rest with
  | nil => rfl
  | cons c rest =>
    have hc : c ≠ '-' := by simpa using hrest
    split
    · next heq => cases heq
    · next heq =>
      cases heq
      exact absurd rfl hc
    · next heq =>
      cases heq
      rfl

theorem ftosecs_fileName (hsfx : a.SfxOk) (hf : a.NameOk f) :
    a.ftosecs ((a.fileName f).drop a.prx.length) = f := by
  rw [(drop_fileName a f).1, toInt_eq hf.gps_pos hf.gps_lt]
  have hdigit : ∀ c, a.sfx.head? = some c → c.isDigit = false := fun c hc => (hsfx c hc).1
  by_cases hone : f.dt = 1
  · -- no second number is read, as the suffix does not begin with a dash
    rw [if_neg (not_not.mpr hone), ftosecs_one (takeInt_printInt f.gps hdigit),
      hf.one hone, ← hone]
    exact fun hdash => (hsfx '-' hdash).2 rfl
  · have hdash : ∀ c, ('-' :: (printInt f.dt ++ a.sfx)).head? = some c → c.isDigit = false := by
      intro c hc
      cases hc
      rfl
    rw [if_pos hone]
    exact ftosecs_two (takeInt_printInt f.gps hdash) (takeInt_printInt f.dt hdigit)

theorem NameOk.validFname (hf : a.NameOk f) : a.validFname (a.fileName f) = true := by
  simp only [FileAttrs.validFname, (drop_fileName a f).2, hf.length, decide_true, Bool.and_self]

theorem filter_validFname {files : List TimestampTime} (hfiles : ∀ f ∈ files, a.NameOk f) :
    (files.map a.fileName).filter a.validFname = files.map a.fileName := by
  rw [List.filter_eq_self]
  intro name hmem
  obtain ⟨f, hf, rfl⟩ := List.mem_map.mp hmem
  exact (hfiles f hf).validFname

theorem sfxOk_gwf (prx : List Char) (period : ℤ) : SfxOk ⟨prx, ".gwf".toList, period⟩ := by
  intro c hc
  cases hc
  decide

theorem length_prx_le (a : FileAttrs) (f : TimestampTime) :
    a.prx.length ≤ (a.fileName f).length :=
  (List.isPrefixOf_iff_prefix.mp (drop_fileName a f).2).length_le

end FileAttrs

/-- The entries of a directory are all read. -/
theorem foldl_entry {a : FileAttrs} (hsfx : a.SfxOk) {files : List TimestampTime}
    (hfiles : ∀ f ∈ files, a.NameOk f) {s : Tstamps} (hflag : s.dirNotFullFlag = true)
    (hroom : s.tstamps.length + files.length ≤ maxTstamps) :
    ((files.map a.fileName).foldl (Tstamps.entry a) s).tstamps = s.tstamps ++ files := by
  induction files generalizing s with
  | nil => simp
  | cons f files ih =>
    have hf := hfiles f List.mem_cons_self
    rw [List.length_cons] at hroom
    have hentry : s.entry a (a.fileName f)
        = { s with dirNfiles := s.dirNfiles + 1, tstamps := s.tstamps ++ [f] } := by
      simp only [Tstamps.entry, hf.validFname, if_true, hflag, FileAttrs.ftosecs_fileName hsfx hf,
        hf.gps_pos, show s.tstamps.length < maxTstamps by omega]
    have hrest : (s.tstamps ++ [f]).length + files.length ≤ maxTstamps := by
      simp only [List.length_append, List.length_singleton]
      omega
    rw [List.map_cons, List.foldl_cons, hentry]
    have hread := ih (fun g hg => hfiles g (List.mem_cons_of_mem f hg))
      (s := { s with dirNfiles := s.dirNfiles + 1, tstamps := s.tstamps ++ [f] }) hflag hrest
    rw [hread]
    simp

/-- Entries with other names, such as the directory itself, are passed over. -/
theorem readTstamps_filter (a : FileAttrs) (names : List (List Char)) :
    readTstamps a names = readTstamps a (names.filter a.validFname) := by
  unfold readTstamps
  rw [List.foldl_filter]
  congr 1
  funext s cfile
  by_cases hvalid : a.validFname cfile
  · simp [hvalid]
  · simp [Tstamps.entry, hvalid]

theorem readTstamps_eq {a : FileAttrs} (hsfx : a.SfxOk) {files : List TimestampTime}
    (hfiles : ∀ f ∈ files, a.NameOk f) (hroom : files.length ≤ maxTstamps)
    {names : List (List Char)} (hnames : names.filter a.validFname = files.map a.fileName) :
    (readTstamps a names).tstamps = files := by
  rw [readTstamps_filter, hnames, readTstamps,
    foldl_entry hsfx hfiles rfl (by simpa using hroom)]
  rfl

namespace Filesys

/-! ## The ranges of one directory -/

/-- After the files `fs` have been put into ranges: the ranges stand for them, the current one
ends with the last file, and a range of several files has the map's own length. -/
structure ScanOk (period : ℤ) (fs : List TimestampTime) (s : List RangeBlock × ℤ) : Prop where
  fit : RangesFit (fun g len => ⟨g, len⟩ ∈ fs) (rangesOf s.1)
  several : ∀ cur ∈ s.1.head?,
    cur.current.maxTime > cur.current.minTime + cur.current.fileSecs →
      cur.current.fileSecs = period
  last : ∀ cur ∈ s.1.head?, ∀ f ∈ fs, f.gps + f.dt ≤ cur.current.maxTime
  some_iff : s.1 = [] ↔ fs = []
  first : fs ≠ [] → (∃ len, (⟨s.2, len⟩ : TimestampTime) ∈ fs) ∧ ∀ f ∈ fs, s.2 ≤ f.gps

section Scan

variable {period : ℤ} {fs : List TimestampTime} {s : List RangeBlock × ℤ} {f : TimestampTime}

theorem scanOk_nil : ScanOk period [] ([], 0) where
  fit := by simpa [rangesOf] using rangesFit_nil
  several := nofun
  last := nofun
  some_iff := by simp
  first := by simp

theorem adjustLast_eq {cur : RangeBlock} (hwf : cur.current.run.WellFormed)
    (hseveral : cur.current.maxTime > cur.current.minTime + cur.current.fileSecs →
      cur.current.fileSecs = period) : adjustLast period cur = cur := by
  unfold adjustLast
  split
  · next hmore =>
    have hsecs := hseveral hmore
    have hpos : 0 < cur.current.fileSecs := hwf.1
    rw [if_neg (by omega), hsecs]
    simp [RangeBlock.currentMaxTimeSub]
  · rfl

/-- A file goes into the ranges as `_update_dir` would put it there. -/
theorem ScanOk.scanFile_eq (h : ScanOk period fs s) (hdt : 0 < f.dt) :
    scanFile period s f
      = (addFile s.1 f.gps f.dt, if s.1 = [] then f.gps else s.2) := by
  obtain ⟨blist, dirMin⟩ := s
  cases blist with
  | nil =>
    simp only [scanFile, if_neg (not_le.mpr hdt), addFile, if_true]
  | cons cur rest =>
    have hwf := (rangesOk_cons.mp h.fit.ranges).2.1
    have hadjust := adjustLast_eq hwf (h.several cur rfl)
    simp only [scanFile, addFile, hadjust, if_neg (not_le.mpr hdt), reduceCtorEq, if_false]
    split
    · rfl
    · split <;> rfl

theorem head_addFile {blist : List RangeBlock} {gps len : ℤ} {cur' : RangeBlock}
    (h : cur' ∈ (addFile blist gps len).head?) :
    (∃ cur ∈ blist.head?, cur.current.maxTime = gps ∧
      cur'.current = { cur.current with maxTime := gps + cur.current.fileSecs }) ∨
    cur'.current = Range.put len gps := by
  cases blist with
  | nil =>
    cases h
    exact Or.inr rfl
  | cons cur rest =>
    unfold addFile at h
    simp only at h
    split at h
    · next hend =>
      cases h
      refine Or.inl ⟨cur, rfl, hend, ?_⟩
      rw [← hend]
      rfl
    · split at h
      · cases h
        exact Or.inr rfl
      · cases h
        exact Or.inr rfl

/-- One more file, which begins at or after the end of those before it. -/
theorem ScanOk.step (h : ScanOk period fs s) (hdt : 0 < f.dt)
    (hlater : ∀ g ∈ fs, g.gps + g.dt ≤ f.gps) (hpos : ∀ g ∈ fs, 0 < g.dt)
    (hadjacent : ∀ g ∈ fs, g.gps + g.dt = f.gps → g.dt = period ∧ f.dt = period) :
    ScanOk period (fs ++ [f]) (scanFile period s f) := by
  have hextend : ∀ cur ∈ s.1.head?, cur.current.maxTime = f.gps →
      cur.current.fileSecs = period ∧ f.dt = period := by
    intro cur hcur hend
    exact hadjacent _ (h.fit.last hcur) (by simp only; omega)
  -- the current range ends with the new file, whether it is its first or not
  have hcurrent : ∀ cur ∈ (addFile s.1 f.gps f.dt).head?,
      cur.current.fileSecs = f.dt ∧ cur.current.maxTime = f.gps + f.dt ∧
        (cur.current.maxTime > cur.current.minTime + cur.current.fileSecs →
          f.dt = period) := by
    intro cur' hcur'
    obtain ⟨cur, hcur, hend, heq⟩ | heq := head_addFile hcur'
    · obtain ⟨hsecs, hfdt⟩ := hextend cur hcur hend
      rw [heq]
      exact ⟨hsecs.trans hfdt.symm, by simp only [hsecs, hfdt], fun _ => hfdt⟩
    · rw [heq]
      refine ⟨rfl, rfl, fun hmore => ?_⟩
      simp only [Range.put] at hmore
      omega
  have hmem : ∀ g : TimestampTime, g ∈ fs ++ [f] ↔ g ∈ fs ∨ g = f := by simp
  rw [h.scanFile_eq hdt]
  refine ⟨?_, ?_, ?_, ?_, ?_⟩
  · have heq : (fun g len => (⟨g, len⟩ : TimestampTime) ∈ fs ++ [f])
        = fun g len => ⟨g, len⟩ ∈ fs ∨ g = f.gps ∧ len = f.dt := by
      ext g len
      rw [hmem, ← TimestampTime.mk.injEq]
    rw [heq]
    refine h.fit.add hdt fun g len hg hend => ?_
    obtain ⟨hsecs, hfdt⟩ := hadjacent _ hg hend
    exact hsecs.trans hfdt.symm
  · intro cur hcur hmore
    obtain ⟨hsecs, -, hperiod⟩ := hcurrent cur hcur
    exact hsecs.trans (hperiod hmore)
  · intro cur hcur g hg
    rw [(hcurrent cur hcur).2.1]
    obtain hg | rfl := (hmem g).mp hg
    · have hend := hlater g hg
      omega
    · exact le_refl _
  · have hne : addFile s.1 f.gps f.dt ≠ [] := by
      cases hs : s.1 with
      | nil => simp [addFile]
      | cons cur rest =>
        simp only [addFile]
        split
        · simp
        · split <;> simp
    simp [hne]
  · intro _
    by_cases hs : s.1 = []
    · obtain rfl := h.some_iff.mp hs
      rw [if_pos hs]
      exact ⟨⟨f.dt, by simp⟩, by simp⟩
    · have hne := h.some_iff.not.mp hs
      obtain ⟨⟨len, hfirst⟩, hall⟩ := h.first hne
      rw [if_neg hs]
      refine ⟨⟨len, (hmem _).mpr (Or.inl hfirst)⟩, ?_⟩
      intro g hg
      obtain hg | rfl := (hmem g).mp hg
      · exact hall g hg
      · have hend := hlater _ hfirst
        have hlen := hpos _ hfirst
        simp only at hend hlen ⊢
        omega

/-- The files of a directory: sorted, apart, and of the map's length where there is no gap. -/
structure FilesOk (period : ℤ) (fs : List TimestampTime) : Prop where
  sorted : fs.Pairwise fun f g => f.gps + f.dt ≤ g.gps
  dt_pos : ∀ f ∈ fs, 0 < f.dt
  adjacent : ∀ f ∈ fs, ∀ g ∈ fs, f.gps + f.dt = g.gps → f.dt = period ∧ g.dt = period

theorem scanOk_foldl (h : FilesOk period fs) :
    ScanOk period fs (fs.foldl (scanFile period) ([], 0)) := by
  -- the induction takes the last file off
  induction fs using List.reverseRecOn with
  | nil => exact scanOk_nil
  | append_singleton fs f ih =>
    obtain ⟨hsorted, hpos, hadjacent⟩ := h
    obtain ⟨hsorted', -, hlater⟩ := List.pairwise_append.mp hsorted
    have hf : f ∈ fs ++ [f] := by simp
    have hmem : ∀ g ∈ fs, g ∈ fs ++ [f] := fun g hg => List.mem_append_left _ hg
    rw [List.foldl_append, List.foldl_cons, List.foldl_nil]
    refine (ih ⟨hsorted', ?_, ?_⟩).step (hpos f hf) ?_ ?_ ?_
    · exact fun g hg => hpos g (hmem g hg)
    · exact fun g hg g' hg' => hadjacent g (hmem g hg) g' (hmem g' hg')
    · exact fun g hg => hlater g hg f (List.mem_singleton.mpr rfl)
    · exact fun g hg => hpos g (hmem g hg)
    · exact fun g hg => hadjacent g (hmem g hg) f hf

/-- The last adjustment changes nothing either. -/
theorem scanOk_scanFiles (h : FilesOk period fs) : ScanOk period fs (scanFiles period fs) := by
  have hok := scanOk_foldl h
  unfold scanFiles
  split
  · next heq => rwa [heq] at hok
  · next cur rest dirMin heq =>
    rw [heq] at hok
    rw [adjustLast_eq (rangesOk_cons.mp hok.fit.ranges).2.1 (hok.several cur rfl)]
    exact hok

end Scan

/-! ## One directory -/

section OneDir

variable {a : FileAttrs} {fs : List TimestampTime}

/-- The files of a directory as they are found there, in any order. -/
structure DirFilesOk (a : FileAttrs) (fs : List TimestampTime) : Prop where
  name : ∀ f ∈ fs, a.NameOk f
  nodup : fs.Nodup
  atMost : fs.length ≤ maxTstamps
  adjacent : ∀ f ∈ fs, ∀ g ∈ fs, f.gps + f.dt = g.gps → f.dt = a.period ∧ g.dt = a.period

/-- No two files share a second. -/
def FilesApart (fs : List TimestampTime) : Prop :=
  ∀ f ∈ fs, ∀ g ∈ fs, f = g ∨ f.gps + f.dt ≤ g.gps ∨ g.gps + g.dt ≤ f.gps

theorem DirFilesOk.filesOk (h : DirFilesOk a fs) (hapart : FilesApart fs) :
    FilesOk a.period (sortTstamps fs) := by
  have hperm : (sortTstamps fs).Perm fs := List.mergeSort_perm ..
  have hmem : ∀ f, f ∈ sortTstamps fs ↔ f ∈ fs := fun f => hperm.mem_iff
  have hsorted : (sortTstamps fs).Pairwise fun f g => f.gps ≤ g.gps := by
    have hle : (sortTstamps fs).Pairwise fun f g => decide (f.gps ≤ g.gps) = true :=
      List.pairwise_mergeSort (by simp only [decide_eq_true_eq]; omega) (by simp; omega) fs
    simpa using hle
  have hnodup : (sortTstamps fs).Pairwise (· ≠ ·) := hperm.nodup_iff.mpr h.nodup
  refine ⟨?_, ?_, ?_⟩
  · refine (hsorted.and hnodup).imp_of_mem ?_
    intro f g hf hg ⟨hle, hne⟩
    have hdt := (h.name g ((hmem g).mp hg)).dt_pos
    obtain heq | hbefore | hafter := hapart f ((hmem f).mp hf) g ((hmem g).mp hg)
    · exact absurd heq hne
    · exact hbefore
    · omega
  · exact fun f hf => (h.name f ((hmem f).mp hf)).dt_pos
  · exact fun f hf g hg => h.adjacent f ((hmem f).mp hf) g ((hmem g).mp hg)

/-- The entries of a directory with the files `fs`, among others that are no names of files. -/
def Shows (a : FileAttrs) (fs : List TimestampTime) (entries : Option (List (List Char))) : Prop :=
  (∃ names, entries = some names ∧ names.filter a.validFname = fs.map a.fileName) ∨
    fs = [] ∧ entries = none

theorem dirOk_scanDir (hsfx : a.SfxOk) (h : DirFilesOk a fs) (hapart : FilesApart fs)
    {entries : Option (List (List Char))} (hentries : Shows a fs entries) {d : Dir}
    (hd : d.blist = []) (hempty : fs = [] → d.minTime = 0 ∧ d.maxTime = 0) :
    DirOk (fun g len => ⟨g, len⟩ ∈ fs) (scanDir a d entries) := by
  have hnone : fs = [] → DirOk (fun g len => ⟨g, len⟩ ∈ fs) d := by
    rintro rfl
    have hfit : RangesFit (fun g len => (⟨g, len⟩ : TimestampTime) ∈ []) d.ranges := by
      simpa [Dir.ranges, hd] using rangesFit_nil
    refine ⟨⟨?_, ?_, ?_, fun _ => hempty rfl⟩, hfit⟩ <;>
      exact fun _ _ hg => absurd hg List.not_mem_nil
  obtain ⟨names, rfl, hnames⟩ | ⟨hfs, rfl⟩ := hentries
  · have htst := readTstamps_eq hsfx h.name h.atMost hnames
    simp only [scanDir, htst]
    by_cases hfs : fs = []
    · rw [if_pos hfs]
      exact hnone hfs
    · rw [if_neg hfs]
      have hok := scanOk_scanFiles (h.filesOk hapart)
      have hmem : ∀ f, f ∈ sortTstamps fs ↔ f ∈ fs := fun f => (List.mergeSort_perm ..).mem_iff
      have hsorted : sortTstamps fs ≠ [] := by
        obtain ⟨f, hf⟩ := List.exists_mem_of_ne_nil fs hfs
        exact List.ne_nil_of_mem ((hmem f).mpr hf)
      split
      · next heq =>
        rw [heq] at hok
        exact absurd (hok.some_iff.mp rfl) hsorted
      · next cur rest dirMin heq =>
        rw [heq] at hok
        have hlast := @RangesFit.last _ _ hok.fit cur rfl
        obtain ⟨⟨len0, hfirst⟩, hmin⟩ := hok.first hsorted
        refine ⟨⟨?_, ?_, ?_, ?_⟩, hok.fit.ranges, ?_⟩
        · exact fun g len hg =>
            ⟨hmin _ ((hmem _).mpr hg), hok.last cur rfl _ ((hmem _).mpr hg)⟩
        · exact fun _ _ _ => ⟨len0, (hmem _).mp hfirst⟩
        · exact fun _ _ _ => ⟨_, _, (hmem _).mp hlast, (Int.sub_add_cancel ..).symm⟩
        · exact fun hno => absurd ((hmem _).mp hfirst) (hno _ _)
        · exact fun g len => (hok.fit.hasFile g len).trans (hmem _)
  · exact hnone hfs

end OneDir

/-! ## The whole scan -/

section Disk

variable {a : FileAttrs} {disk : ℕ → Option (List (List Char))} {s : Filesys}
  {files : ℕ → List TimestampTime} {t : ℤ}

theorem dirNumber_scan_iff (hsfx : a.SfxOk) (hfiles : ∀ d < s.numDirs, DirFilesOk a (files d))
    (hapart : Apart s.numDirs fun d g len => ⟨g, len⟩ ∈ files d)
    (hshows : ∀ d < s.numDirs, Shows a (files d) (disk d)) (hcur : s.curDir < s.numDirs)
    (hempty : ∀ d < s.numDirs, files d = [] → (s.dir d).minTime = 0 ∧ (s.dir d).maxTime = 0)
    {d : ℕ} {g len : ℤ} : ((scan a disk s).dirNumber t).1 = some (d, g, len) ↔
      d < s.numDirs ∧ ⟨g, len⟩ ∈ files d ∧ g ≤ t ∧ t < g + len := by
  have hdirs : ∀ d < (scan a disk s).numDirs,
      DirOk (fun g len => ⟨g, len⟩ ∈ files d) ((scan a disk s).dir d) := by
    intro d hd
    have hdir : (scan a disk s).dir d = scanDir a { s.dir d with blist := [] } (disk d) :=
      if_pos hd
    rw [hdir]
    refine dirOk_scanDir hsfx (hfiles d hd) ?_ (hshows d hd) rfl (hempty d hd)
    intro f hf g hg
    exact (hapart.files d hd _ _ _ _ hf hg).imp_left (TimestampTime.mk.injEq ..).mpr
  have hscan : (scan a disk s).curDir < (scan a disk s).numDirs := hcur
  exact dirNumber_iff hscan hdirs hapart

theorem numDirs_step {secs : ℤ → ℤ} {act : FilesysAction} {e : FilesysEvent} {s' : Filesys}
    (h : step secs s act = some (e, s')) : s'.numDirs = s.numDirs := by
  cases act with
  | write gps =>
    cases h
    exact (numDirs_updateDir ..).1
  | query t =>
    cases h
    change (s.dirNumber t).2.numDirs = s.numDirs
    unfold dirNumber
    split <;> rfl

/-- A scan of a disk whose files have names that can be read and are of the map's own length where
there is no gap between them, answers every query with the file that holds the second, if the files
are apart, also directory by directory. Files that a run of `_update_dir` calls has recorded, each
with a length of its own, are, and the scan then answers as the map of that run. -/
theorem scan_rebuilds (a : FileAttrs) (disk : ℕ → Option (List (List Char))) (s : Filesys)
    (files : ℕ → List TimestampTime) (hsfx : a.SfxOk)
    (hfiles : ∀ d < s.numDirs, DirFilesOk a (files d))
    (hshows : ∀ d < s.numDirs, Shows a (files d) (disk d)) (hcur : s.curDir < s.numDirs)
    (hempty : ∀ d < s.numDirs, files d = [] → (s.dir d).minTime = 0 ∧ (s.dir d).maxTime = 0) :
    (Apart s.numDirs (fun d g len => ⟨g, len⟩ ∈ files d) → ∀ t d g len,
      ((scan a disk s).dirNumber t).1 = some (d, g, len) ↔
        d < s.numDirs ∧ ⟨g, len⟩ ∈ files d ∧ g ≤ t ∧ t < g + len) ∧
    (∀ filesPerDir secs acts tr u, (∀ g, 0 < secs g) → Spaced secs 0 acts →
      PvLib.run (step secs) (start s.numDirs filesPerDir) acts = some (tr, u) →
      (∀ d < s.numDirs, ∀ f, f ∈ files d ↔ ⟨f.gps, d⟩ ∈ recordedFiles tr ∧ f.dt = secs f.gps) →
      ∀ t, ((scan a disk s).dirNumber t).1 = (u.dirNumber t).1) := by
  refine ⟨fun h t d g len => dirNumber_scan_iff hsfx hfiles h hshows hcur hempty, ?_⟩
  intro filesPerDir secs acts tr u hp hspaced hrun hrecorded t
  have hn : 0 < s.numDirs := Nat.zero_lt_of_lt hcur
  obtain ⟨tr', u', hrun', hinv⟩ := (inv_start hn filesPerDir).run hp nofun hspaced
  obtain ⟨rfl, rfl⟩ : tr = tr' ∧ u = u' := by simpa using hrun.symm.trans hrun'
  change Inv secs (recordedFiles tr) u at hinv
  have hnum : u.numDirs = s.numDirs :=
    run_invariant (fun v => v.numDirs = s.numDirs)
      (fun v act _ e v' hv hstep => (numDirs_step hstep).trans hv) rfl hrun
  have hin : ∀ d < s.numDirs, filesIn secs (recordedFiles tr) d = fun g len => ⟨g, len⟩ ∈ files d :=
    fun d hd => funext₂ fun g len => propext (hrecorded d hd ⟨g, len⟩).symm
  have hapart : Apart s.numDirs fun d g len => ⟨g, len⟩ ∈ files d := by
    obtain ⟨hone, htwo⟩ := hnum ▸ hinv.apart
    refine ⟨fun d hd => ?_, fun d hd d' hd' hne => ?_⟩
    · have hfiles := hone d hd
      rwa [hin d hd] at hfiles
    · have hdirs := htwo d hd d' hd' hne
      rwa [hin d hd, hin d' hd'] at hdirs
  -- no directory has files of two lengths without a gap between them
  have huniform : ∀ d < u.numDirs, Uniform (filesIn secs (recordedFiles tr) d) := by
    rw [hnum]
    intro d hd g len len' hg hg'
    rw [hin d hd] at hg hg'
    obtain ⟨hlen, hlen'⟩ := (hfiles d hd).adjacent _ hg _ hg' rfl
    exact hlen.trans hlen'.symm
  ext ⟨d, g, len⟩
  rw [dirNumber_scan_iff hsfx hfiles hapart hshows hcur hempty, hinv.dirNumber_iff huniform]
  constructor
  · rintro ⟨hd, hmem, hle, hlt⟩
    obtain ⟨hrec, hlen⟩ := (hrecorded d hd _).mp hmem
    obtain rfl : len = secs g := hlen
    exact ⟨hrec, rfl, hle, hlt⟩
  · rintro ⟨hrec, rfl, hle, hlt⟩
    have hd : d < s.numDirs := hnum ▸ hinv.dir_lt _ hrec
    exact ⟨hd, (hrecorded d hd _).mpr ⟨hrec, rfl⟩, hle, hlt⟩

/-- Two of three directories are in use, with the files of the first found in the wrong order. -/
theorem scan_rebuilds_three :
    let a : FileAttrs := ⟨"C1-".toList, ".gwf".toList, 16⟩
    let files : ℕ → List TimestampTime
      | 0 => [⟨116, 16⟩, ⟨100, 16⟩]
      | 1 => [⟨140, 32⟩]
      | _ => []
    let disk := fun d => some (".".toList :: "..".toList :: (files d).map a.fileName)
    let secs : ℤ → ℤ := fun g => if g = 140 then 32 else 16
    ∃ tr u, PvLib.run (step secs) (start 3 2) [.write 100, .write 116, .write 140] = some (tr, u) ∧
      ∀ t, ((scan a disk (start 3 10)).dirNumber t).1 = (u.dirNumber t).1 := by
  intro a files disk secs
  have hsfx : a.SfxOk := FileAttrs.sfxOk_gwf _ _
  have hname : ∀ d, ∀ f ∈ files d, a.NameOk f := by
    intro d f hf
    have hprx := FileAttrs.length_prx_le a f
    match d with
    | 0 =>
      obtain rfl | rfl : f = ⟨116, 16⟩ ∨ f = ⟨100, 16⟩ := by simpa [files] using hf
      all_goals exact ⟨by decide, by decide, by decide, by decide, hprx⟩
    | 1 =>
      obtain rfl : f = ⟨140, 32⟩ := by simpa [files] using hf
      exact ⟨by decide, by decide, by decide, by decide, hprx⟩
    | _ + 2 => exact absurd hf List.not_mem_nil
  have hshows : ∀ d < 3, Shows a (files d) (disk d) := by
    intro d _
    refine Or.inl ⟨_, rfl, ?_⟩
    rw [List.filter_cons_of_neg (by decide), List.filter_cons_of_neg (by decide)]
    exact FileAttrs.filter_validFname (hname d)
  have hfiles : ∀ d < 3, DirFilesOk a (files d) := by
    have hnodup : ∀ d < 3, (files d).Nodup := by decide
    have hmost : ∀ d < 3, (files d).length ≤ maxTstamps := by decide
    have hadjacent : ∀ d < 3, ∀ f ∈ files d, ∀ g ∈ files d, f.gps + f.dt = g.gps →
        f.dt = 16 ∧ g.dt = 16 := by decide
    exact fun d hd => ⟨hname d, hnodup d hd, hmost d hd, hadjacent d hd⟩
  have hp : ∀ g, 0 < secs g := by
    intro g
    simp only [secs]
    split <;> decide
  have hspaced : Spaced secs 0 [.write 100, .write 116, .write 140] :=
    ⟨by decide, by decide, by decide, trivial⟩
  obtain ⟨tr, u, hrun, -⟩ := (inv_start (n := 3) (by decide) 2).run hp nofun hspaced
  have htr : recordedFiles tr = [⟨100, 0⟩, ⟨116, 0⟩, ⟨140, 1⟩] := by
    have hrecorded := congrArg (Option.map fun r => recordedFiles r.1) hrun
    exact (Option.some.inj hrecorded).symm
  refine ⟨tr, u, hrun, (scan_rebuilds a disk (start 3 10) files hsfx hfiles hshows (by decide)
    fun _ _ _ => ⟨rfl, rfl⟩).2 2 secs _ tr u hp hspaced hrun ?_⟩
  rw [htr]
  intro d hd ⟨g, dt⟩
  match d with
  | 0 => grind
  | 1 => grind
  | _ + 2 => simp [files]

/-- The second `t` of one of the files, the only ones on the disk, is not found after a scan. -/
structure Lost (a : FileAttrs) (files : List TimestampTime) (t : ℤ) : Prop where
  sfx : a.SfxOk
  name : ∀ f ∈ files, a.NameOk f
  apart : files.Pairwise fun f g => f.gps + f.dt ≤ g.gps
  inFile : ∃ f ∈ files, f.gps ≤ t ∧ t < f.gps + f.dt
  atMost : files.length ≤ maxTstamps
  notFound : ((scan a (fun _ => some (files.map a.fileName)) (start 1 100)).dirNumber t).1 = none

/-- Behind the end of the current range nothing is found. -/
theorem lost_of_end {files : List TimestampTime} (hsfx : a.SfxOk) (hname : ∀ f ∈ files, a.NameOk f)
    (hapart : files.Pairwise fun f g => f.gps + f.dt ≤ g.gps) (hroom : files.length ≤ maxTstamps)
    (hfile : ∃ f ∈ files, f.gps ≤ t ∧ t < f.gps + f.dt) {cur : RangeBlock} {rest : List RangeBlock}
    {dirMin : ℤ} (hscan : scanFiles a.period files = (cur :: rest, dirMin))
    (hend : cur.current.maxTime ≤ t) : Lost a files t := by
  refine ⟨hsfx, hname, hapart, hfile, hroom, ?_⟩
  have hread := readTstamps_eq hsfx hname hroom (FileAttrs.filter_validFname hname)
  have hsort : sortTstamps files = files := by
    refine List.mergeSort_of_pairwise (hapart.imp_of_mem fun hf _ hle => ?_)
    have hdt := (hname _ hf).dt_pos
    exact decide_eq_true (by omega)
  obtain ⟨f, hf, -⟩ := hfile
  have hmax : ((scan a (fun _ => some (files.map a.fileName)) (start 1 100)).dir 0).maxTime
      = cur.current.maxTime := by
    change (scanDir a {} (some (files.map a.fileName))).maxTime = _
    simp only [scanDir, hread, hsort, hscan, if_neg (List.ne_nil_of_mem hf)]
  rw [dirNumber_fst]
  exact if_neg fun hspan => absurd hspan.2 (by
    change ¬ ((scan a _ (start 1 100)).dir 0).maxTime > t
    omega)

/-- A file that begins where a shorter one ends is taken to be as long as that one, and the last of
several files without a gap is taken to be as long as the period of the map. -/
theorem scan_not_rebuilds :
    Lost ⟨"C1-".toList, ".gwf".toList, 2⟩ [⟨10, 2⟩, ⟨12, 4⟩] 15 ∧
      Lost ⟨"C1-".toList, ".gwf".toList, 60⟩ [⟨3600, 3600⟩, ⟨7200, 3600⟩] 7260 := by
  constructor
  · refine lost_of_end (FileAttrs.sfxOk_gwf _ _) ?_ (by decide) (by decide) (by decide) rfl
      (by decide)
    intro f hf
    have hprx := FileAttrs.length_prx_le ⟨"C1-".toList, ".gwf".toList, 2⟩ f
    obtain rfl | rfl : f = ⟨10, 2⟩ ∨ f = ⟨12, 4⟩ := by simpa using hf
    all_goals exact ⟨by decide, by decide, by decide, by decide, hprx⟩
  · refine lost_of_end (FileAttrs.sfxOk_gwf _ _) ?_ (by decide) (by decide) (by decide) rfl
      (by decide)
    intro f hf
    have hprx := FileAttrs.length_prx_le ⟨"C1-".toList, ".gwf".toList, 60⟩ f
    obtain rfl | rfl : f = ⟨3600, 3600⟩ ∨ f = ⟨7200, 3600⟩ := by simpa using hf
    all_goals exact ⟨by decide, by decide, by decide, by decide, hprx⟩

end Disk

end Filesys

end AdvLigoRts.Daqd
