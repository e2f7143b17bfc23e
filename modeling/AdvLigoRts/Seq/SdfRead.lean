import AdvLigoRts.Seq.SdfSave
import Mathlib.Data.List.Induction

/-!
# What reading a file leaves

A file is read as a list of settings. Each channel takes the settings with its name, and a filter is
marked if a setting names one of its switch channels.
-/

namespace AdvLigoRts.Seq

open PvLib

variable {K : Type} {fp : Doubles K} {command : SdfCommand}

/-! ## Settings -/

/-- `readLines` for the settings of the lines. -/
def readSettings (fp : Doubles K) (command : SdfCommand) :
    List Setting → ℕ → SdfState K → SdfState K × Bool
  | [], _, s => (s, true)
  | l :: ls, chNumP, s =>
    let chNumP := if ¬isAlarmChannel l.name ∧ inTable s l.name then chNumP + 1 else chNumP
    let s := readSetting fp command s l
    if sdfMaxChans ≤ chNumP then (s, false) else readSettings fp command ls chNumP s

theorem readLines_eq (pref : List Char) (lines : List (List Char)) (chNumP : ℕ) (s : SdfState K) :
    readLines fp command pref lines chNumP s =
      readSettings fp command (lines.filterMap (lineSetting pref)) chNumP s := by
  induction lines generalizing chNumP s with
  | nil => rfl
  | cons line lines ih =>
    unfold readLines
    cases hline : lineSetting pref line with
    | none => rw [List.filterMap_cons_none hline, ih]
    | some l =>
      rw [List.filterMap_cons_some hline]
      unfold readSettings
      simp only [ih]

theorem readSettings_take (ls : List Setting) (chNumP : ℕ)
    (s : SdfState K) :
    ∃ k, (readSettings fp command ls chNumP s).1 =
      (ls.take k).foldl (readSetting fp command) s := by
  induction ls generalizing chNumP s with
  | nil => exact ⟨0, rfl⟩
  | cons l ls ih =>
    unfold readSettings
    dsimp only
    generalize (if ¬isAlarmChannel l.name = true ∧ inTable s l.name = true then chNumP + 1
      else chNumP) = chNumP'
    split
    · exact ⟨1, rfl⟩
    · obtain ⟨k, hk⟩ := ih chNumP' (readSetting fp command s l)
      exact ⟨k + 1, hk⟩

/-- What the settings make of a channel. -/
def applySettings (fp : Doubles K) (command : SdfCommand) (ls : List Setting) (cd : CdsCdTable K) :
    CdsCdTable K :=
  ls.foldl (fun cd l => if isAlarmChannel l.name then cd else applySetting fp command l cd) cd

theorem applySetting_chname (l : Setting) (cd : CdsCdTable K) :
    (applySetting fp command l cd).chname = cd.chname := by
  unfold applySetting
  split <;> rfl

section ReadSetting

variable (s : SdfState K) (l : Setting)

theorem markFilter_cdTable (name : List Char) : (markFilter s name).cdTable = s.cdTable := by
  unfold markFilter
  split <;> rfl

theorem markFilter_chNum (name : List Char) : (markFilter s name).chNum = s.chNum := by
  unfold markFilter
  split <;> rfl

theorem markFilter_fmNum (name : List Char) : (markFilter s name).fmNum = s.fmNum := by
  unfold markFilter
  split <;> rfl

theorem markFilter_filterTable (name : List Char) (i : ℕ) :
    (markFilter s name).filterTable i =
      { s.filterTable i with
        newSet := (s.filterTable i).newSet || decide (filterOf s name = some i) } := by
  unfold markFilter
  cases hf : filterOf s name with
  | none => simp
  | some j =>
    by_cases hij : i = j
    · subst hij
      simp [SdfState.setFilter]
    · simp [SdfState.setFilter, Function.update_of_ne hij, Ne.symm hij]

theorem readSetting_cdTable (ii : ℕ) :
    (readSetting fp command s l).cdTable ii =
      if ii < s.chNum ∧ ¬isAlarmChannel l.name then applySetting fp command l (s.cdTable ii)
      else s.cdTable ii := by
  unfold readSetting
  rw [markFilter_cdTable]
  by_cases ha : isAlarmChannel l.name = true <;> by_cases hi : ii < s.chNum <;> simp [ha, hi]

theorem readSetting_chNum : (readSetting fp command s l).chNum = s.chNum := by
  unfold readSetting
  rw [markFilter_chNum]
  split <;> rfl

theorem readSetting_fmNum : (readSetting fp command s l).fmNum = s.fmNum := by
  unfold readSetting
  rw [markFilter_fmNum]
  split <;> rfl

theorem filterOf_congr {s t : SdfState K} (hnum : t.fmNum = s.fmNum)
    (hname : ∀ i, (t.filterTable i).fname = (s.filterTable i).fname) (name : List Char) :
    filterOf t name = filterOf s name := by
  unfold filterOf
  rw [hnum]
  simp only [hname]

theorem readSetting_filterTable (i : ℕ) :
    (readSetting fp command s l).filterTable i =
      { s.filterTable i with
        newSet := (s.filterTable i).newSet || decide (filterOf s l.name = some i) } := by
  unfold readSetting
  rw [markFilter_filterTable]
  by_cases ha : isAlarmChannel l.name = true
  · simp only [ha, if_true]
  · simp only [ha, Bool.false_eq_true, if_false]
    rfl

theorem filterOf_readSetting (name : List Char) :
    filterOf (readSetting fp command s l) name = filterOf s name :=
  filterOf_congr (readSetting_fmNum s l) (fun i => by rw [readSetting_filterTable]) name

end ReadSetting

theorem inTable_readSetting (s : SdfState K) (l : Setting) (name : List Char) :
    inTable (readSetting fp command s l) name = inTable s name := by
  unfold inTable
  rw [readSetting_chNum]
  have hname : ∀ ii, ((readSetting fp command s l).cdTable ii).chname = (s.cdTable ii).chname := by
    intro ii
    rw [readSetting_cdTable]
    split
    · exact applySetting_chname l _
    · rfl
  simp only [hname]

variable {ls : List Setting}

theorem readSettings_eq {chNumP : ℕ} {s : SdfState K}
    (h : chNumP + ls.countP (isCounted s) < sdfMaxChans) :
    readSettings fp command ls chNumP s = (ls.foldl (readSetting fp command) s, true) := by
  induction ls generalizing chNumP s with
  | nil => rfl
  | cons l ls ih =>
    have hcounted : isCounted (readSetting fp command s l) = isCounted s := by
      funext l'
      unfold isCounted
      rw [inTable_readSetting]
    have hif : (¬isAlarmChannel l.name = true ∧ inTable s l.name = true) ↔
        isCounted s l = true := by simp [isCounted]
    rw [List.countP_cons] at h
    unfold readSettings
    simp only [hif]
    by_cases hl : isCounted s l = true
    · rw [if_pos hl] at h ⊢
      rw [if_neg (by omega), ih (by rw [hcounted]; omega)]
      rfl
    · rw [if_neg hl] at h ⊢
      rw [if_neg (by omega), ih (by rw [hcounted]; omega)]
      rfl

theorem foldl_readSetting_chNum (ls : List Setting) (s : SdfState K) :
    (ls.foldl (readSetting fp command) s).chNum = s.chNum := by
  induction ls generalizing s with
  | nil => rfl
  | cons l ls ih => rw [List.foldl_cons, ih, readSetting_chNum]

theorem foldl_readSetting_fmNum (ls : List Setting) (s : SdfState K) :
    (ls.foldl (readSetting fp command) s).fmNum = s.fmNum := by
  induction ls generalizing s with
  | nil => rfl
  | cons l ls ih => rw [List.foldl_cons, ih, readSetting_fmNum]

theorem foldl_readSetting_cdTable (ls : List Setting) (s : SdfState K) (ii : ℕ) :
    (ls.foldl (readSetting fp command) s).cdTable ii =
      if ii < s.chNum then applySettings fp command ls (s.cdTable ii) else s.cdTable ii := by
  induction ls generalizing s with
  | nil =>
    split <;> rfl
  | cons l ls ih =>
    rw [List.foldl_cons, ih, readSetting_chNum, readSetting_cdTable]
    unfold applySettings
    by_cases hi : ii < s.chNum <;> by_cases ha : isAlarmChannel l.name = true <;> simp [hi, ha]

theorem foldl_readSetting_filterTable (ls : List Setting) (s : SdfState K) (i : ℕ) :
    (ls.foldl (readSetting fp command) s).filterTable i =
      { s.filterTable i with
        newSet := (s.filterTable i).newSet ||
          ls.any fun l => decide (filterOf s l.name = some i) } := by
  induction ls generalizing s with
  | nil => simp
  | cons l ls ih =>
    rw [List.foldl_cons, ih, readSetting_filterTable]
    simp only [filterOf_readSetting, List.any_cons, Bool.or_assoc]

/-! ## Settings of one channel -/

variable {cd : CdsCdTable K}

theorem applySetting_of_ne {l : Setting} (h : l.name ≠ cd.chname) :
    applySetting fp command l cd = cd := if_neg fun hl => h hl.1.symm

theorem applySetting_of_eq {l : Setting} (h : l.name = cd.chname)
    (hcommand : command ≠ .loadDbOnly) :
    applySetting fp command l cd =
      { cd with data := readData fp cd l.value, mask := l.mask, initialized := true } :=
  if_pos ⟨h.symm, hcommand⟩

theorem applySettings_cons (l : Setting) (ls : List Setting) (cd : CdsCdTable K) :
    applySettings fp command (l :: ls) cd = applySettings fp command ls
      (if isAlarmChannel l.name then cd else applySetting fp command l cd) := rfl

theorem applySettings_of_unnamed (h : ∀ l ∈ ls, l.name ≠ cd.chname) :
    applySettings fp command ls cd = cd := by
  induction ls with
  | nil => rfl
  | cons l ls ih =>
    rw [applySettings_cons, applySetting_of_ne (h l List.mem_cons_self), ite_self]
    exact ih fun l' hl' => h l' (List.mem_cons_of_mem l hl')

theorem applySettings_eq_with (ls : List Setting) (cd : CdsCdTable K) :
    ∃ data mask initialized, applySettings fp command ls cd =
      { cd with data := data, mask := mask, initialized := initialized } := by
  induction ls generalizing cd with
  | nil => exact ⟨_, _, _, rfl⟩
  | cons l ls ih =>
    obtain ⟨data, mask, initialized, h⟩ :=
      ih (if isAlarmChannel l.name then cd else applySetting fp command l cd)
    refine ⟨data, mask, initialized, ?_⟩
    rw [applySettings_cons, h]
    unfold applySetting
    split
    · rfl
    · split <;> rfl

/-- A channel that is initialised stays so. -/
theorem applySettings_initialized (h : cd.initialized = true) :
    (applySettings fp command ls cd).initialized = true := by
  induction ls generalizing cd with
  | nil => exact h
  | cons l ls ih =>
    rw [applySettings_cons]
    refine ih ?_
    split
    · exact h
    · unfold applySetting
      split
      · rfl
      · exact h

theorem applySettings_named {l : Setting} (hl : l ∈ ls) (hname : l.name = cd.chname)
    (halarm : isAlarmChannel cd.chname = false) (hcommand : command ≠ .loadDbOnly) :
    (applySettings fp command ls cd).initialized = true := by
  induction ls generalizing cd with
  | nil => cases hl
  | cons l' ls ih =>
    rw [applySettings_cons]
    rcases List.mem_cons.mp hl with rfl | hl
    · refine applySettings_initialized ?_
      rw [hname, halarm, if_neg Bool.false_ne_true, applySetting_of_eq hname hcommand]
    · have hkeep : (if isAlarmChannel l'.name then cd
          else applySetting fp command l' cd).chname = cd.chname := by
        split
        · rfl
        · exact applySetting_chname l' cd
      refine ih hl ?_ ?_
      · rw [hkeep, hname]
      · rw [hkeep, halarm]

theorem applySettings_eq {l : Setting} (hname : l.name = cd.chname)
    (halarm : isAlarmChannel cd.chname = false) (hcommand : command ≠ .loadDbOnly)
    (honly : ∀ l' ∈ ls, l'.name = cd.chname → l' = l) :
    applySettings fp command ls cd =
      if l ∈ ls then
        { cd with data := readData fp cd l.value, mask := l.mask, initialized := true }
      else cd := by
  unfold applySettings
  induction ls using List.reverseRecOn with
  | nil => rfl
  | append_singleton ls l' ih =>
    have hrest := ih fun x hx => honly x (List.mem_append_left _ hx)
    rw [List.foldl_append, hrest, List.foldl_cons, List.foldl_nil]
    by_cases hl' : l'.name = cd.chname
    · have heq := honly l' (by simp) hl'
      subst heq
      have halarm' : ¬isAlarmChannel l'.name = true := by
        rw [hname, halarm]
        exact Bool.false_ne_true
      rw [if_neg halarm', if_pos (show l' ∈ ls ++ [l'] by simp)]
      by_cases hin : l' ∈ ls
      · rw [if_pos hin]
        exact applySetting_of_eq hname hcommand
      · rw [if_neg hin]
        exact applySetting_of_eq hname hcommand
    · have hmem : l ∈ ls ++ [l'] ↔ l ∈ ls := by
        rw [List.mem_append, List.mem_singleton]
        exact ⟨fun h => h.resolve_right fun heq => hl' (heq ▸ hname), .inl⟩
      have hkeep : ∀ cd' : CdsCdTable K, cd'.chname = cd.chname →
          (if isAlarmChannel l'.name = true then cd' else applySetting fp command l' cd') =
            cd' := by
        intro cd' hcd'
        split
        · rfl
        · exact applySetting_of_ne fun heq => hl' (heq.trans hcd')
      by_cases hin : l ∈ ls
      · rw [if_pos hin, if_pos (hmem.mpr hin)]
        exact hkeep _ rfl
      · rw [if_neg hin, if_neg (mt hmem.mp hin)]
        exact hkeep _ rfl

theorem applySettings_value (hcd : cd.initialized = false)
    (h : (applySettings fp command ls cd).initialized = true) :
    ∃ l ∈ ls, (applySettings fp command ls cd).data = readData fp cd l.value := by
  induction ls using List.reverseRecOn with
  | nil =>
    change cd.initialized = true at h
    rw [hcd] at h
    cases h
  | append_singleton ls l ih =>
    obtain ⟨data, mask, initialized, hshape⟩ : ∃ data mask initialized,
        applySettings fp command ls cd =
          { cd with data := data, mask := mask, initialized := initialized } :=
      applySettings_eq_with ls cd
    have hstep : applySettings fp command (ls ++ [l]) cd =
        if isAlarmChannel l.name = true then applySettings fp command ls cd
        else applySetting fp command l (applySettings fp command ls cd) := by
      unfold applySettings
      rw [List.foldl_append]
      rfl
    rw [hstep] at h ⊢
    by_cases hset : isAlarmChannel l.name ≠ true ∧
        (applySettings fp command ls cd).chname = l.name ∧ command ≠ .loadDbOnly
    · refine ⟨l, by simp, ?_⟩
      rw [if_neg hset.1]
      unfold applySetting
      rw [if_pos hset.2]
      simp only [hshape, readData]
    · have hkeep : (if isAlarmChannel l.name = true then applySettings fp command ls cd
          else applySetting fp command l (applySettings fp command ls cd)) =
          applySettings fp command ls cd := by
        split
        · rfl
        · rename_i ha
          exact if_neg fun hl => hset ⟨ha, hl⟩
      rw [hkeep] at h ⊢
      obtain ⟨l', hl', hdata⟩ := ih h
      exact ⟨l', List.mem_append_left _ hl', hdata⟩

/-! ## Masks of filters -/

/-- Two channels get what either of them has. -/
def merge (m : ℕ → BitVec 32) (sw : ℕ × ℕ) : ℕ → BitVec 32 :=
  Function.update (Function.update m sw.1 (m sw.1 ||| m sw.2)) sw.2 (m sw.1 ||| m sw.2)

/-- What the first channel has in its mask gets to the second, through the filters in order. -/
def Linked : List (ℕ × ℕ) → ℕ → ℕ → Prop
  | [], d, c => d = c
  | sw :: rows, d, c =>
    ∃ e, (e = d ∨ (d = sw.1 ∨ d = sw.2) ∧ (e = sw.1 ∨ e = sw.2)) ∧ Linked rows e c

theorem merge_apply (m : ℕ → BitVec 32) (sw : ℕ × ℕ) (c : ℕ) :
    merge m sw c = if c = sw.1 ∨ c = sw.2 then m sw.1 ||| m sw.2 else m c := by
  unfold merge
  by_cases h2 : c = sw.2
  · rw [h2, Function.update_self, if_pos (.inr rfl)]
  · rw [Function.update_of_ne h2]
    by_cases h1 : c = sw.1
    · rw [h1, Function.update_self, if_pos (.inl rfl)]
    · rw [Function.update_of_ne h1, if_neg (not_or.mpr ⟨h1, h2⟩)]

/-- The bits of a mask after the filters are those of the channels that are linked to it. -/
theorem getLsbD_foldl_merge (rows : List (ℕ × ℕ)) (m : ℕ → BitVec 32) (c k : ℕ) :
    (rows.foldl merge m c).getLsbD k = true ↔
      ∃ d, Linked rows d c ∧ (m d).getLsbD k = true := by
  induction rows generalizing m with
  | nil => simp [Linked]
  | cons sw rows ih =>
    rw [List.foldl_cons, ih]
    constructor
    · rintro ⟨e, hlink, hbit⟩
      rw [merge_apply] at hbit
      split at hbit
      case isTrue he =>
        rw [BitVec.getLsbD_or, Bool.or_eq_true] at hbit
        rcases hbit with hbit | hbit
        · exact ⟨sw.1, ⟨e, .inr ⟨.inl rfl, he⟩, hlink⟩, hbit⟩
        · exact ⟨sw.2, ⟨e, .inr ⟨.inr rfl, he⟩, hlink⟩, hbit⟩
      case isFalse => exact ⟨e, ⟨e, .inl rfl, hlink⟩, hbit⟩
    · rintro ⟨d, ⟨e, hstep, hlink⟩, hbit⟩
      refine ⟨e, hlink, ?_⟩
      rw [merge_apply]
      split
      case isTrue he =>
        rw [BitVec.getLsbD_or, Bool.or_eq_true]
        rcases hstep with rfl | ⟨rfl | rfl, -⟩
        · rcases he with rfl | rfl
          · exact .inl hbit
          · exact .inr hbit
        · exact .inl hbit
        · exact .inr hbit
      case isFalse he =>
        rcases hstep with rfl | ⟨-, hin⟩
        · exact hbit
        · exact absurd hin he

/-- The switch channels of the marked filters, in their order. -/
def markedRows (s : SdfState K) (l : List ℕ) : List (ℕ × ℕ) :=
  (l.filter fun i => (s.filterTable i).newSet).map fun i => (s.filterTable i).sw

theorem newfilterstat_cdTable (s : SdfState K) (ii c : ℕ) :
    (newfilterstat fp s ii).cdTable c =
      { s.cdTable c with
        mask :=
          if (s.filterTable ii).newSet then
            merge (fun c => (s.cdTable c).mask) (s.filterTable ii).sw c
          else (s.cdTable c).mask } := by
  unfold newfilterstat
  dsimp only
  split
  · rw [merge_apply]
    dsimp only [SdfState.setFilter, SdfState.setCd]
    by_cases h2 : c = (s.filterTable ii).sw.2
    · by_cases h21 : (s.filterTable ii).sw.2 = (s.filterTable ii).sw.1
      · rw [h2, Function.update_self, h21, Function.update_self, if_pos (.inl rfl)]
      · rw [h2, Function.update_self, Function.update_of_ne h21, if_pos (.inr rfl)]
    · rw [Function.update_of_ne h2]
      by_cases h1 : c = (s.filterTable ii).sw.1
      · rw [h1, Function.update_self, if_pos (.inl rfl)]
      · rw [Function.update_of_ne h1, if_neg (not_or.mpr ⟨h1, h2⟩)]
  · rfl

theorem newfilterstat_filterTable_of_ne {s : SdfState K} {ii i : ℕ} (h : i ≠ ii) :
    (newfilterstat fp s ii).filterTable i = s.filterTable i := by
  unfold newfilterstat
  dsimp only
  split
  · exact Function.update_of_ne h _ _
  · rfl

/-- `newfilterstats` changes nothing in `cdTable` but the masks. -/
theorem foldl_newfilterstat_cdTable {l : List ℕ} (h : l.Nodup) (s : SdfState K) (c : ℕ) :
    (l.foldl (newfilterstat fp) s).cdTable c =
      { s.cdTable c with
        mask := (markedRows s l).foldl merge (fun c => (s.cdTable c).mask) c } := by
  induction l generalizing s with
  | nil => rfl
  | cons ii l ih =>
    obtain ⟨hii, hl⟩ := List.nodup_cons.mp h
    have hfilter : ∀ i ∈ l, (newfilterstat fp s ii).filterTable i = s.filterTable i :=
      fun i hi => newfilterstat_filterTable_of_ne fun heq => hii (heq ▸ hi)
    have hrows : markedRows (newfilterstat fp s ii) l = markedRows s l := by
      unfold markedRows
      have hkeep : (l.filter fun i => ((newfilterstat fp s ii).filterTable i).newSet) =
          l.filter fun i => (s.filterTable i).newSet :=
        List.filter_congr fun i hi => by rw [hfilter i hi]
      rw [hkeep]
      exact List.map_congr_left fun i hi => by rw [hfilter i (List.mem_of_mem_filter hi)]
    rw [List.foldl_cons, ih hl, hrows]
    simp only [newfilterstat_cdTable]
    by_cases hnew : (s.filterTable ii).newSet = true
    · simp only [markedRows, List.filter_cons, hnew, if_true, List.map_cons, List.foldl_cons]
    · simp only [markedRows, List.filter_cons, hnew, Bool.false_eq_true, if_false]

end AdvLigoRts.Seq
