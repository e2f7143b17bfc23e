import AdvLigoRts.Seq.SdfRead
import Mathlib.Tactic.IntervalCases

/-!
# Saving and restoring the settings

The file that `writeTable2File` saves for the set points is read by `readConfig` into the same table
with everything uninitialised.
-/

namespace AdvLigoRts.Seq

open PvLib

variable {K : Type}

/-- The table with everything uninitialised. -/
def SdfState.uninitialized (s : SdfState K) : SdfState K :=
  { s with cdTable := fun ii => { s.cdTable ii with initialized := false } }

/-- Saving the set points, and reading the file into the same table. -/
def restore (fp : Doubles K) (h : BurtHeader) (pref : List Char) (s : SdfState K) : SdfState K :=
  readConfig fp pref (some (writeTable2File fp h .paramsOnly s)) .readOnly s.uninitialized

/-- Tables that a file can hold. -/
structure SdfState.Savable (fp : Doubles K) (pref : List Char) (s : SdfState K) : Prop where
  size : s.chNum ≤ sdfMaxTsize
  distinct : ∀ i < s.chNum, ∀ j < s.chNum, (s.cdTable i).chname = (s.cdTable j).chname → i = j
  channel : ∀ i < s.chNum, (s.cdTable i).Savable fp pref

/-- Two masks of a channel monitor the same. -/
def CdsCdTable.SameMonitoring (cd cd' : CdsCdTable K) : Prop :=
  if cd.filterswitch ≠ 0 then cd'.mask &&& allSwstatBits = cd.mask &&& allSwstatBits
  else cd'.mask = 0 ↔ cd.mask = 0

/-- The table `t` has what was saved of `s`. -/
structure Restored (s t : SdfState K) : Prop where
  saved : ∀ ii < s.chNum, (s.cdTable ii).initialized = true →
    (t.cdTable ii).initialized = true ∧ (t.cdTable ii).data = (s.cdTable ii).data ∧
      (s.cdTable ii).SameMonitoring (t.cdTable ii)
  others : ∀ ii < s.chNum, (s.cdTable ii).initialized = false →
    (t.cdTable ii).initialized = false

/-! ## The condition -/

/-- A channel that is written to the file. -/
def SdfState.isSaved (s : SdfState K) (ii : ℕ) : Bool :=
  decide (ii < s.chNum) && (s.cdTable ii).initialized

/-- The mask of a channel once the file is read: what its line says, or what it was. -/
def SdfState.fileMask (fp : Doubles K) (s : SdfState K) (ii : ℕ) : BitVec 32 :=
  if s.isSaved ii then readMask 4 (cutMonitor fp (s.cdTable ii)) else (s.cdTable ii).mask

/-- The switch channels of the filters that the file names, in their order. -/
def SdfState.savedRows (s : SdfState K) : List (ℕ × ℕ) :=
  ((List.range s.fmNum).filter fun i => (s.filterTable i).newSet ||
    (List.range s.chNum).any fun ii =>
      s.isSaved ii && decide (filterOf s (s.cdTable ii).chname = some i)).map
    fun i => (s.filterTable i).sw

/-- The channels that are linked to a channel through filters ask together for what it monitors. -/
def SdfState.MaskKept (fp : Doubles K) (s : SdfState K) (ii : ℕ) : Prop :=
  if (s.cdTable ii).filterswitch ≠ 0 then
    ∀ k, allSwstatBits.getLsbD k = true →
      ((∃ d, Linked s.savedRows d ii ∧ (s.fileMask fp d).getLsbD k = true) ↔
        (s.cdTable ii).mask.getLsbD k = true)
  else (∃ d, Linked s.savedRows d ii ∧ s.fileMask fp d ≠ 0) ↔ (s.cdTable ii).mask ≠ 0

/-- A value that comes back from its line. -/
structure CdsCdTable.Restorable (fp : Doubles K) (cd : CdsCdTable K) : Prop where
  line : '\n' ∉ cd.text fp
  escape : cd.text fp ≠ ['\\', '0']
  fits : cd.Fits fp
  switch : cd.datatype = .num → cd.filterswitch ≠ 0 →
    switchValue fp (cd.data.asChval fp) = cd.data.asChval fp

/-- When a table is restored. -/
def SdfState.Restorable (fp : Doubles K) (s : SdfState K) : Prop :=
  ∀ ii < s.chNum, (s.cdTable ii).initialized = true →
    (s.cdTable ii).Restorable fp ∧ s.MaskKept fp ii

/-! ## The settings of the file -/

variable {cd : CdsCdTable K}

section File

variable {fp : Doubles K} {pref : List Char}

theorem settingsIn_flatMap {text : ℕ → List Char}
    (h : ∀ ii, text ii = [] ∨ (text ii).getLast? = some '\n') (l : List ℕ) :
    settingsIn pref (l.flatMap text) = l.flatMap fun ii => settingsIn pref (text ii) := by
  induction l with
  | nil => rfl
  | cons ii l ih =>
    rw [List.flatMap_cons, List.flatMap_cons]
    rcases h ii with hnil | hlast
    · rw [hnil, List.nil_append, ih]
      rfl
    · rw [settingsIn_append hlast, ih]

theorem channelText_last (cd : CdsCdTable K) :
    channelText fp .paramsOnly cd = [] ∨
      (channelText fp .paramsOnly cd).getLast? = some '\n' := by
  cases hinit : cd.initialized with
  | false =>
    left
    unfold channelText
    rw [hinit]
    rfl
  | true =>
    right
    rw [channelText_saved hinit]
    exact List.getLast?_concat

theorem settingsIn_unsaved (h : cd.initialized = false) :
    settingsIn pref (channelText fp .paramsOnly cd) = [] := by
  unfold channelText
  rw [h]
  rfl

theorem settingsIn_file (hpref : pref[2]? = some ':') (h : BurtHeader) (s : SdfState K) :
    settingsIn pref (writeTable2File fp h .paramsOnly s) =
      (List.range s.chNum).flatMap fun ii =>
        settingsIn pref (channelText fp .paramsOnly (s.cdTable ii)) := by
  unfold writeTable2File
  rw [settingsIn_header hpref]
  exact settingsIn_flatMap (fun ii => channelText_last (s.cdTable ii)) _

theorem nul_notMem_file (h : BurtHeader) (hs : s.Savable fp pref) :
    '\x00' ∉ writeTable2File fp h .paramsOnly s := by
  obtain ⟨hdir, htime⟩ := not_or.mp (List.mem_append.not.mp h.nul)
  have hheader : '\x00' ∉ h.text := by
    unfold BurtHeader.text
    rw [List.mem_flatMap]
    rintro ⟨l, hl, hmem⟩
    rw [List.mem_append, or_iff_left (by decide)] at hmem
    unfold BurtHeader.lines at hl
    simp only [List.mem_cons, List.not_mem_nil, or_false] at hl
    rcases hl with rfl | rfl | rfl | rfl | rfl | rfl | rfl | rfl | rfl | rfl | rfl
    case inr.inl => exact (List.mem_append.mp hmem).elim (by decide) htime
    case inr.inr.inr.inr.inr.inr.inr.inr.inl =>
      exact (List.mem_append.mp hmem).elim (by decide) hdir
    all_goals exact absurd hmem (by decide)
  unfold writeTable2File
  rw [List.mem_append, List.mem_flatMap]
  rintro (hmem | ⟨ii, hii, hmem⟩)
  · exact hheader hmem
  · exact nul_notMem_channelText (hs.channel ii (List.mem_range.mp hii)) hmem

structure OneSetting (fp : Doubles K) (pref : List Char) (s : SdfState K) (f : ℕ → Setting) :
    Prop where
  setting : ∀ ii, s.isSaved ii = true →
    settingsIn pref (channelText fp .paramsOnly (s.cdTable ii)) = [f ii]
  name : ∀ ii, s.isSaved ii = true → (f ii).name = (s.cdTable ii).chname

/-- The settings of the file, one for each saved channel. -/
def SdfState.savedSettings (s : SdfState K) (f : ℕ → Setting) : List Setting :=
  ((List.range s.chNum).filter s.isSaved).map f

variable {s : SdfState K} {f : ℕ → Setting}

theorem mem_savedSettings {l : Setting} :
    l ∈ s.savedSettings f ↔ ∃ ii, s.isSaved ii = true ∧ f ii = l := by
  unfold SdfState.savedSettings SdfState.isSaved
  simp only [List.mem_map, List.mem_filter, List.mem_range, Bool.and_eq_true, decide_eq_true_eq]
  constructor
  · rintro ⟨ii, ⟨-, hsaved⟩, rfl⟩
    exact ⟨ii, hsaved, rfl⟩
  · rintro ⟨ii, hsaved, rfl⟩
    exact ⟨ii, ⟨hsaved.1, hsaved⟩, rfl⟩

theorem settingsIn_oneSetting (hpref : pref[2]? = some ':') (h : BurtHeader)
    (hone : OneSetting fp pref s f) :
    settingsIn pref (writeTable2File fp h .paramsOnly s) = s.savedSettings f := by
  rw [settingsIn_file hpref]
  unfold SdfState.savedSettings
  have hin : ∀ ii ∈ List.range s.chNum, ii < s.chNum := fun ii => List.mem_range.mp
  generalize List.range s.chNum = l at hin ⊢
  induction l with
  | nil => rfl
  | cons ii l ih =>
    rw [List.flatMap_cons, ih fun j hj => hin j (List.mem_cons_of_mem ii hj)]
    cases hinit : (s.cdTable ii).initialized with
    | false =>
      have hsaved : s.isSaved ii = false := by simp [SdfState.isSaved, hinit]
      rw [settingsIn_unsaved hinit, List.filter_cons_of_neg (by simp [hsaved])]
      rfl
    | true =>
      have hsaved : s.isSaved ii = true := by
        simp [SdfState.isSaved, hinit, hin ii List.mem_cons_self]
      rw [hone.setting ii hsaved, List.filter_cons_of_pos hsaved]
      rfl

end File

/-! ## Reading the settings -/

section Restore

variable {fp : Doubles K} {pref : List Char} {s : SdfState K} {f : ℕ → Setting}

theorem markedRows_saved (hone : OneSetting fp pref s f) :
    markedRows ((s.savedSettings f).foldl (readSetting fp .readOnly) s.uninitialized)
      (List.range s.fmNum) = s.savedRows := by
  have hmark : ∀ i, ((s.savedSettings f).any fun l =>
      decide (filterOf s.uninitialized l.name = some i)) =
      (List.range s.chNum).any fun ii =>
        s.isSaved ii && decide (filterOf s (s.cdTable ii).chname = some i) := by
    intro i
    have hfilter : ∀ name, filterOf s.uninitialized name = filterOf s name := fun name => rfl
    rw [Bool.eq_iff_iff, List.any_eq_true, List.any_eq_true]
    simp only [hfilter, mem_savedSettings, List.mem_range, Bool.and_eq_true, decide_eq_true_eq]
    constructor
    · rintro ⟨l, ⟨ii, hsaved, rfl⟩, hl⟩
      rw [hone.name ii hsaved] at hl
      exact ⟨ii, of_decide_eq_true (Bool.and_eq_true_iff.mp hsaved).1, hsaved, hl⟩
    · rintro ⟨ii, -, hsaved, hl⟩
      rw [← hone.name ii hsaved] at hl
      exact ⟨f ii, ⟨ii, hsaved, rfl⟩, hl⟩
  unfold markedRows SdfState.savedRows
  simp only [foldl_readSetting_filterTable, hmark]
  rfl

variable {ii : ℕ}

/-- What is read into a channel before the filters are updated. -/
theorem applySettings_saved (hs : s.Savable fp pref) (hone : OneSetting fp pref s f)
    (hii : ii < s.chNum) :
    applySettings fp .readOnly (s.savedSettings f) (s.uninitialized.cdTable ii) =
      if s.isSaved ii = true then
        { s.cdTable ii with
          data := readData fp (s.cdTable ii) (f ii).value, mask := (f ii).mask
          initialized := true }
      else s.uninitialized.cdTable ii := by
  have hlt : ∀ jj, s.isSaved jj = true → jj < s.chNum := fun jj hjj =>
    of_decide_eq_true (Bool.and_eq_true_iff.mp hjj).1
  have honly : ∀ l ∈ s.savedSettings f, l.name = (s.cdTable ii).chname →
      s.isSaved ii = true ∧ l = f ii := by
    intro l hl hname
    obtain ⟨jj, hsaved, rfl⟩ := mem_savedSettings.mp hl
    rw [hone.name jj hsaved] at hname
    have heq := hs.distinct jj (hlt jj hsaved) ii hii hname
    subst heq
    exact ⟨hsaved, rfl⟩
  by_cases hsaved : s.isSaved ii = true
  · have hmem : f ii ∈ s.savedSettings f := mem_savedSettings.mpr ⟨ii, hsaved, rfl⟩
    have happly : applySettings fp .readOnly (s.savedSettings f) (s.uninitialized.cdTable ii) =
        if f ii ∈ s.savedSettings f then _ else _ :=
      applySettings_eq (hone.name ii hsaved) (hs.channel ii hii).noAlarm (by decide)
        fun l hl hname => (honly l hl hname).2
    rw [happly, if_pos hmem, if_pos hsaved]
    rfl
  · rw [if_neg hsaved]
    have hnone : ∀ l ∈ s.savedSettings f, l.name ≠ (s.cdTable ii).chname :=
      fun l hl hname => hsaved (honly l hl hname).1
    exact applySettings_of_unnamed hnone

theorem restore_cdTable (hpref : pref[2]? = some ':') (h : BurtHeader) (hs : s.Savable fp pref)
    (hone : OneSetting fp pref s f) (hii : ii < s.chNum) :
    (restore fp h pref s).cdTable ii =
      { s.cdTable ii with
        data :=
          if s.isSaved ii then readData fp (s.cdTable ii) (f ii).value else (s.cdTable ii).data
        initialized := s.isSaved ii
        mask := s.savedRows.foldl merge
          (fun d => if s.isSaved d then (f d).mask else (s.cdTable d).mask) ii } := by
  have hlength : 0 + (s.savedSettings f).countP (isCounted s.uninitialized) < sdfMaxChans := by
    have hle : (s.savedSettings f).length ≤ s.chNum := by
      unfold SdfState.savedSettings
      rw [List.length_map]
      exact (List.length_filter_le _ _).trans_eq List.length_range
    have hcount := List.countP_le_length (p := isCounted s.uninitialized)
      (l := s.savedSettings f)
    have hsize := hs.size
    unfold sdfMaxTsize at hsize
    unfold sdfMaxChans
    omega
  have hread : readLines fp .readOnly pref
      (fileLines (writeTable2File fp h .paramsOnly s)) 0 s.uninitialized =
        ((s.savedSettings f).foldl (readSetting fp .readOnly) s.uninitialized, true) := by
    rw [readLines_eq]
    change readSettings fp .readOnly (settingsOf pref _) 0 s.uninitialized = _
    rw [settingsOf_eq (nul_notMem_file h hs), settingsIn_oneSetting hpref h hone,
      readSettings_eq hlength]
  have hnum : ((s.savedSettings f).foldl (readSetting fp .readOnly) s.uninitialized).fmNum =
      s.fmNum := foldl_readSetting_fmNum _ _
  have hmasks : (fun d => (((s.savedSettings f).foldl (readSetting fp .readOnly)
      s.uninitialized).cdTable d).mask) =
        fun d => if s.isSaved d then (f d).mask else (s.cdTable d).mask := by
    funext d
    rw [foldl_readSetting_cdTable]
    change (if d < s.chNum then _ else _ : CdsCdTable K).mask = _
    by_cases hd : d < s.chNum
    · rw [if_pos hd, applySettings_saved hs hone hd]
      split <;> rfl
    · have hsaved : s.isSaved d = false := by simp [SdfState.isSaved, hd]
      rw [if_neg hd, hsaved]
      rfl
  unfold restore readConfig
  rw [if_neg (by decide)]
  dsimp only
  rw [hread]
  dsimp only
  unfold newfilterstats
  rw [foldl_newfilterstat_cdTable List.nodup_range, hnum, markedRows_saved hone, hmasks,
    foldl_readSetting_cdTable, if_pos (show ii < s.uninitialized.chNum from hii),
    applySettings_saved hs hone hii]
  by_cases hsaved : s.isSaved ii = true
  · simp only [hsaved, if_true]
  · simp only [hsaved, Bool.false_eq_true, if_false]
    rfl

/-! ## Values -/

theorem lineSetting_value {line : List Char} {l : Setting} (h : lineSetting pref line = some l) :
    '\n' ∉ l.value ∧ l.value ≠ ['\\', '0'] := by
  unfold lineSetting at h
  dsimp only at h
  split at h
  · cases h
    dsimp only
    rw [List.getD_eq_getElem?_getD]
    cases hword : (parseLine line).2[2]? with
    | none => exact ⟨List.not_mem_nil, nofun⟩
    | some word =>
      obtain ⟨hchars, hne⟩ := parseLine_words (List.mem_of_getElem? hword)
      exact ⟨fun hnl => (hchars _ hnl).2 rfl, hne⟩
  · cases h

/-- Whatever the file says, a value that is read is on one line and is not an escape. -/
theorem restore_value (h : BurtHeader) (hii : ii < s.chNum)
    (hinit : ((restore fp h pref s).cdTable ii).initialized = true) :
    ∃ value, '\n' ∉ value ∧ value ≠ ['\\', '0'] ∧
      ((restore fp h pref s).cdTable ii).data = readData fp (s.cdTable ii) value := by
  obtain ⟨ls, hls⟩ : ∃ ls, settingsOf pref (writeTable2File fp h .paramsOnly s) = ls := ⟨_, rfl⟩
  have hvalues : ∀ l ∈ ls, '\n' ∉ l.value ∧ l.value ≠ ['\\', '0'] := by
    intro l hl
    rw [← hls] at hl
    obtain ⟨piece, -, hpiece⟩ := List.mem_filterMap.mp hl
    exact lineSetting_value hpiece
  obtain ⟨k, hk⟩ : ∃ k, (readSettings fp .readOnly ls 0 s.uninitialized).1 =
      (ls.take k).foldl (readSetting fp .readOnly) s.uninitialized := readSettings_take _ _ _
  obtain ⟨mask, hmask⟩ : ∃ mask, (restore fp h pref s).cdTable ii =
      { applySettings fp .readOnly (ls.take k) (s.uninitialized.cdTable ii) with
        mask := mask } := by
    have hcd : (readSettings fp .readOnly ls 0 s.uninitialized).1.cdTable ii =
        applySettings fp .readOnly (ls.take k) (s.uninitialized.cdTable ii) := by
      rw [hk, foldl_readSetting_cdTable]
      exact if_pos hii
    unfold restore readConfig
    rw [if_neg (by decide)]
    dsimp only
    rw [readLines_eq, show List.filterMap (lineSetting pref) _ = ls from hls, ← hcd]
    obtain ⟨r, b⟩ := readSettings fp .readOnly ls 0 s.uninitialized
    cases b with
    | false => exact ⟨_, rfl⟩
    | true => exact ⟨_, foldl_newfilterstat_cdTable List.nodup_range r ii⟩
  rw [hmask] at hinit ⊢
  obtain ⟨l, hl, hdata⟩ := applySettings_value rfl hinit
  obtain ⟨hnl, hescape⟩ := hvalues l (List.mem_of_mem_take hl)
  exact ⟨l.value, hnl, hescape, hdata⟩

/-- A value that is read whole comes back, but for the bits that a switch channel does not have. -/
theorem readData_text (h : cd.Typed fp) :
    readData fp cd (cd.text fp) = cd.data ↔
      (cd.datatype = .num → cd.filterswitch ≠ 0 →
        switchValue fp (cd.data.asChval fp) = cd.data.asChval fp) := by
  unfold readData CdsCdTable.text
  rcases h with ⟨htype, v, hdata, hv⟩ | ⟨htype, t, hdata, -⟩
  · have hnum : ¬cd.datatype = .str := by
      rw [htype]
      decide
    rw [if_pos htype, hdata, SdfData.asChval_chval,
      if_neg (not_or.mpr ⟨hnum, not_not.mpr hv.first⟩), hv.atof]
    split
    · rename_i hswitch
      exact ⟨fun heq _ _ => SdfData.chval.inj heq, fun heq => congrArg _ (heq htype hswitch)⟩
    · rename_i hswitch
      exact ⟨fun _ _ hne => absurd hne hswitch, fun _ => rfl⟩
  · have hstr : ¬cd.datatype = .num := by
      rw [htype]
      decide
    rw [if_pos (.inl htype), if_neg hstr, hdata, SdfData.asStrval_strval]
    exact ⟨fun _ hnum => absurd hnum hstr, fun _ => rfl⟩

theorem unescape_of_ne {word : List Char} (h : word ≠ ['\\', '0']) : unescape word = word :=
  if_neg h

/-- If the values are on one line, each saved channel has one setting. -/
theorem exists_oneSetting (hpref : pref[2]? = some ':') (hs : s.Savable fp pref)
    (hline : ∀ ii, s.isSaved ii = true → '\n' ∉ (s.cdTable ii).text fp) :
    ∃ f, OneSetting fp pref s f ∧ ∀ ii, s.isSaved ii = true →
      ((s.cdTable ii).Fits fp → f ii = savedSetting fp (s.cdTable ii)) ∧
      (¬(s.cdTable ii).Fits fp → (f ii).value ≠ (s.cdTable ii).text fp) := by
  have hsetting : ∀ ii, ∃ l, s.isSaved ii = true →
      settingsIn pref (channelText fp .paramsOnly (s.cdTable ii)) = [l] ∧
        l.name = (s.cdTable ii).chname ∧
        ((s.cdTable ii).Fits fp → l = savedSetting fp (s.cdTable ii)) ∧
        (¬(s.cdTable ii).Fits fp → l.value ≠ (s.cdTable ii).text fp) := by
    intro ii
    by_cases hsaved : s.isSaved ii = true
    · obtain ⟨hlt, hinit⟩ := Bool.and_eq_true_iff.mp hsaved
      have hcd := hs.channel ii (of_decide_eq_true hlt)
      by_cases hfits : (s.cdTable ii).Fits fp
      · exact ⟨savedSetting fp (s.cdTable ii), fun _ =>
          ⟨settingsIn_channel hpref hcd hinit (hline ii hsaved) hfits, rfl, fun _ => rfl,
            fun hmis => absurd hfits hmis⟩⟩
      · obtain ⟨l, hl, hname, hvalue⟩ :=
          settingsIn_misfit hpref hcd hinit (hline ii hsaved) hfits
        exact ⟨l, fun _ => ⟨hl, hname, fun hfit => absurd hfit hfits, fun _ => hvalue⟩⟩
    · exact ⟨⟨[], [], 0⟩, fun h => absurd h hsaved⟩
  choose f hf using hsetting
  exact ⟨f, ⟨fun ii hii => (hf ii hii).1, fun ii hii => (hf ii hii).2.1⟩,
    fun ii hii => (hf ii hii).2.2⟩

/-! ## Masks -/

theorem ne_zero_iff_getLsbD {w : ℕ} (m : BitVec w) : m ≠ 0 ↔ ∃ k, m.getLsbD k = true := by
  constructor
  · intro hne
    by_contra hnone
    refine hne (BitVec.eq_of_getLsbD_eq fun k _ => ?_)
    have hk : ¬m.getLsbD k = true := fun hk => hnone ⟨k, hk⟩
    rw [Bool.eq_false_iff.mpr hk]
    simp
  · rintro ⟨k, hk⟩ rfl
    simp at hk

theorem and_eq_and_iff {w : ℕ} (x y a : BitVec w) :
    x &&& a = y &&& a ↔
      ∀ k, a.getLsbD k = true → (x.getLsbD k = true ↔ y.getLsbD k = true) := by
  constructor
  · intro heq k hk
    have hbit := congrArg (fun m => m.getLsbD k) heq
    simp only [BitVec.getLsbD_and, hk, Bool.and_true] at hbit
    rw [hbit]
  · intro hbits
    refine BitVec.eq_of_getLsbD_eq fun k _ => ?_
    rw [BitVec.getLsbD_and, BitVec.getLsbD_and]
    cases hk : a.getLsbD k with
    | false => rw [Bool.and_false, Bool.and_false]
    | true => rw [Bool.and_true, Bool.and_true, Bool.eq_iff_iff, hbits k hk]

/-- The monitoring is what the linked channels ask for together. -/
theorem sameMonitoring_iff (hmask : cd.mask = s.savedRows.foldl merge (s.fileMask fp) ii) :
    (s.cdTable ii).SameMonitoring cd ↔ s.MaskKept fp ii := by
  unfold CdsCdTable.SameMonitoring SdfState.MaskKept
  rw [hmask]
  split
  · rw [and_eq_and_iff]
    simp only [getLsbD_foldl_merge]
  · have hsome : s.savedRows.foldl merge (s.fileMask fp) ii ≠ 0 ↔
        ∃ d, Linked s.savedRows d ii ∧ s.fileMask fp d ≠ 0 := by
      simp only [ne_zero_iff_getLsbD, getLsbD_foldl_merge]
      rw [exists_comm]
      simp only [exists_and_left]
    rw [← hsome]
    exact not_iff_not.symm

/-- The mask that a line with room for it says. -/
theorem readMask_monitorString (cd : CdsCdTable K) :
    readMask 4 (monitorString cd) =
      if cd.filterswitch ≠ 0 then if cd.mask &&& allSwstatBits = 0 then 0 else cd.mask
      else if cd.mask ≠ 0 then ~~~0 else 0 := by
  unfold monitorString
  split
  · have hall : ¬cd.mask &&& allSwstatBits = ~~~0 := by
      intro heq
      have hbit := congrArg (fun m => m.getLsbD 31) heq
      simp [allSwstatBits] at hbit
    rw [if_neg hall]
    split
    · decide
    · exact scanHex_toDigits cd.mask
  · split <;> decide

/-- Masks that agree for the channels of each row are left as they are. -/
theorem foldl_merge_of_agree {rows : List (ℕ × ℕ)} {m : ℕ → BitVec 32}
    (h : ∀ sw ∈ rows, m sw.1 = m sw.2) : rows.foldl merge m = m := by
  induction rows with
  | nil => rfl
  | cons sw rows ih =>
    have hmerge : merge m sw = m := by
      funext c
      have hsame := h sw List.mem_cons_self
      rw [merge_apply, ← hsame, BitVec.or_self]
      split
      · rename_i hc
        rcases hc with rfl | rfl
        · rfl
        · exact hsame
      · rfl
    rw [List.foldl_cons, hmerge, ih fun x hx => h x (List.mem_cons_of_mem sw hx)]

/-- If the file has the same mask for both switch channels of each filter, a channel whose line has
room for its mask is monitored as it was. -/
theorem maskKept_of_agree (hsaved : s.isSaved ii = true)
    (hroom : (s.cdTable ii).headLength fp + (monitorString (s.cdTable ii)).length < 127)
    (hagree : ∀ sw ∈ s.savedRows, s.fileMask fp sw.1 = s.fileMask fp sw.2) : s.MaskKept fp ii := by
  have hmask : s.fileMask fp ii = readMask 4 (monitorString (s.cdTable ii)) := by
    unfold SdfState.fileMask cutMonitor
    rw [if_pos hsaved, List.take_of_length_le (by omega)]
  have hsame : (s.cdTable ii).SameMonitoring { s.cdTable ii with mask := s.fileMask fp ii } := by
    unfold CdsCdTable.SameMonitoring
    rw [hmask, readMask_monitorString]
    dsimp only
    by_cases hswitch : (s.cdTable ii).filterswitch ≠ 0
    · rw [if_pos hswitch, if_pos hswitch]
      by_cases hzero : (s.cdTable ii).mask &&& allSwstatBits = 0
      · rw [if_pos hzero, hzero]
        decide
      · rw [if_neg hzero]
    · rw [if_neg hswitch, if_neg hswitch]
      by_cases hne : (s.cdTable ii).mask ≠ 0
      · rw [if_pos hne]
        exact ⟨fun h => absurd h (by decide), fun h => absurd h hne⟩
      · rw [if_neg hne]
        exact ⟨fun _ => not_not.mp hne, fun _ => rfl⟩
  refine (sameMonitoring_iff ?_).mp hsame
  rw [foldl_merge_of_agree hagree]

/-! ## The table that comes back -/

theorem text_of_readData (h : cd.Typed fp) {value : List Char} (hnl : '\n' ∉ value)
    (hne : value ≠ ['\\', '0']) (hdata : readData fp cd value = cd.data) :
    '\n' ∉ cd.text fp ∧ cd.text fp ≠ ['\\', '0'] := by
  rcases h with ⟨htype, v, hv, hprints⟩ | ⟨htype, t, ht, -⟩
  · unfold CdsCdTable.text
    rw [if_pos htype, hv, SdfData.asChval_chval]
    refine ⟨fun hmem => absurd (hprints.chars _ hmem) (by decide), fun heq => ?_⟩
    have hfirst := hprints.first
    rw [heq] at hfirst
    revert hfirst
    decide
  · have hnum : ¬cd.datatype = .num := by
      rw [htype]
      decide
    unfold readData at hdata
    rw [if_pos (.inl htype), ht] at hdata
    unfold CdsCdTable.text
    rw [if_neg hnum, ht, SdfData.asStrval_strval, ← SdfData.strval.inj hdata]
    exact ⟨hnl, hne⟩

theorem isSaved_iff : s.isSaved ii = true ↔ ii < s.chNum ∧ (s.cdTable ii).initialized = true := by
  unfold SdfState.isSaved
  rw [Bool.and_eq_true, decide_eq_true_eq]

/-- A restored table has every value on one line, read to its end. -/
theorem fits_of_restored (hpref : pref[2]? = some ':') (h : BurtHeader) (hs : s.Savable fp pref)
    (hrestored : Restored s (restore fp h pref s)) (hsaved : s.isSaved ii = true) :
    '\n' ∉ (s.cdTable ii).text fp ∧ (s.cdTable ii).text fp ≠ ['\\', '0'] ∧
      (s.cdTable ii).Fits fp := by
  have hline : ∀ jj, s.isSaved jj = true →
      '\n' ∉ (s.cdTable jj).text fp ∧ (s.cdTable jj).text fp ≠ ['\\', '0'] := by
    intro jj hjj
    obtain ⟨hlt, hinit⟩ := isSaved_iff.mp hjj
    obtain ⟨hback, hdata, -⟩ := hrestored.saved jj hlt hinit
    obtain ⟨value, hnl, hne, hvalue⟩ := restore_value h hlt hback
    exact text_of_readData (hs.channel jj hlt).typed hnl hne (hvalue.symm.trans hdata)
  obtain ⟨hlt, hinit⟩ := isSaved_iff.mp hsaved
  obtain ⟨hnl, hescape⟩ := hline ii hsaved
  refine ⟨hnl, hescape, ?_⟩
  by_contra hmisfit
  obtain ⟨f, hone, hf⟩ := exists_oneSetting hpref hs fun jj hjj => (hline jj hjj).1
  have hcd := restore_cdTable hpref h hs hone hlt
  obtain ⟨-, hdata, -⟩ := hrestored.saved ii hlt hinit
  rw [hcd] at hdata
  dsimp only at hdata
  rw [if_pos hsaved] at hdata
  -- only a text can be too long, and it is what is read
  have hshort : ∀ v, (s.cdTable ii).datatype = .num → (s.cdTable ii).data = .chval v →
      fp.Prints v → False := by
    intro v htype hv hprints
    refine hmisfit (.inl ?_)
    have hname := (hs.channel ii hlt).length
    have hlength := hprints.length
    unfold CdsCdTable.headLength valueString
    rw [if_pos htype, hv, SdfData.asChval_chval]
    omega
  rcases (hs.channel ii hlt).typed with ⟨htype, v, hv, hprints⟩ | ⟨htype, t, ht, -⟩
  · exact hshort v htype hv hprints
  · refine (hf ii hsaved).2 hmisfit ?_
    have hnum : ¬(s.cdTable ii).datatype = .num := by
      rw [htype]
      decide
    unfold readData at hdata
    rw [if_pos (.inl htype), ht] at hdata
    unfold CdsCdTable.text
    rw [if_neg hnum, ht, SdfData.asStrval_strval]
    exact SdfData.strval.inj hdata

/-- When the values are on one line and read to their end, what comes back of a channel. -/
theorem restore_of_fits (hpref : pref[2]? = some ':') (h : BurtHeader) (hs : s.Savable fp pref)
    (hfits : ∀ ii, s.isSaved ii = true → '\n' ∉ (s.cdTable ii).text fp ∧ (s.cdTable ii).text fp ≠
    ['\\', '0'] ∧ (s.cdTable ii).Fits fp) (hii : ii < s.chNum) :
    (restore fp h pref s).cdTable ii =
      { s.cdTable ii with
        data :=
          if s.isSaved ii then readData fp (s.cdTable ii) ((s.cdTable ii).text fp)
          else (s.cdTable ii).data
        initialized := s.isSaved ii
        mask := s.savedRows.foldl merge (s.fileMask fp) ii } := by
  obtain ⟨f, hone, hf⟩ := exists_oneSetting hpref hs fun jj hjj => (hfits jj hjj).1
  have hsetting : ∀ jj, s.isSaved jj = true → f jj = savedSetting fp (s.cdTable jj) :=
    fun jj hjj => (hf jj hjj).1 (hfits jj hjj).2.2
  have hmasks : (fun d => if s.isSaved d then (f d).mask else (s.cdTable d).mask) =
      s.fileMask fp := by
    funext d
    unfold SdfState.fileMask
    by_cases hd : s.isSaved d = true
    · rw [if_pos hd, if_pos hd, hsetting d hd]
      rfl
    · rw [if_neg hd, if_neg hd]
  rw [restore_cdTable hpref h hs hone hii, hmasks]
  by_cases hsaved : s.isSaved ii = true
  · have hvalue : (f ii).value = (s.cdTable ii).text fp := by
      rw [hsetting ii hsaved]
      exact unescape_of_ne (hfits ii hsaved).2.1
    simp only [hsaved, if_true, hvalue]
  · simp only [hsaved, Bool.false_eq_true, if_false]

/-- A saved table is restored exactly if each of its values comes back from its line, and the
filters leave the monitoring. -/
theorem save_restores (fp : Doubles K) (h : BurtHeader) (pref : List Char) (s : SdfState K)
    (hpref : pref[2]? = some ':') (hs : s.Savable fp pref) :
    Restored s (restore fp h pref s) ↔ s.Restorable fp := by
  constructor
  · intro hrestored ii hii hinit
    have hfits : ∀ jj, s.isSaved jj = true → _ := fun jj hjj =>
      fits_of_restored hpref h hs hrestored hjj
    have hsaved := isSaved_iff.mpr ⟨hii, hinit⟩
    have hcd := restore_of_fits hpref h hs hfits hii
    obtain ⟨hnl, hescape, hfit⟩ := hfits ii hsaved
    obtain ⟨-, hdata, hmonitoring⟩ := hrestored.saved ii hii hinit
    rw [hcd] at hdata
    dsimp only at hdata
    rw [if_pos hsaved, readData_text (hs.channel ii hii).typed] at hdata
    exact ⟨⟨hnl, hescape, hfit, hdata⟩, (sameMonitoring_iff (by rw [hcd])).mp hmonitoring⟩
  · intro hrestorable
    have hfits : ∀ ii, s.isSaved ii = true → '\n' ∉ (s.cdTable ii).text fp ∧
        (s.cdTable ii).text fp ≠ ['\\', '0'] ∧ (s.cdTable ii).Fits fp := by
      intro ii hsaved
      obtain ⟨hii, hinit⟩ := isSaved_iff.mp hsaved
      obtain ⟨hback, -⟩ := hrestorable ii hii hinit
      exact ⟨hback.line, hback.escape, hback.fits⟩
    constructor
    · intro ii hii hinit
      obtain ⟨hback, hmask⟩ := hrestorable ii hii hinit
      have hsaved := isSaved_iff.mpr ⟨hii, hinit⟩
      have hcd := restore_of_fits hpref h hs hfits hii
      refine ⟨by rw [hcd]; exact hsaved, ?_, (sameMonitoring_iff (by rw [hcd])).mpr hmask⟩
      rw [hcd]
      dsimp only
      rw [if_pos hsaved]
      exact (readData_text (hs.channel ii hii).typed).mpr hback.switch
    · intro ii hii hinit
      rw [restore_of_fits hpref h hs hfits hii]
      simp [SdfState.isSaved, hinit]

end Restore

/-! ## Example tables -/

/-- The numbers from 0 to 9, as `%.*e` prints them. -/
def smallDoubles : Doubles ℕ where
  atof t := Nat.ofDigitChars 10 (t.take 1) 0
  print n := Nat.digitChar (n % 10) :: ".000000000000000e+00".toList
  toInt n := BitVec.ofNat 32 n
  toUnsigned n := BitVec.ofNat 32 n
  ofUnsigned := BitVec.toNat
  ofBytes _ := 0
  toBytes _ := []

theorem smallDoubles_prints {n : ℕ} (h : n < 10) : smallDoubles.Prints n := by
  interval_cases n <;> exact ⟨by decide, by decide, isSpace_of_any (by decide), by decide⟩

def snapshotHeader : BurtHeader where
  burtdir := "/opt/rtcds".toList
  timestring := "10/05/20_21:08:13.000000".toList
  burtdir_word := isSpace_of_any (by decide)
  timestring_line := by decide
  timestring_length := by decide
  nul := by decide

/-- A number, a text and the two switch channels of a filter. -/
def filterTableState : SdfState ℕ where
  chNum := 4
  cdTable ii :=
    match ii with
    | 0 => ⟨"X1:A_GAIN".toList, .num, .chval 7, ~~~0, true, 0, -1⟩
    | 1 => ⟨"X1:A_NAME".toList, .str, .strval "a \"b\"".toList, 1, true, 0, -1⟩
    | 2 => ⟨"X1:A_SW1S".toList, .num, .chval 4, 0x3, true, 1, 0⟩
    | _ => ⟨"X1:A_SW2S".toList, .num, .chval 2, 0x3, true, 2, 0⟩
  fmNum := 1
  filterTable _ := ⟨"X1:A_".toList, 0, (2, 3), false, true, 0x3⟩
  filterMasks _ := 0x3

/-- A text with a newline. -/
def brokenLineState : SdfState ℕ where
  chNum := 1
  cdTable _ := ⟨"X1:A_NAME".toList, .str, .strval "a\nb".toList, 1, true, 0, -1⟩
  fmNum := 0
  filterTable _ := ⟨[], 0, (0, 0), false, false, 0⟩
  filterMasks _ := 0

theorem filterTableState_savable :
    filterTableState.Savable smallDoubles "X1:A".toList where
  size := by decide
  distinct i hi j hj := by
    change i < 4 at hi
    change j < 4 at hj
    interval_cases i <;> interval_cases j <;> decide
  channel i hi := by
    change i < 4 at hi
    interval_cases i
    · exact ⟨by decide, by decide, isSpace_of_any (by decide), by decide, by decide,
        .inl ⟨rfl, 7, rfl, smallDoubles_prints (by decide)⟩, by decide⟩
    · exact ⟨by decide, by decide, isSpace_of_any (by decide), by decide, by decide,
        .inr ⟨rfl, _, rfl, by decide⟩, by decide⟩
    · exact ⟨by decide, by decide, isSpace_of_any (by decide), by decide, by decide,
        .inl ⟨rfl, 4, rfl, smallDoubles_prints (by decide)⟩, by decide⟩
    · exact ⟨by decide, by decide, isSpace_of_any (by decide), by decide, by decide,
        .inl ⟨rfl, 2, rfl, smallDoubles_prints (by decide)⟩, by decide⟩

theorem filterTableState_restorable : filterTableState.Restorable smallDoubles := by
  intro ii hii _
  change ii < 4 at hii
  have hagree : ∀ sw ∈ filterTableState.savedRows,
      filterTableState.fileMask smallDoubles sw.1 =
        filterTableState.fileMask smallDoubles sw.2 := by
    decide +kernel
  constructor
  · interval_cases ii
    all_goals exact ⟨by decide, by decide, .inl (by decide), by decide⟩
  · interval_cases ii
    all_goals exact maskKept_of_agree (by decide) (by decide) hagree

theorem save_restores_filter :
    Restored filterTableState
      (restore smallDoubles snapshotHeader "X1:A".toList filterTableState) :=
  (save_restores smallDoubles snapshotHeader "X1:A".toList filterTableState rfl
    filterTableState_savable).mpr filterTableState_restorable

theorem newline_not_restored :
    brokenLineState.Savable smallDoubles "X1:A".toList ∧
      ¬Restored brokenLineState
        (restore smallDoubles snapshotHeader "X1:A".toList brokenLineState) := by
  have hsavable : brokenLineState.Savable smallDoubles "X1:A".toList := by
    refine ⟨by decide, fun i hi j hj _ => ?_, fun i hi => ?_⟩
    · change i < 1 at hi
      change j < 1 at hj
      omega
    · obtain rfl : i = 0 := Nat.lt_one_iff.mp hi
      exact ⟨by decide, by decide, isSpace_of_any (by decide), by decide, by decide,
        .inr ⟨rfl, _, rfl, by decide⟩, by decide⟩
  refine ⟨hsavable, fun hrestored => ?_⟩
  have hsaved : brokenLineState.isSaved 0 = true := rfl
  obtain ⟨hline, -⟩ := fits_of_restored rfl snapshotHeader hsavable hrestored hsaved
  exact hline (by decide)

end AdvLigoRts.Seq
