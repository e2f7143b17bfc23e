import AdvLigoRts.Seq.SdfRestore
import AdvLigoRts.Seq.SdfTablesTheorems

/-!
# Runs of the settings monitor

What each operation does to a filter in step, and from it that the filters are in step in every
state of a run whose operations meet their conditions.
-/

namespace AdvLigoRts.Seq

open PvLib

variable {K : Type} {fp : Doubles K} {pref : List Char} {command : SdfCommand}
  {s t : SdfState K}

/-! ## Reading a file -/

theorem sameNames_foldl_readSetting (ls : List Setting) (s : SdfState K) :
    SameNames s (ls.foldl (readSetting fp command) s) := by
  have hcd : ∀ c, ∃ data mask initialized, (ls.foldl (readSetting fp command) s).cdTable c =
      { s.cdTable c with data := data, mask := mask, initialized := initialized } := by
    intro c
    rw [foldl_readSetting_cdTable]
    split
    · exact applySettings_eq_with ls _
    · exact ⟨_, _, _, rfl⟩
  refine ⟨foldl_readSetting_chNum ls s, foldl_readSetting_fmNum ls s, fun c => ?_, fun c => ?_,
    fun i => ?_, fun i => ?_⟩
  · obtain ⟨data, mask, initialized, h⟩ := hcd c
    rw [h]
  · obtain ⟨data, mask, initialized, h⟩ := hcd c
    rw [h]
  · rw [foldl_readSetting_filterTable]
  · rw [foldl_readSetting_filterTable]

/-- The settings of a file leave both channels of each filter that they name initialised. -/
def Whole (command : SdfCommand) (s : SdfState K) (ls : List Setting) : Prop :=
  ∀ l ∈ ls, ∀ i, filterOf s l.name = some i → ∀ c, s.SwitchOf i c →
    (s.cdTable c).initialized = true ∨
      command ≠ .loadDbOnly ∧ ∃ l' ∈ ls, l'.name = (s.cdTable c).chname

theorem pending_foldl_readSetting (hs : s.Paired) (hstep : s.FiltersInStep fp)
    {ls : List Setting} (hwhole : Whole command s ls) {i : ℕ} (hi : i < s.fmNum) :
    (ls.foldl (readSetting fp command) s).Pending fp i := by
  have hcd : ∀ c, s.SwitchOf i c → (ls.foldl (readSetting fp command) s).cdTable c =
      applySettings fp command ls (s.cdTable c) := by
    intro c hc
    rw [foldl_readSetting_cdTable, if_pos (hs.inTable i hi c hc)]
  have hnames : SameNames s (ls.foldl (readSetting fp command) s) :=
    sameNames_foldl_readSetting ls s
  have hentry : (ls.foldl (readSetting fp command) s).filterTable i =
      { s.filterTable i with newSet := ls.any fun l => decide (filterOf s l.name = some i) } := by
    rw [foldl_readSetting_filterTable, hstep.unmarked i hi, Bool.false_or]
  unfold SdfState.Pending
  by_cases hmark : ∃ l ∈ ls, filterOf s l.name = some i
  · obtain ⟨l, hl, hlead⟩ := hmark
    have hany : (ls.any fun l => decide (filterOf s l.name = some i)) = true :=
      List.any_eq_true.mpr ⟨l, hl, decide_eq_true hlead⟩
    rw [hany] at hentry
    rw [if_pos (by rw [hentry])]
    intro c hc
    have hc := hnames.switchOf.mp hc
    rw [hcd c hc]
    rcases hwhole l hl i hlead c hc with hinit | ⟨hcommand, l', hl', hname⟩
    · exact applySettings_initialized hinit
    · exact applySettings_named hl' hname (hs.noAlarm i hi c hc) hcommand
  · -- no setting names a switch channel of the filter
    have hany : (ls.any fun l => decide (filterOf s l.name = some i)) = false := by
      rw [List.any_eq_false]
      exact fun l hl hlead => hmark ⟨l, hl, of_decide_eq_true hlead⟩
    have hsame : (ls.foldl (readSetting fp command) s).filterTable i = s.filterTable i := by
      rw [hentry, hany, ← hstep.unmarked i hi]
    have hkeep : ∀ c, s.SwitchOf i c →
        (ls.foldl (readSetting fp command) s).cdTable c = s.cdTable c := by
      intro c hc
      rw [hcd c hc]
      exact applySettings_of_unnamed fun l hl hname =>
        hmark ⟨l, hl, by rw [hname]; exact hs.leads i hi c hc⟩
    exact (hstep.pending hi).congr hsame hkeep

theorem inStep_foldl_readSetting (hs : s.Paired) (hstep : s.FiltersInStep fp)
    {ls : List Setting} (hnone : ∀ l ∈ ls, filterOf s l.name = none) :
    (ls.foldl (readSetting fp command) s).FiltersInStep fp := by
  have hwhole : Whole command s ls := by
    intro l hl i hlead
    rw [hnone l hl] at hlead
    cases hlead
  have hnames : SameNames s (ls.foldl (readSetting fp command) s) :=
    sameNames_foldl_readSetting ls s
  have hunmarked : ∀ i < s.fmNum,
      ((ls.foldl (readSetting fp command) s).filterTable i).newSet = false := by
    intro i hi
    rw [foldl_readSetting_filterTable]
    have hany : (ls.any fun l => decide (filterOf s l.name = some i)) = false := by
      rw [List.any_eq_false]
      intro l hl
      rw [hnone l hl]
      exact fun hlead => nomatch of_decide_eq_true hlead
    rw [hstep.unmarked i hi, hany]
    rfl
  constructor
  · intro i hi
    rw [hnames.fmNum] at hi
    have hpending : (ls.foldl (readSetting fp command) s).Pending fp i :=
      pending_foldl_readSetting hs hstep hwhole hi
    unfold SdfState.Pending at hpending
    rwa [if_neg (by rw [hunmarked i hi]; exact Bool.false_ne_true)] at hpending
  · intro i hi
    rw [hnames.fmNum] at hi
    exact hunmarked i hi

/-- When reading a file keeps the filters in step: not too many of its settings are of channels in
the table, or none names a filter; and there is room for what is read. -/
structure ReadMeets [LT K] [DecidableLT K] (fp : Doubles K) (pref : List Char)
    (command : SdfCommand) (s : SdfState K) (text : List Char) : Prop where
  size : (settingsOf pref text).countP (isCounted s) < sdfMaxChans ∨
    ∀ l ∈ settingsOf pref text, filterOf s l.name = none
  whole : Whole command s (settingsOf pref text)
  fits : SettingsFit fp s (settingsRead s (settingsOf pref text) 0)

theorem readConfig_inStep [LT K] [DecidableLT K] (hs : s.Paired) (hstep : s.FiltersInStep fp)
    {file : Option (List Char)}
    (h : command ≠ .reset → ∀ text, file = some text → ReadMeets fp pref command s text) :
    SameNames s (readConfig fp pref file command s) ∧
      (readConfig fp pref file command s).FiltersInStep fp := by
  unfold readConfig
  by_cases hreset : command = .reset
  · rw [if_pos hreset]
    exact ⟨.refl s, hstep⟩
  rw [if_neg hreset]
  cases file with
  | none => exact ⟨.refl s, hstep⟩
  | some text =>
    have hmeets := h hreset text rfl
    dsimp only
    rw [readLines_eq]
    have hread : ∃ r b, readSettings fp command (settingsOf pref text) 0 s = (r, b) ∧
        SameNames s r ∧ (∀ i < s.fmNum, r.Pending fp i) ∧ (b = false → r.FiltersInStep fp) := by
      rcases hmeets.size with hsize | hnone
      · refine ⟨_, true, readSettings_eq (by omega), sameNames_foldl_readSetting _ s,
          fun i hi => ?_,
          nofun⟩
        exact pending_foldl_readSetting hs hstep hmeets.whole hi
      · obtain ⟨k, hk⟩ : ∃ k, (readSettings fp command (settingsOf pref text) 0 s).1 =
            ((settingsOf pref text).take k).foldl (readSetting fp command) s :=
          readSettings_take _ 0 s
        have hunnamed : ∀ l ∈ (settingsOf pref text).take k, filterOf s l.name = none :=
          fun l hl => hnone l (List.mem_of_mem_take hl)
        refine ⟨_, _, rfl, ?_⟩
        rw [hk]
        have hstep' : (((settingsOf pref text).take k).foldl (readSetting fp command)
            s).FiltersInStep fp := inStep_foldl_readSetting hs hstep hunnamed
        have hnames : SameNames s
          (((settingsOf pref text).take k).foldl (readSetting fp command) s) :=
          sameNames_foldl_readSetting _ s
        exact ⟨hnames, fun i hi => hstep'.pending (hnames.fmNum ▸ hi), fun _ => hstep'⟩
    obtain ⟨r, b, heq, hnames, hpending, hfalse⟩ := hread
    have heq' : readSettings fp command
        ((fileLines text).filterMap (lineSetting pref)) 0 s = (r, b) := heq
    rw [heq']
    cases b with
    | false => exact ⟨hnames, hfalse rfl⟩
    | true =>
      have hpaired := hnames.paired hs
      rw [← hnames.fmNum] at hpending
      exact ⟨hnames.trans (sameNames_newfilterstats hpaired hpending),
        newfilterstats_inStep hpaired hpending⟩

/-! ## The masks of the filters -/

theorem sameNames_setFmMasks (mask : ℕ → BitVec 32) (s : SdfState K) :
    SameNames s (setFmMasks mask s) := by
  refine ⟨rfl, rfl, fun _ => rfl, fun _ => rfl, fun i => ?_, fun i => ?_⟩
  · dsimp only [setFmMasks]
    split <;> rfl
  · dsimp only [setFmMasks]
    split <;> rfl

theorem setFmMasks_inStep (hstep : s.FiltersInStep fp) {mask : ℕ → BitVec 32}
    (hmask : ∀ i, mask i &&& allSwstatBits = switchMask s i &&& allSwstatBits) :
    (setFmMasks mask s).FiltersInStep fp := by
  have hentry : ∀ i, ∃ m, (setFmMasks mask s).filterTable i = { s.filterTable i with mask := m } ∧
      (m = (s.filterTable i).mask ∨ m = mask i) := by
    intro i
    dsimp only [setFmMasks]
    split
    · exact ⟨_, rfl, .inr rfl⟩
    · exact ⟨_, rfl, .inl rfl⟩
  constructor
  · intro i hi
    obtain ⟨hinit, hswreq, ha, hb⟩ := hstep.inStep i hi
    obtain ⟨m, heq, hm⟩ := hentry i
    have hsame : (s.filterTable i).init = true →
        m &&& allSwstatBits = (s.filterTable i).mask &&& allSwstatBits := by
      intro hi'
      rcases hm with rfl | rfl
      · rfl
      · rw [hmask]
        unfold switchMask
        rw [BitVec.and_or_distrib_right, ← ha hi', ← hb hi', BitVec.or_self]
    unfold SdfState.FilterInStep
    rw [heq]
    exact ⟨hinit, hswreq, fun hi' => (hsame hi').trans (ha hi'),
      fun hi' => (hsame hi').trans (hb hi')⟩
  · intro i hi
    obtain ⟨m, heq, -⟩ := hentry i
    rw [heq]
    exact hstep.unmarked i hi

/-! ## Changes from the tables -/

/-- A channel with another value and mask. It stays initialised. -/
def Grows (cd cd' : CdsCdTable K) : Prop :=
  ∃ data mask initialized,
    cd' = { cd with data := data, mask := mask, initialized := initialized } ∧
    (cd.initialized = true → initialized = true)

namespace Grows

variable {cd cd' cd'' : CdsCdTable K}

theorem refl (cd : CdsCdTable K) : Grows cd cd := ⟨_, _, _, rfl, id⟩

theorem trans (h : Grows cd cd') (h' : Grows cd' cd'') : Grows cd cd'' := by
  obtain ⟨data, mask, initialized, rfl, hkeep⟩ := h
  obtain ⟨data', mask', initialized', rfl, hkeep'⟩ := h'
  exact ⟨data', mask', initialized', rfl, fun hinit => hkeep' (hkeep hinit)⟩

theorem initialized (h : Grows cd cd') (hinit : cd.initialized = true) :
    cd'.initialized = true := by
  obtain ⟨data, mask, initialized, rfl, hkeep⟩ := h
  exact hkeep hinit

end Grows

section ModifyFilter

variable {e : SetErrTable K} {f f1 : CdsCdTable K → CdsCdTable K} {i c : ℕ}

theorem setCd_grows {cd : CdsCdTable K} (h : Grows (s.cdTable i) cd) (c : ℕ) :
    Grows (s.cdTable c) ((s.setCd i cd).cdTable c) := by
  unfold SdfState.setCd
  dsimp only
  by_cases hc : c = i
  · rw [hc, Function.update_self]
    exact h
  · rw [Function.update_of_ne hc]
    exact .refl _

theorem setSwitches_grows (h : ∀ cd, Grows cd (f cd)) (h1 : ∀ cd, Grows cd (f1 cd)) (c : ℕ) :
    Grows (s.cdTable c) ((s.setSwitches e f f1).cdTable c) :=
  (setCd_grows (h _) c).trans (setCd_grows (h1 _) c)

theorem setSwitches_of_ne (h : c ≠ e.sigNum % sdfMaxTsize) (h1 : c ≠ e.sigNum / sdfMaxTsize) :
    (s.setSwitches e f f1).cdTable c = s.cdTable c := by
  unfold SdfState.setSwitches SdfState.setCd
  dsimp only
  rw [Function.update_of_ne h1, Function.update_of_ne h]

/-- Both switch channels are initialised if each change initialises. -/
theorem setSwitches_initialized (h : ∀ cd, (f cd).initialized = true)
    (h1 : ∀ cd, (f1 cd).initialized = true)
    (hc : c = e.sigNum % sdfMaxTsize ∨ c = e.sigNum / sdfMaxTsize) :
    ((s.setSwitches e f f1).cdTable c).initialized = true := by
  unfold SdfState.setSwitches SdfState.setCd
  dsimp only
  by_cases hc1 : c = e.sigNum / sdfMaxTsize
  · rw [hc1, Function.update_self]
    exact h1 _
  · obtain rfl := hc.resolve_right hc1
    rw [Function.update_of_ne hc1, Function.update_self]
    exact h _

/-- The filter of a line and its switch channels may change in this way, and nothing else does. -/
structure OnlySwitches (e : SetErrTable K) (s t : SdfState K) : Prop where
  grows : ∀ c, Grows (s.cdTable c) (t.cdTable c)
  others : ∀ c, c ≠ e.sigNum % sdfMaxTsize → c ≠ e.sigNum / sdfMaxTsize →
    t.cdTable c = s.cdTable c
  entries : ∀ i, i ≠ e.filtNum.toNat → t.filterTable i = s.filterTable i
  entry : ∃ newSet init mask, t.filterTable e.filtNum.toNat =
      { s.filterTable e.filtNum.toNat with newSet := newSet, init := init, mask := mask } ∧
    ((s.filterTable e.filtNum.toNat).newSet = true → newSet = true)
  sizes : t.chNum = s.chNum ∧ t.fmNum = s.fmNum

theorem OnlySwitches.refl (e : SetErrTable K) (s : SdfState K) : OnlySwitches e s s :=
  ⟨fun _ => .refl _, fun _ _ _ => rfl, fun _ _ => rfl, ⟨_, _, _, rfl, id⟩, rfl, rfl⟩

theorem OnlySwitches.trans {t u : SdfState K} (h : OnlySwitches e s t) (h' : OnlySwitches e t u) :
    OnlySwitches e s u where
  grows c := (h.grows c).trans (h'.grows c)
  others c hc hc1 := (h'.others c hc hc1).trans (h.others c hc hc1)
  entries i hi := (h'.entries i hi).trans (h.entries i hi)
  entry := by
    obtain ⟨newSet, init, mask, heq, hkeep⟩ := h.entry
    obtain ⟨newSet', init', mask', heq', hkeep'⟩ := h'.entry
    refine ⟨newSet', init', mask', by rw [heq', heq], fun hnew => hkeep' ?_⟩
    rw [heq]
    exact hkeep hnew
  sizes := ⟨h'.sizes.1.trans h.sizes.1, h'.sizes.2.trans h.sizes.2⟩

theorem acceptFilter_cdTable : (acceptFilter fp e s).cdTable =
    (s.setSwitches e (setPoint fp e.sw.1) (setPoint fp e.sw.2)).cdTable := rfl

theorem monitorFilter_cdTable : (monitorFilter e s).cdTable =
    (s.setSwitches e (setMask (s.filterMasks e.filtNum.toNat))
      (setMask (s.filterMasks e.filtNum.toNat))).cdTable := rfl

theorem onlySwitches_acceptFilter : OnlySwitches e s (acceptFilter fp e s) := by
  have hset : ∀ v (cd : CdsCdTable K), Grows cd (setPoint fp v cd) :=
    fun v cd => ⟨_, _, _, rfl, fun _ => rfl⟩
  refine ⟨fun c => ?_, fun c hc hc1 => ?_, fun i hi => Function.update_of_ne hi _ _,
    ⟨_, true, _, Function.update_self _ _ _, id⟩, rfl, rfl⟩
  · rw [acceptFilter_cdTable]
    exact setSwitches_grows (hset _) (hset _) c
  · rw [acceptFilter_cdTable]
    exact setSwitches_of_ne hc hc1

theorem acceptFilter_initialized (hc : c = e.sigNum % sdfMaxTsize ∨ c = e.sigNum / sdfMaxTsize) :
    ((acceptFilter fp e s).cdTable c).initialized = true := by
  rw [acceptFilter_cdTable]
  exact setSwitches_initialized (fun _ => rfl) (fun _ => rfl) hc

theorem onlySwitches_monitorFilter : OnlySwitches e s (monitorFilter e s) := by
  have hmask : ∀ mask (cd : CdsCdTable K), Grows cd (setMask mask cd) :=
    fun mask cd => ⟨_, _, _, rfl, id⟩
  refine ⟨fun c => ?_, fun c hc hc1 => ?_, fun i hi => Function.update_of_ne hi _ _,
    ⟨_, _, _, Function.update_self _ _ _, id⟩, rfl, rfl⟩
  · rw [monitorFilter_cdTable]
    exact setSwitches_grows (hmask _) (hmask _) c
  · rw [monitorFilter_cdTable]
    exact setSwitches_of_ne hc hc1

theorem OnlySwitches.sameNames (h : OnlySwitches e s t) : SameNames s t := by
  have hentry : ∀ i, (t.filterTable i).fname = (s.filterTable i).fname ∧
      (t.filterTable i).sw = (s.filterTable i).sw := by
    intro i
    by_cases hi : i = e.filtNum.toNat
    · obtain ⟨newSet, init, mask, heq, -⟩ := h.entry
      rw [hi, heq]
      exact ⟨rfl, rfl⟩
    · rw [h.entries i hi]
      exact ⟨rfl, rfl⟩
  refine ⟨h.sizes.1, h.sizes.2, fun c => ?_, fun c => ?_, fun i => (hentry i).1,
    fun i => (hentry i).2⟩
  · obtain ⟨data, mask, initialized, heq, -⟩ := h.grows c
    rw [heq]
  · obtain ⟨data, mask, initialized, heq, -⟩ := h.grows c
    rw [heq]

theorem modifyFilter_spec : OnlySwitches e s (modifyFilter fp e s) ∧
    ((modifyFilter fp e s).filterTable e.filtNum.toNat).newSet = true ∧
    (e.accept = true → ∀ c, c = e.sigNum % sdfMaxTsize ∨ c = e.sigNum / sdfMaxTsize →
      ((modifyFilter fp e s).cdTable c).initialized = true) := by
  have hmark : OnlySwitches e s (s.setFilter e.filtNum.toNat
      { s.filterTable e.filtNum.toNat with newSet := true }) :=
    ⟨fun _ => .refl _, fun _ _ _ => rfl, fun i hi => Function.update_of_ne hi _ _,
      ⟨true, _, _, Function.update_self _ _ _, fun _ => rfl⟩, rfl, rfl⟩
  have hnew : ((s.setFilter e.filtNum.toNat
      { s.filterTable e.filtNum.toNat with newSet := true }).filterTable
        e.filtNum.toNat).newSet = true := by
    unfold SdfState.setFilter
    dsimp only
    rw [Function.update_self]
  unfold modifyFilter
  dsimp only
  generalize s.setFilter e.filtNum.toNat
    { s.filterTable e.filtNum.toNat with newSet := true } = t at hmark hnew ⊢
  obtain ⟨u, hu, haccept, hinit⟩ : ∃ u, (if e.accept = true then acceptFilter fp e t else t) = u ∧
      OnlySwitches e t u ∧
      (e.accept = true → ∀ c, c = e.sigNum % sdfMaxTsize ∨ c = e.sigNum / sdfMaxTsize →
        (u.cdTable c).initialized = true) := by
    by_cases ha : e.accept = true
    · exact ⟨_, if_pos ha, onlySwitches_acceptFilter, fun _ c hc => acceptFilter_initialized hc⟩
    · exact ⟨_, if_neg ha, .refl e t, fun h => absurd h ha⟩
  have hmonitor : OnlySwitches e u (if e.monitor = true then monitorFilter e u else u) := by
    split
    · exact onlySwitches_monitorFilter
    · exact .refl e u
  have hrest := haccept.trans hmonitor
  rw [hu]
  refine ⟨hmark.trans hrest, ?_, fun ha c hc => (hmonitor.grows c).initialized (hinit ha c hc)⟩
  obtain ⟨newSet, init, mask, heq, hkeep⟩ := hrest.entry
  rw [heq]
  exact hkeep hnew

end ModifyFilter

/-- When a selected line keeps the filters in step: it is for a channel, or for a filter that it
accepts or that is initialised. -/
def SelectionMeets (s : SdfState K) (e : SetErrTable K) : Prop :=
  e.selected = true →
    (∃ ii, ChannelLine s ii e) ∨
      ∃ i, FilterLine s i e ∧
        if foundChannel s e then filterOf s e.chname = none
        else e.accept = true ∨ (s.filterTable i).init = true

/-- The state within `modifyTable`, which started with `s`. -/
structure Midway (fp : Doubles K) (s t : SdfState K) : Prop where
  names : SameNames s t
  pending : ∀ i < s.fmNum, t.Pending fp i
  loaded : ∀ i < s.fmNum, (s.filterTable i).init = true → t.BothInitialized i

theorem inTable_congr (h : SameNames s t) (name : List Char) : inTable t name = inTable s name := by
  unfold inTable
  rw [h.chNum]
  simp only [h.chname]

theorem filterOf_of_channel (hs : s.Paired) {e : SetErrTable K} {ii : ℕ} (h : ChannelLine s ii e) :
    filterOf s e.chname = none := by
  have hnumber := hs.switch ii h.inTable
  rw [h.filterswitch, ← h.name] at hnumber
  unfold switchNumber at hnumber
  unfold filterOf
  rw [if_neg]
  rintro (h1 | h2)
  · rw [h1] at hnumber
    revert hnumber
    split <;> simp
  · rw [if_pos h2] at hnumber
    cases hnumber

theorem modifyChannel_names (masks : ℕ → BitVec 32) (e : SetErrTable K) (cd : CdsCdTable K) :
    (modifyChannel masks e cd).chname = cd.chname ∧
      (modifyChannel masks e cd).filterswitch = cd.filterswitch := by
  unfold modifyChannel
  by_cases ha : e.accept = true <;> by_cases hm : e.monitor = true <;> simp [ha, hm]

theorem modifyChannel_of_not {masks : ℕ → BitVec 32} {e : SetErrTable K} (cd : CdsCdTable K)
    (h : (e.accept || e.monitor) = false) : modifyChannel masks e cd = cd := by
  obtain ⟨ha, hm⟩ := Bool.or_eq_false_iff.mp h
  unfold modifyChannel
  simp only [ha, hm, Bool.false_eq_true, if_false]

theorem sameNames_modifyNamed (e : SetErrTable K) (s : SdfState K) :
    SameNames s (modifyNamed e s) := by
  refine ⟨rfl, rfl, fun c => ?_, fun c => ?_, fun _ => rfl, fun _ => rfl⟩
  · unfold modifyNamed
    dsimp only
    split
    · exact (modifyChannel_names _ e _).1
    · rfl
  · unfold modifyNamed
    dsimp only
    split
    · exact (modifyChannel_names _ e _).2
    · rfl

section ModifyLine

variable {e : SetErrTable K}

/-- The switch channels are not changed by name. -/
theorem Midway.modifyNamed (hs : s.Paired) (h : Midway fp s t)
    (he : filterOf s e.chname = none ∨ foundChannel s e = false) :
    Midway fp s (modifyNamed e t) := by
  have hkeep : ∀ i < s.fmNum, ∀ c, t.SwitchOf i c →
      (Seq.modifyNamed e t).cdTable c = t.cdTable c := by
    intro i hi c hc
    unfold Seq.modifyNamed
    dsimp only
    by_cases hname : c < t.chNum ∧ (t.cdTable c).chname = e.chname
    · rw [if_pos hname]
      rcases he with hnone | hfound
      · have hlead := hs.leads i hi c (h.names.switchOf.mp hc)
        rw [← h.names.chname, hname.2, hnone] at hlead
        cases hlead
      · unfold foundChannel at hfound
        have hin : inTable s e.chname = true := by
          rw [← inTable_congr h.names]
          exact List.any_eq_true.mpr ⟨c, List.mem_range.mpr hname.1, decide_eq_true hname.2⟩
        rw [hin, Bool.true_and] at hfound
        exact modifyChannel_of_not _ hfound
    · rw [if_neg hname]
  refine ⟨h.names.trans (sameNames_modifyNamed e t), fun i hi => ?_, fun i hi hinit => ?_⟩
  · have hentry : (Seq.modifyNamed e t).filterTable i = t.filterTable i := rfl
    exact (h.pending i hi).congr hentry (hkeep i hi)
  · have hsw : ((Seq.modifyNamed e t).filterTable i).sw = (t.filterTable i).sw := rfl
    refine (h.loaded i hi hinit).of_initialized hsw fun c hc hc' => ?_
    rw [hkeep i hi c hc]
    exact hc'

theorem sigNum_switches (hs : s.Paired) {i : ℕ} (h : FilterLine s i e) (c : ℕ) :
    s.SwitchOf i c ↔ c = e.sigNum % sdfMaxTsize ∨ c = e.sigNum / sdfMaxTsize := by
  have hlt : (s.filterTable i).sw.1 < sdfMaxTsize :=
    (hs.inTable i h.registered _ (.inl rfl)).trans_le hs.size
  rw [h.sigNum, Nat.add_mul_mod_self_right, Nat.mod_eq_of_lt hlt,
    Nat.add_mul_div_right _ _ (by decide), Nat.div_eq_of_lt hlt, Nat.zero_add]
  exact Iff.rfl

theorem Midway.modifyFilter (hs : s.Paired) (h : Midway fp s t) {i : ℕ} (hline : FilterLine s i e)
    (hmeets : e.accept = true ∨ (s.filterTable i).init = true) :
    Midway fp s (modifyFilter fp e t) := by
  obtain ⟨honly, hnew, haccept⟩ : OnlySwitches e t (Seq.modifyFilter fp e t) ∧ _ :=
    modifyFilter_spec
  have hindex : e.filtNum.toNat = i := by
    rw [hline.filtNum]
    exact Int.toNat_natCast i
  refine ⟨h.names.trans honly.sameNames, fun j hj => ?_, fun j hj hinit => ?_⟩
  · by_cases hji : j = i
    · subst hji
      rw [hindex] at hnew
      unfold SdfState.Pending
      rw [if_pos hnew]
      intro c hc
      have hc : s.SwitchOf j c := (h.names.trans honly.sameNames).switchOf.mp hc
      rcases hmeets with ha | hinit
      · exact haccept ha c ((sigNum_switches hs hline c).mp hc)
      · exact (honly.grows c).initialized (h.loaded j hj hinit c (h.names.switchOf.mpr hc))
    · have hentry : (Seq.modifyFilter fp e t).filterTable j = t.filterTable j :=
        honly.entries j (by rw [hindex]; exact hji)
      refine (h.pending j hj).congr hentry fun c hc => ?_
      -- no other filter has these switch channels
      have hnot : ¬s.SwitchOf i c := fun hic =>
        hji (hs.apart hj hline.registered (h.names.switchOf.mp hc) hic)
      rw [sigNum_switches hs hline] at hnot
      exact honly.others c (fun heq => hnot (.inl heq)) fun heq => hnot (.inr heq)
  · exact (h.loaded j hj hinit).of_initialized (honly.sameNames.sw j)
      fun c _ hc' => (honly.grows c).initialized hc'

theorem Midway.modifyLine (hs : s.Paired) (h : Midway fp s t) (he : SelectionMeets s e) :
    Midway fp s (modifyLine fp t e) := by
  unfold Seq.modifyLine
  by_cases hselected : e.selected = true
  · rw [if_pos hselected]
    have hfound : foundChannel t e = foundChannel s e := by
      unfold foundChannel
      rw [inTable_congr h.names]
    dsimp only
    rw [hfound]
    rcases he hselected with ⟨ii, hchannel⟩ | ⟨i, hline, hmeets⟩
    · have hnamed := h.modifyNamed hs (.inl (filterOf_of_channel hs hchannel))
      rwa [if_neg fun hif => by
        rw [hchannel.filtNum] at hif
        exact absurd hif.1 (by decide)]
    · by_cases hf : foundChannel s e = true
      · rw [if_pos hf] at hmeets
        rw [if_neg fun hif => hif.2 hf]
        exact h.modifyNamed hs (.inl hmeets)
      · rw [if_neg hf] at hmeets
        have hnamed := h.modifyNamed hs (.inr (Bool.eq_false_iff.mpr hf))
        have hnonneg : 0 ≤ e.filtNum := by
          rw [hline.filtNum]
          exact Int.natCast_nonneg i
        rw [if_pos ⟨hnonneg, hf⟩]
        exact hnamed.modifyFilter hs hline hmeets
  · rw [if_neg hselected]
    exact h

end ModifyLine

theorem modifyTable_inStep (hs : s.Paired) (hstep : s.FiltersInStep fp)
    {modTable : List (SetErrTable K)} (h : ∀ e ∈ modTable, SelectionMeets s e) :
    SameNames s (modifyTable fp modTable s) ∧ (modifyTable fp modTable s).FiltersInStep fp := by
  have hmidway : Midway fp s (modTable.foldl (modifyLine fp) s) := by
    have hstart : Midway fp s s := ⟨.refl s, fun i hi => hstep.pending hi, fun i hi hinit =>
      (hstep.inStep i hi).bothInitialized hinit⟩
    suffices hgen : ∀ t, Midway fp s t → Midway fp s (modTable.foldl (modifyLine fp) t) from
      hgen s hstart
    induction modTable with
    | nil => exact fun _ ht => ht
    | cons e es ih =>
      intro t ht
      exact ih (fun x hx => h x (List.mem_cons_of_mem e hx)) _
        (ht.modifyLine hs (h e List.mem_cons_self))
  have hpaired := hmidway.names.paired hs
  have hpending := hmidway.pending
  rw [← hmidway.names.fmNum] at hpending
  exact ⟨hmidway.names.trans (sameNames_newfilterstats hpaired hpending),
    newfilterstats_inStep hpaired hpending⟩

/-! ## Registration -/

/-- What `registerFilters` has made of fresh tables so far. -/
structure Registering (s t : SdfState K) : Prop where
  chNum : t.chNum = s.chNum
  cdTable : ∀ c, ∃ filterNum, t.cdTable c = { s.cdTable c with filterNum := filterNum }
  filters : ∀ i, (t.filterTable i).init = false ∧ (t.filterTable i).newSet = false
  switches : ∀ i, i < t.fmNum → ∀ c, t.SwitchOf i c → c < s.chNum
  free : ∀ i, t.fmNum ≤ i → (t.filterTable i).sw = (0, 0)

theorem foldl_last_mem {p : ℕ → Prop} [DecidablePred p] (l : List ℕ) (d : ℕ) :
    l.foldl (fun sw jj => if p jj then jj else sw) d = d ∨
      l.foldl (fun sw jj => if p jj then jj else sw) d ∈ l := by
  induction l using List.reverseRecOn with
  | nil => exact .inl rfl
  | append_singleton l jj ih =>
    rw [List.foldl_append, List.foldl_cons, List.foldl_nil]
    split
    · exact .inr (by simp)
    · exact ih.imp_right (List.mem_append_left _)

theorem Registering.step (h : Registering s t) {ii : ℕ} (hii : ii < s.chNum) :
    Registering s (registerFilter t ii) := by
  unfold registerFilter
  dsimp only
  split
  case isFalse => exact h
  case isTrue =>
    generalize (_ ++ "SW2S".toList).take 63 = tmpstr
    generalize hsw : (List.range t.chNum).foldl _ (t.filterTable t.fmNum).sw.2 = sw1
    have hlt : sw1 < s.chNum := by
      rcases foldl_last_mem (p := fun jj => tmpstr = (t.cdTable jj).chname) (List.range t.chNum)
        (t.filterTable t.fmNum).sw.2 with heq | hmem
      · rw [hsw, h.free t.fmNum le_rfl] at heq
        rw [heq]
        exact Nat.zero_lt_of_lt hii
      · rw [hsw, h.chNum] at hmem
        exact List.mem_range.mp hmem
    refine ⟨h.chNum, fun c => ?_, fun i => ?_, fun i hi c hc => ?_, fun i hi => ?_⟩
    · obtain ⟨filterNum, hcd⟩ := h.cdTable c
      dsimp only [SdfState.setCd, SdfState.setFilter]
      by_cases hc : c = ii
      · subst hc
        rw [Function.update_self, hcd]
        exact ⟨_, rfl⟩
      · rw [Function.update_of_ne hc, hcd]
        exact ⟨_, rfl⟩
    · dsimp only [SdfState.setCd, SdfState.setFilter]
      by_cases hi : i = t.fmNum
      · rw [hi, Function.update_self]
        exact h.filters t.fmNum
      · rw [Function.update_of_ne hi]
        exact h.filters i
    · dsimp only [SdfState.setCd, SdfState.setFilter, SdfState.SwitchOf] at hi hc
      by_cases hnew : i = t.fmNum
      · rw [hnew, Function.update_self] at hc
        rcases hc with rfl | rfl
        · exact hii
        · exact hlt
      · rw [Function.update_of_ne hnew] at hc
        exact h.switches i (by omega) c hc
    · dsimp only [SdfState.setCd, SdfState.setFilter] at hi ⊢
      rw [Function.update_of_ne (by omega)]
      exact h.free i (by omega)

theorem registering (hs : s.Fresh) : Registering s (registerFilters s) := by
  have hstart : Registering s { s with fmNum := 0 } := by
    refine ⟨rfl, fun c => ⟨_, rfl⟩, fun i => ?_, fun i hi => absurd hi (Nat.not_lt_zero i),
      fun i _ => ?_⟩
    · change (s.filterTable i).init = false ∧ (s.filterTable i).newSet = false
      rw [hs.filters i]
      exact ⟨rfl, rfl⟩
    · change (s.filterTable i).sw = (0, 0)
      rw [hs.filters i]
  unfold registerFilters
  have hin : ∀ ii ∈ List.range s.chNum, ii < s.chNum := fun ii => List.mem_range.mp
  generalize List.range s.chNum = l at hin
  generalize ({ s with fmNum := 0 } : SdfState K) = t at hstart
  induction l generalizing t with
  | nil => exact hstart
  | cons ii l ih =>
    exact ih (fun jj hjj => hin jj (List.mem_cons_of_mem ii hjj)) _
      (hstart.step (hin ii List.mem_cons_self))

/-- The filters have entries, and the name of each of their switch channels leads back to its filter
and is not an alarm's. -/
structure SdfState.Registered (s : SdfState K) : Prop where
  room : s.fmNum ≤ sdfMaxFmsize
  leads : ∀ i < s.fmNum, ∀ c, s.SwitchOf i c → filterOf s (s.cdTable c).chname = some i
  noAlarm : ∀ i < s.fmNum, ∀ c, s.SwitchOf i c → isAlarmChannel (s.cdTable c).chname = false

theorem registerFilters_paired (hs : s.Fresh) (hreg : (registerFilters s).Registered) :
    (registerFilters s).Paired := by
  have h := registering hs
  refine ⟨?_, fun c hc => ?_, fun i hi c hc => ?_, hreg.leads, hreg.noAlarm⟩
  · rw [h.chNum]
    exact hs.size
  · rw [h.chNum] at hc
    obtain ⟨filterNum, hcd⟩ := h.cdTable c
    rw [hcd]
    exact hs.switch c hc
  · rw [h.chNum]
    exact h.switches i hi c hc

theorem registerFilters_inStep (hs : s.Fresh) : (registerFilters s).FiltersInStep fp := by
  have h := registering hs
  refine ⟨fun i _ => ?_, fun i _ => (h.filters i).2⟩
  have hinit := (h.filters i).1
  have hcd : ((registerFilters s).cdTable
      ((registerFilters s).filterTable i).sw.1).initialized = false := by
    obtain ⟨filterNum, heq⟩ := h.cdTable ((registerFilters s).filterTable i).sw.1
    rw [heq]
    exact hs.uninitialized _
  unfold SdfState.FilterInStep
  constructor
  · rw [hinit, hcd]
    simp
  all_goals
    intro htrue
    rw [hinit] at htrue
    cases htrue

/-! ## Runs -/

/-- The condition on an operation, in the state before it. -/
def SdfState.OpMeets [LT K] [DecidableLT K] (fp : Doubles K) (pref : List Char) (s : SdfState K) :
    SdfOp K → Prop
  | .readConfig file command =>
    command ≠ .reset → ∀ text, file = some text → ReadMeets fp pref command s text
  | .setupFMArrays => True
  | .resyncFMArrays => True
  | .processFMChanCommands _ _ _ _ => True
  | .modifyTable modTable => ∀ e ∈ modTable, TableLine s e ∧ SelectionMeets s e

theorem step_inStep [LT K] [DecidableLT K] (hs : s.Paired) (hstep : s.FiltersInStep fp)
    {op : SdfOp K}
    (h : s.OpMeets fp pref op) :
    (s.step fp pref op).Paired ∧ (s.step fp pref op).FiltersInStep fp := by
  cases op with
  | readConfig file command =>
    obtain ⟨hnames, hafter⟩ := readConfig_inStep hs hstep h
    exact ⟨hnames.paired hs, hafter⟩
  | setupFMArrays =>
    exact ⟨(sameNames_setFmMasks _ s).paired hs, setFmMasks_inStep hstep fun _ => rfl⟩
  | resyncFMArrays =>
    refine ⟨(sameNames_setFmMasks _ s).paired hs, setFmMasks_inStep hstep fun i => ?_⟩
    rw [BitVec.and_assoc, BitVec.and_self]
  | processFMChanCommands ctrl selectCounter errCnt setErrTable =>
    exact ⟨{ hs with }, ⟨hstep.inStep, hstep.unmarked⟩⟩
  | modifyTable modTable =>
    obtain ⟨hnames, hafter⟩ := modifyTable_inStep hs hstep fun e he => (h e he).2
    exact ⟨hnames.paired hs, hafter⟩

/-- In every state of a run from fresh tables whose operations meet their conditions, every filter
is in step with its two switch channels. -/
theorem filters_follow_switches [LT K] [DecidableLT K] (fp : Doubles K) (pref : List Char)
    {s : SdfState K} (hs : s.Fresh) (hreg : (registerFilters s).Registered) {ops : List (SdfOp K)}
    (h : StepsMeet (SdfState.step fp pref) (SdfState.OpMeets fp pref) (registerFilters s) ops) :
    (ops.foldl (SdfState.step fp pref) (registerFilters s)).FiltersInStep fp :=
  (foldl_invariant (fun s => s.Paired ∧ s.FiltersInStep fp)
    (fun _ _ hinv hop => step_inStep hinv.1 hinv.2 hop)
    ⟨registerFilters_paired hs hreg, registerFilters_inStep hs⟩ h).2

/-! ## Example runs -/

/-- The tables for one filter, before it is registered. -/
def freshFilter : SdfState ℕ where
  chNum := 2
  cdTable ii :=
    match ii with
    | 0 => ⟨"X1:A_SW1S".toList, .num, .chval 0, 0, false, 1, -1⟩
    | _ => ⟨"X1:A_SW2S".toList, .num, .chval 0, 0, false, 2, -1⟩
  fmNum := 0
  filterTable _ := ⟨[], 0, (0, 0), false, false, 0⟩
  filterMasks _ := 0

def firstSwitchLine : List Char := "X1:A_SW1S 1 4.000000000000000e+00 0x3\n".toList

def secondSwitchLine : List Char := "X1:A_SW2S 1 2.000000000000000e+00 0x3\n".toList

/-- A line for the filter, with new settings that are accepted. -/
def acceptLine : SetErrTable ℕ := ⟨"X1:A".toList, [], 0, 20000, 4, 0, (1, 3)⟩

theorem freshFilter_fresh : freshFilter.Fresh := by
  refine ⟨by decide, fun ii hii => ?_, fun ii => ?_, fun ii => ?_, fun _ => rfl⟩
  · change ii < 2 at hii
    interval_cases ii <;> decide
  · match ii with
    | 0 => rfl
    | _ + 1 => rfl
  · match ii with
    | 0 => rfl
    | _ + 1 => rfl

theorem freshFilter_registered : (registerFilters freshFilter).Registered := by
  have hswitch : ∀ i < (registerFilters freshFilter).fmNum, ∀ c,
      (registerFilters freshFilter).SwitchOf i c → i = 0 ∧ (c = 0 ∨ c = 1) := by
    intro i hi c hc
    obtain rfl : i = 0 := Nat.lt_one_iff.mp hi
    exact ⟨rfl, hc⟩
  refine ⟨by decide, ?_, ?_⟩
  · intro i hi c hc
    obtain ⟨rfl, rfl | rfl⟩ := hswitch i hi c hc <;> decide
  · intro i hi c hc
    obtain ⟨rfl, rfl | rfl⟩ := hswitch i hi c hc <;> decide

/-- A file with both switch channels, new masks, and a change from a table. -/
theorem filters_follow_switches_accept :
    ([SdfOp.readConfig (some (firstSwitchLine ++ secondSwitchLine)) .loadPartial, .resyncFMArrays,
      .processFMChanCommands (fun _ => 1) 0 0 fun _ => acceptLine,
      .modifyTable [acceptLine]].foldl (SdfState.step smallDoubles "X1:A".toList)
        (registerFilters freshFilter)).FiltersInStep smallDoubles := by
  have hsettings : settingsOf "X1:A".toList (firstSwitchLine ++ secondSwitchLine) =
      [⟨"X1:A_SW1S".toList, "4.000000000000000e+00".toList, 3⟩,
        ⟨"X1:A_SW2S".toList, "2.000000000000000e+00".toList, 3⟩] := by decide +kernel
  have hread : ReadMeets smallDoubles "X1:A".toList .loadPartial (registerFilters freshFilter)
      (firstSwitchLine ++ secondSwitchLine) := by
    refine ⟨.inl ?_, ?_, ?_⟩
    · rw [hsettings]
      decide
    · intro l _ i hlead c hc
      have hi : i < 1 := by
        unfold filterOf at hlead
        split at hlead
        · exact List.mem_range.mp (List.mem_of_find?_eq_some hlead)
        · cases hlead
      obtain rfl : i = 0 := Nat.lt_one_iff.mp hi
      rw [hsettings]
      right
      refine ⟨by decide, ?_⟩
      rcases hc with rfl | rfl
      · exact ⟨_, List.mem_cons_self, rfl⟩
      · exact ⟨_, List.mem_cons_of_mem _ List.mem_cons_self, rfl⟩
    · rw [hsettings]
      exact ⟨by decide +kernel, by decide +kernel, by decide +kernel, by decide +kernel⟩
  refine filters_follow_switches smallDoubles "X1:A".toList freshFilter_fresh freshFilter_registered
    ⟨fun _ text htext => ?_, trivial, trivial, fun e he => ?_, trivial⟩
  · cases htext
    exact hread
  · obtain rfl := List.mem_singleton.mp he
    refine ⟨.inl ⟨0, ?_⟩, fun _ => .inr ⟨0, ?_, ?_⟩⟩
    · exact ⟨by decide +kernel, by decide +kernel, by decide, by decide +kernel⟩
    · exact ⟨by decide +kernel, by decide +kernel, by decide, by decide +kernel⟩
    · rw [if_neg (by decide +kernel)]
      exact .inl (by decide)

/-- A file that has the first switch channel of a filter only. -/
theorem one_switch_initializes_filter :
    ¬([SdfOp.readConfig (some firstSwitchLine) .loadPartial].foldl
      (SdfState.step smallDoubles "X1:A".toList)
        (registerFilters freshFilter)).FiltersInStep smallDoubles := by
  intro h
  obtain ⟨hinit, -⟩ := h.inStep 0 (by decide +kernel)
  have hsecond := (hinit.mp (by decide +kernel)).2
  revert hsecond
  decide +kernel

end AdvLigoRts.Seq
