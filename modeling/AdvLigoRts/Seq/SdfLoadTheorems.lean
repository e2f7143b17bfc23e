import AdvLigoRts.Seq.SdfFile

/-!
# What loading a file writes

A line of a channel of `cdTable` adds an entry to `cdTableP`, and any other line is counted in
`chNotFound`, also one that sets an alarm: its value is put into the entry, which is not kept. So
alarms are never written.
-/

namespace AdvLigoRts.Seq

open PvLib

variable {K : Type} {fp : Doubles K} {dbExists : List Char → Bool} {command : SdfCommand}

/-! ## Lists side by side -/

section Pairs

variable {α β : Type} {R S : α → β → Prop} {as : List α} {bs : List β}

theorem exists_left_of_forall₂ (h : List.Forall₂ R as bs) {b : β} (hb : b ∈ bs) :
    ∃ a ∈ as, R a b := by
  induction h with
  | nil => cases hb
  | cons hab _ ih =>
    rcases List.mem_cons.mp hb with rfl | hb
    · exact ⟨_, List.mem_cons_self, hab⟩
    · obtain ⟨a, ha, hab⟩ := ih hb
      exact ⟨a, List.mem_cons_of_mem _ ha, hab⟩

/-- What two relations between the lists say of an element of the first one. -/
theorem exists_of_forall₂_both (h : List.Forall₂ R as bs) (h' : List.Forall₂ S as bs) {a : α}
    (ha : a ∈ as) : ∃ b, R a b ∧ S a b := by
  induction h with
  | nil => cases ha
  | cons hab _ ih =>
    cases h' with
    | cons hab' htail =>
      rcases List.mem_cons.mp ha with rfl | ha
      · exact ⟨_, hab, hab'⟩
      · exact ih htail ha

end Pairs

/-! ## Tables with the same channels -/

/-- Two tables have the same channels: their names, types and switches. -/
structure SameChannels (s t : SdfState K) : Prop where
  chNum : t.chNum = s.chNum
  chname : ∀ ii, (t.cdTable ii).chname = (s.cdTable ii).chname
  datatype : ∀ ii, (t.cdTable ii).datatype = (s.cdTable ii).datatype
  filterswitch : ∀ ii, (t.cdTable ii).filterswitch = (s.cdTable ii).filterswitch

namespace SameChannels

variable {s t : SdfState K}

theorem refl (s : SdfState K) : SameChannels s s :=
  ⟨rfl, fun _ => rfl, fun _ => rfl, fun _ => rfl⟩

theorem readSetting (h : SameChannels s t) (l : Setting) :
    SameChannels s (readSetting fp command t l) := by
  have hcd : ∀ ii, ∃ data mask initialized, (Seq.readSetting fp command t l).cdTable ii =
      { t.cdTable ii with data := data, mask := mask, initialized := initialized } := by
    intro ii
    rw [readSetting_cdTable]
    split
    · unfold applySetting
      split
      · exact ⟨_, _, _, rfl⟩
      · exact ⟨_, _, _, rfl⟩
    · exact ⟨_, _, _, rfl⟩
  refine ⟨(readSetting_chNum t l).trans h.chNum, fun ii => ?_, fun ii => ?_, fun ii => ?_⟩
  all_goals obtain ⟨data, mask, initialized, heq⟩ := hcd ii
  · rw [heq, ← h.chname]
  · rw [heq, ← h.datatype]
  · rw [heq, ← h.filterswitch]

theorem inTable (h : SameChannels s t) (name : List Char) : inTable t name = inTable s name := by
  unfold Seq.inTable
  rw [h.chNum]
  simp only [h.chname]

theorem isCounted (h : SameChannels s t) (l : Setting) : isCounted t l = isCounted s l := by
  unfold Seq.isCounted
  rw [h.inTable]

theorem readData (h : SameChannels s t) (ii : ℕ) (s3 : List Char) :
    readData fp (t.cdTable ii) s3 = readData fp (s.cdTable ii) s3 := by
  unfold Seq.readData
  rw [h.datatype, h.filterswitch]

end SameChannels

/-! ## One line -/

namespace LoadState

def collected (st : LoadState K) : List (CdsCdTable K) :=
  (List.range st.chNumP).map st.cdTableP

/-- The entry that comes next is filled in, under a name. -/
structure Filled (name : List Char) (st st' : LoadState K) : Prop where
  tables : st'.tables = st.tables
  chNumP : st'.chNumP = st.chNumP
  chNotFound : st'.chNotFound = st.chNotFound
  name : st'.entry.chname = name
  others : ∀ k ≠ st.chNumP, st'.cdTableP k = st.cdTableP k

theorem Filled.trans {name name' : List Char} {st st' st'' : LoadState K} (h : Filled name st st')
    (h' : Filled name' st' st'') : Filled name' st st'' where
  tables := h'.tables.trans h.tables
  chNumP := h'.chNumP.trans h.chNumP
  chNotFound := h'.chNotFound.trans h.chNotFound
  name := h'.name
  others k hk := (h'.others k (by rwa [h.chNumP])).trans (h.others k hk)

variable (st : LoadState K)

theorem filled_self : Filled st.entry.chname st st := ⟨rfl, rfl, rfl, rfl, fun _ _ => rfl⟩

theorem entry_setEntry (p : CdsCdTable K) : (st.setEntry p).entry = p :=
  Function.update_self _ _ _

theorem filled_setEntry (p : CdsCdTable K) : Filled p.chname st (st.setEntry p) where
  tables := rfl
  chNumP := rfl
  chNotFound := rfl
  name := by rw [entry_setEntry]
  others _ hk := Function.update_of_ne hk _ _

theorem filled_setValue (data : SdfData K) : Filled st.entry.chname st (st.setValue data) := by
  cases data with
  | chval v => exact st.filled_setEntry { st.entry with datatype := .num, data := .chval v }
  | strval v => exact st.filled_setEntry { st.entry with datatype := .str, data := .strval v }

theorem putValue_setValue (data : SdfData K) : (st.setValue data).entry.putValue fp = data := by
  unfold setValue
  rw [entry_setEntry]
  cases data <;> rfl

theorem Filled.collect {name : List Char} {st st' st'' : LoadState K} (h : Filled name st st')
    (htable : st''.cdTableP = st'.cdTableP) (hnum : st''.chNumP = st.chNumP + 1) :
    st''.collected = st.collected ++ [st'.entry] := by
  have hbelow : (List.range st.chNumP).map st''.cdTableP = st.collected := by
    refine List.map_congr_left fun k hk => ?_
    rw [htable]
    exact h.others k (List.mem_range.mp hk).ne
  have hentry : st''.cdTableP st.chNumP = st'.entry := by
    unfold entry
    rw [htable, h.chNumP]
  unfold collected at hbelow ⊢
  rw [hnum, List.range_succ, List.map_append, hbelow, List.map_singleton, hentry]

end LoadState

open LoadState

section Load

variable (fp) [LT K] [DecidableLT K] (l : Setting)

theorem filled_loadChannel (st : LoadState K) (ii : ℕ) :
    LoadState.Filled st.entry.chname st (loadChannel fp l st ii) := by
  unfold loadChannel
  dsimp only
  split
  · have hset := st.filled_setValue (readData fp (st.tables.cdTable ii) l.value)
    split
    · exact ⟨rfl, rfl, rfl, hset.name, hset.others⟩
    · exact hset
  · exact st.filled_self

theorem filled_loadChannels (st : LoadState K) (n : ℕ) :
    LoadState.Filled st.entry.chname st ((List.range n).foldl (loadChannel fp l) st) := by
  induction n with
  | zero => exact st.filled_self
  | succ n ih =>
    have hstep := filled_loadChannel fp l ((List.range n).foldl (loadChannel fp l) st) n
    rw [ih.name] at hstep
    rw [List.range_succ, List.foldl_append]
    exact ih.trans hstep

theorem putValue_loadChannel {st : LoadState K} {ii : ℕ}
    (h : (st.tables.cdTable ii).chname = l.name) :
    (loadChannel fp l st ii).entry.putValue fp = readData fp (st.tables.cdTable ii) l.value := by
  unfold loadChannel
  dsimp only
  rw [if_pos h]
  split
  · exact putValue_setValue _ _
  · exact putValue_setValue _ _

theorem putValue_loadChannels {st : LoadState K} {ii n : ℕ} (hii : ii < n)
    (hname : (st.tables.cdTable ii).chname = l.name)
    (honly : ∀ jj < n, (st.tables.cdTable jj).chname = l.name → jj = ii) :
    ((List.range n).foldl (loadChannel fp l) st).entry.putValue fp =
      readData fp (st.tables.cdTable ii) l.value := by
  induction n with
  | zero => exact absurd hii (Nat.not_lt_zero ii)
  | succ n ih =>
    have htables := (filled_loadChannels fp l st n).tables
    rw [List.range_succ, List.foldl_append, List.foldl_cons, List.foldl_nil]
    by_cases hn : n = ii
    · subst hn
      rw [putValue_loadChannel fp l (by rw [htables]; exact hname), htables]
    · have hother : (((List.range n).foldl (loadChannel fp l) st).tables.cdTable n).chname ≠
          l.name := by
        rw [htables]
        exact fun heq => hn (honly n (Nat.lt_succ_self n) heq)
      rw [show loadChannel fp l _ n = _ from if_neg hother]
      exact ih (by omega) fun jj hjj => honly jj (hjj.trans (Nat.lt_succ_self n))

variable (dbExists) (command) (st : LoadState K)

def lineEntry (fp : Doubles K) (l : Setting) (st : LoadState K) : LoadState K :=
  let st := st.setEntry { st.entry with chname := l.name, mask := l.mask }
  if isAlarmChannel l.name then st.setValue (alarmData fp l.value)
  else (List.range st.tables.chNum).foldl (loadChannel fp l) st

theorem filled_lineEntry : LoadState.Filled l.name st (lineEntry fp l st) := by
  have hset := st.filled_setEntry { st.entry with chname := l.name, mask := l.mask }
  unfold lineEntry
  dsimp only
  split
  · have hvalue := filled_setValue (st.setEntry { st.entry with chname := l.name, mask := l.mask })
      (alarmData fp l.value)
    rw [hset.name] at hvalue
    exact hset.trans hvalue
  · have hvalue := filled_loadChannels fp l
      (st.setEntry { st.entry with chname := l.name, mask := l.mask }) st.tables.chNum
    rw [hset.name] at hvalue
    exact hset.trans hvalue

theorem isCounted_lineEntry : isCounted (lineEntry fp l st).tables l = isCounted st.tables l := by
  rw [(filled_lineEntry fp l st).tables]

/-- The tables after a line, whether it is counted or not. -/
def lineRead (fp : Doubles K) (command : SdfCommand) (l : Setting) (st : LoadState K) :
    LoadState K :=
  { lineEntry fp l st with tables := readSetting fp command (lineEntry fp l st).tables l }

theorem loadSetting_eq :
    loadSetting fp dbExists command st l =
      if isCounted st.tables l then
        { lineRead fp command l st with chNumP := (lineRead fp command l st).chNumP + 1 }
      else notFound fp dbExists l.name (lineRead fp command l st) := by
  rw [← isCounted_lineEntry fp l st]
  rfl

theorem loadSetting_tables :
    (loadSetting fp dbExists command st l).tables = readSetting fp command st.tables l := by
  have htables : (lineRead fp command l st).tables = readSetting fp command st.tables l := by
    unfold lineRead
    rw [(filled_lineEntry fp l st).tables]
  rw [loadSetting_eq, ← htables]
  split <;> rfl

theorem loadSetting_counted (h : isCounted st.tables l = true) :
    (loadSetting fp dbExists command st l).chNumP = st.chNumP + 1 ∧
      (loadSetting fp dbExists command st l).chNotFound = st.chNotFound ∧
      (loadSetting fp dbExists command st l).collected =
        st.collected ++ [(lineEntry fp l st).entry] := by
  have hfilled := filled_lineEntry fp l st
  have hload : loadSetting fp dbExists command st l =
      { lineRead fp command l st with chNumP := (lineRead fp command l st).chNumP + 1 } := by
    rw [loadSetting_eq, if_pos h]
  have hnum : (loadSetting fp dbExists command st l).chNumP = st.chNumP + 1 := by
    rw [hload, ← hfilled.chNumP]
    rfl
  refine ⟨hnum, ?_, hfilled.collect ?_ hnum⟩
  · rw [hload, ← hfilled.chNotFound]
    rfl
  · rw [hload]
    rfl

/-- Any other line is only counted. -/
theorem loadSetting_notFound (h : isCounted st.tables l = false) :
    (loadSetting fp dbExists command st l).chNumP = st.chNumP ∧
      (loadSetting fp dbExists command st l).chNotFound = st.chNotFound + 1 ∧
      (loadSetting fp dbExists command st l).collected = st.collected := by
  have hfilled := filled_lineEntry fp l st
  have hload : loadSetting fp dbExists command st l =
      notFound fp dbExists l.name (lineRead fp command l st) := by
    rw [loadSetting_eq, h, if_neg Bool.false_ne_true]
  have hnum : (loadSetting fp dbExists command st l).chNumP = st.chNumP := by
    rw [hload, ← hfilled.chNumP]
    rfl
  refine ⟨hnum, ?_, ?_⟩
  · rw [hload, ← hfilled.chNotFound]
    rfl
  · unfold collected
    rw [hnum]
    refine List.map_congr_left fun k hk => ?_
    rw [hload]
    exact hfilled.others k (List.mem_range.mp hk).ne

/-! ## Errors -/

/-- The channels up to `n` for which a setting is too large. -/
def overrangesBelow (s : SdfState K) (l : Setting) (n : ℕ) : ℕ :=
  (List.range n).countP fun ii =>
    (s.cdTable ii).chname = l.name ∧ isOverrange fp (s.cdTable ii) l.value

theorem overrangesBelow_succ (s : SdfState K) (l : Setting) (n : ℕ) :
    overrangesBelow fp s l (n + 1) = overrangesBelow fp s l n +
      if (s.cdTable n).chname = l.name ∧ isOverrange fp (s.cdTable n) l.value then 1 else 0 := by
  unfold overrangesBelow
  rw [List.range_succ, List.countP_append, List.countP_singleton]
  simp

theorem rderror_loadChannels (l : Setting) (st : LoadState K) (n : ℕ) :
    ((List.range n).foldl (loadChannel fp l) st).rderror =
      st.rderror + overrangesBelow fp st.tables l n := by
  induction n with
  | zero => rfl
  | succ n ih =>
    have htables := (filled_loadChannels fp l st n).tables
    rw [List.range_succ, List.foldl_append, List.foldl_cons, List.foldl_nil, overrangesBelow_succ,
      ← Nat.add_assoc, ← ih, ← htables]
    generalize (List.range n).foldl (loadChannel fp l) st = u
    unfold loadChannel
    dsimp only
    by_cases hname : (u.tables.cdTable n).chname = l.name
    · by_cases hover : isOverrange fp (u.tables.cdTable n) l.value = true
      · rw [if_pos hname, if_pos hover, if_pos ⟨hname, hover⟩]
        rfl
      · rw [if_pos hname, if_neg hover, if_neg fun h => hover h.2]
        rfl
    · rw [if_neg hname, if_neg fun h => hname h.1]
      rfl

theorem overranges_eq (s : SdfState K) (l : Setting) :
    overranges fp s l =
      if isAlarmChannel l.name then 0 else overrangesBelow fp s l s.chNum := rfl

theorem rderror_loadSetting :
    (loadSetting fp dbExists command st l).rderror =
      st.rderror + overranges fp st.tables l := by
  have hentry : (lineEntry fp l st).rderror = st.rderror + overranges fp st.tables l := by
    unfold lineEntry
    dsimp only
    rw [overranges_eq]
    split
    · rfl
    · exact rderror_loadChannels fp l _ _
  rw [loadSetting_eq, ← hentry]
  split <;> rfl

theorem overranges_congr {s t : SdfState K} (h : SameChannels s t) (l : Setting) :
    overranges fp t l = overranges fp s l := by
  have hcd : ∀ ii, isOverrange fp (t.cdTable ii) l.value =
      isOverrange fp (s.cdTable ii) l.value := by
    intro ii
    unfold isOverrange
    rw [h.datatype, h.filterswitch]
  unfold overranges
  rw [h.chNum]
  simp only [h.chname, hcd]

/-! ## All lines -/

variable {fp} {dbExists} {command} {l} {st} {s : SdfState K}

theorem SameChannels.loadSetting (hs : SameChannels s st.tables) (l : Setting) :
    SameChannels s (loadSetting fp dbExists command st l).tables := by
  rw [loadSetting_tables]
  exact hs.readSetting l

variable (fp) (dbExists) (command) in
/-- What a line adds to the counts, of the channels and of what is not found. -/
theorem loadSetting_counts (hs : SameChannels s st.tables) (l : Setting) :
    (loadSetting fp dbExists command st l).chNumP =
        (if isCounted s l then st.chNumP + 1 else st.chNumP) ∧
      (loadSetting fp dbExists command st l).chNotFound =
        if isCounted s l then st.chNotFound else st.chNotFound + 1 := by
  cases hl : isCounted s l with
  | true =>
    obtain ⟨hc, hn, -⟩ := loadSetting_counted fp dbExists command l st ((hs.isCounted l).trans hl)
    exact ⟨hc, hn⟩
  | false =>
    obtain ⟨hc, hn, -⟩ := loadSetting_notFound fp dbExists command l st ((hs.isCounted l).trans hl)
    exact ⟨hc, hn⟩

/-- An entry has the name of a line and what `readConfig` makes of its value. -/
def Collected (fp : Doubles K) (s : SdfState K) (l : Setting) (p : CdsCdTable K) : Prop :=
  p.chname = l.name ∧ ∃ ii < s.chNum, (s.cdTable ii).chname = l.name ∧
    p.putValue fp = readData fp (s.cdTable ii) l.value

omit [LT K] [DecidableLT K] in
theorem isCounted_iff : isCounted s l = true ↔
    isAlarmChannel l.name = false ∧ ∃ ii < s.chNum, (s.cdTable ii).chname = l.name := by
  unfold isCounted inTable
  simp

theorem collected_lineEntry (hs : SameChannels s st.tables) (hdb : s.Recorded dbExists)
    (h : isCounted s l = true) : Collected fp s l (lineEntry fp l st).entry := by
  obtain ⟨halarm, ii, hii, hname⟩ := isCounted_iff.mp h
  refine ⟨(filled_lineEntry fp l st).name, ii, hii, hname, ?_⟩
  unfold lineEntry
  dsimp only
  rw [halarm, if_neg Bool.false_ne_true, ← hs.readData ii]
  refine putValue_loadChannels fp l (hii.trans_eq hs.chNum.symm) ((hs.chname ii).trans hname) ?_
  intro jj hjj heq
  exact hdb.distinct jj (hjj.trans_eq hs.chNum) ii hii
    ((hs.chname jj).symm.trans (heq.trans hname.symm))

theorem loadSettings_spec {ls : List Setting} {st' : LoadState K}
    (hs : SameChannels s st.tables) (hdb : s.Recorded dbExists)
    (h : loadSettings fp dbExists command ls st = (st', true)) :
    st'.chNotFound = st.chNotFound + ls.countP (fun l => !isCounted s l) ∧
      st'.rderror = st.rderror + (ls.map (overranges fp s)).sum ∧
      ∃ ps, st'.collected = st.collected ++ ps ∧
        List.Forall₂ (Collected fp s) (ls.filter (isCounted s)) ps := by
  induction ls generalizing st with
  | nil =>
    cases h
    exact ⟨rfl, rfl, [], (List.append_nil _).symm, .nil⟩
  | cons l ls ih =>
    unfold loadSettings at h
    dsimp only at h
    split at h
    · cases h
    · obtain ⟨hfound, herror, ps, hps, hcollected⟩ := ih (hs.loadSetting l) h
      rw [rderror_loadSetting, overranges_congr fp hs, Nat.add_assoc, ← List.sum_cons,
        ← List.map_cons] at herror
      cases hl : isCounted s l with
      | true =>
        obtain ⟨-, hcount, hcollect⟩ := loadSetting_counted fp dbExists command l st
          ((hs.isCounted l).trans hl)
        rw [hcount] at hfound
        rw [hcollect, List.append_assoc] at hps
        rw [List.countP_cons_of_neg (by simp [hl]), List.filter_cons_of_pos hl]
        exact ⟨hfound, herror, _, hps, .cons (collected_lineEntry hs hdb hl) hcollected⟩
      | false =>
        obtain ⟨-, hcount, hcollect⟩ := loadSetting_notFound fp dbExists command l st
          ((hs.isCounted l).trans hl)
        rw [hcount] at hfound
        rw [hcollect] at hps
        rw [List.countP_cons_of_pos (by simp [hl]), List.filter_cons_of_neg (by simp [hl])]
        exact ⟨by omega, herror, ps, hps, hcollected⟩

/-- A load comes to the end of its file if there are not too many lines of channels. -/
theorem loadSettings_complete {ls : List Setting} (hs : SameChannels s st.tables)
    (hnum : st.chNumP < sdfMaxChans) :
    (loadSettings fp dbExists command ls st).2 = true ↔
      st.chNumP + ls.countP (isCounted s) < sdfMaxChans := by
  induction ls generalizing st with
  | nil => exact ⟨fun _ => hnum, fun _ => rfl⟩
  | cons l ls ih =>
    have hcount : (loadSetting fp dbExists command st l).chNumP + ls.countP (isCounted s) =
        st.chNumP + (l :: ls).countP (isCounted s) := by
      rw [(loadSetting_counts fp dbExists command hs l).1, List.countP_cons]
      split <;> omega
    unfold loadSettings
    dsimp only
    split
    · -- the line that makes them too many
      rename_i hfull
      refine ⟨nofun, fun hlt => ?_⟩
      omega
    · rename_i hroom
      rw [ih (hs.loadSetting l) (not_le.mp hroom), hcount]

/-! ## The writes -/

omit [LT K] [DecidableLT K] in
/-- What is written of the entries, if all of them are in the database. -/
theorem writeEpicsDb_collected (hload : command = .loadPartial ∨ command = .loadDbOnly)
    (hfound : ∀ p ∈ st.collected, dbExists p.chname = true) :
    writeEpicsDb fp dbExists st.chNumP st.cdTableP command =
      st.collected.map fun p => (p.chname, p.putValue fp) := by
  have hput : writeEpicsDb fp dbExists st.chNumP st.cdTableP command =
      st.collected.filterMap fun p =>
        if dbExists p.chname then some (p.chname, p.putValue fp) else none := by
    unfold collected
    rw [List.filterMap_map]
    rcases hload with rfl | rfl <;> rfl
  rw [hput, ← List.filterMap_eq_map]
  refine List.filterMap_congr fun p hp => ?_
  rw [hfound p hp, if_pos rfl]
  rfl

/-! ## The tables -/

variable (fp) (dbExists) (command) in
/-- The tables that a load leaves are those of `readConfig`. -/
theorem loadSettings_tables (ls : List Setting) (st : LoadState K) :
    (loadSettings fp dbExists command ls st).1.tables =
        (readSettings fp command ls st.chNumP st.tables).1 ∧
      (loadSettings fp dbExists command ls st).2 =
        (readSettings fp command ls st.chNumP st.tables).2 := by
  induction ls generalizing st with
  | nil => exact ⟨rfl, rfl⟩
  | cons l ls ih =>
    have hif : (¬isAlarmChannel l.name = true ∧ inTable st.tables l.name = true) ↔
        isCounted st.tables l = true := by simp [isCounted]
    have hnum := (loadSetting_counts fp dbExists command (.refl st.tables) l).1
    have htables := loadSetting_tables fp dbExists command l st
    unfold loadSettings readSettings
    dsimp only
    simp only [hif, ← hnum, ← htables]
    split
    · exact ⟨rfl, rfl⟩
    · exact ih _

/-- The state in which the loop over the lines starts. -/
def LoadState.start (st : LoadState K) : LoadState K :=
  { st with rderror := 0, chNumP := 0, chNotFound := 0 }

section Request

variable {pref file : List Char} {st st' : LoadState K} (hcommand : command ≠ .reset)
include hcommand

theorem loadConfig_of_false
    (h : loadSettings fp dbExists command (settingsOf pref file) st.start = (st', false)) :
    loadConfig fp dbExists pref (some file) command st = ⟨st', [], [], 4⟩ := by
  unfold LoadState.start at h
  unfold loadConfig
  dsimp only
  rw [if_neg hcommand, h]

theorem loadConfig_of_true
    (h : loadSettings fp dbExists command (settingsOf pref file) st.start = (st', true)) :
    loadConfig fp dbExists pref (some file) command st =
      ⟨{ st' with tables := newfilterstats fp st'.tables },
        writeEpicsDb fp dbExists st'.chNumP st'.cdTableP command,
        (List.range st'.tables.fmNum).flatMap (filterRequests fp dbExists st'.tables),
        if st'.rderror ≠ 0 then 2 else 0⟩ := by
  unfold LoadState.start at h
  unfold loadConfig
  dsimp only
  rw [if_neg hcommand, h]

end Request

theorem loadConfig_tables (pref : List Char) (file : Option (List Char)) (st : LoadState K) :
    (loadConfig fp dbExists pref file command st).state.tables =
      readConfig fp pref file command st.tables := by
  by_cases hcommand : command = .reset
  · unfold loadConfig readConfig
    dsimp only
    rw [if_pos hcommand, if_pos hcommand]
  · cases file with
    | none =>
      unfold loadConfig readConfig
      dsimp only
      rw [if_neg hcommand, if_neg hcommand]
    | some file =>
      obtain ⟨htables, hread⟩ := loadSettings_tables fp dbExists command (settingsOf pref file)
        st.start
      change _ = (readSettings fp command (settingsOf pref file) 0 st.tables).1 at htables
      change _ = (readSettings fp command (settingsOf pref file) 0 st.tables).2 at hread
      have hlines : readLines fp command pref (fileLines file) 0 st.tables =
          readSettings fp command (settingsOf pref file) 0 st.tables := readLines_eq ..
      unfold readConfig
      rw [if_neg hcommand]
      dsimp only
      rw [hlines]
      generalize hload : loadSettings fp dbExists command (settingsOf pref file) st.start = r
        at htables hread
      generalize readSettings fp command (settingsOf pref file) 0 st.tables = r' at htables hread
      obtain ⟨st', full⟩ := r
      obtain ⟨s, full'⟩ := r'
      subst htables hread
      cases full with
      | false => rw [loadConfig_of_false hcommand hload]
      | true => rw [loadConfig_of_true hcommand hload]

/-! ## Loading a file of well-formed lines -/

section File

variable {pref : List Char} {lines : List (SettingLine pref)} {st : LoadState K}

theorem loadConfig_readOnly (file : List Char) :
    (loadConfig fp dbExists pref (some file) .readOnly st).writes = [] := by
  cases hload : loadSettings fp dbExists .readOnly (settingsOf pref file) st.start with
  | mk st' full =>
    cases full with
    | false => rw [loadConfig_of_false (by decide) hload]
    | true =>
      rw [loadConfig_of_true (by decide) hload]
      rfl

def countedLines (s : SdfState K) (lines : List (SettingLine pref)) : List (SettingLine pref) :=
  lines.filter fun l => isCounted s l.setting

/-- The number of switch settings that are too large. -/
def errorCount (fp : Doubles K) (s : SdfState K) (lines : List (SettingLine pref)) : ℕ :=
  (lines.map fun l => overranges fp s l.setting).sum

theorem loadSettings_start :
    (loadSettings fp dbExists command (lines.map SettingLine.setting) st.start).2 = true ↔
      (countedLines st.tables lines).length < sdfMaxChans := by
  have hs : SameChannels st.tables st.start.tables := .refl st.tables
  have hzero : st.start.chNumP = 0 := rfl
  have hnum : st.start.chNumP < sdfMaxChans := by
    rw [hzero]
    decide
  rw [loadSettings_complete hs hnum, List.countP_map, List.countP_eq_length_filter, hzero,
    Nat.zero_add]
  rfl

theorem loadConfig_full (hcommand : command ≠ .reset)
    (hfull : sdfMaxChans ≤ (countedLines st.tables lines).length) :
    (loadConfig fp dbExists pref (some (fileOf lines)) command st).writes = [] := by
  obtain ⟨st', hload⟩ : ∃ st', loadSettings fp dbExists command
      (settingsOf pref (fileOf lines)) st.start = (st', false) := by
    rw [settingsOf_fileOf]
    refine ⟨_, Prod.ext rfl (Bool.eq_false_iff.mpr fun hall => ?_)⟩
    exact absurd (loadSettings_start.mp hall) (not_lt.mpr hfull)
  rw [loadConfig_of_false hcommand hload]

variable (fp) in
theorem loadConfig_collected (hcommand : command ≠ .reset) (hdb : st.tables.Recorded dbExists)
    (hroom : (countedLines st.tables lines).length < sdfMaxChans) :
    (loadConfig fp dbExists pref (some (fileOf lines)) command st).state.chNotFound =
        lines.countP (fun l => !isCounted st.tables l.setting) ∧
      (loadConfig fp dbExists pref (some (fileOf lines)) command st).state.rderror =
        errorCount fp st.tables lines ∧
      ∃ ps, List.Forall₂ (fun l p => Collected fp st.tables (SettingLine.setting l) p)
          (countedLines st.tables lines) ps ∧
        (command = .loadPartial ∨ command = .loadDbOnly →
          (loadConfig fp dbExists pref (some (fileOf lines)) command st).writes =
            ps.map fun p => (p.chname, p.putValue fp)) := by
  have hs : SameChannels st.tables st.start.tables := .refl st.tables
  obtain ⟨st', hload⟩ : ∃ st',
      loadSettings fp dbExists command (lines.map SettingLine.setting) st.start = (st', true) :=
    ⟨_, Prod.ext rfl (loadSettings_start.mpr hroom)⟩
  obtain ⟨hfound, herror, ps, hps, hcollected⟩ := loadSettings_spec hs hdb hload
  have hps : st'.collected = ps := hps
  rw [List.filter_map, List.forall₂_map_left_iff] at hcollected
  rw [List.countP_map] at hfound
  rw [List.map_map] at herror
  rw [← settingsOf_fileOf] at hload
  rw [loadConfig_of_true hcommand hload]
  refine ⟨hfound.trans (Nat.zero_add _), herror.trans (Nat.zero_add _), ps, hcollected,
    fun hwrite => ?_⟩
  rw [← hps]
  refine writeEpicsDb_collected hwrite fun p hp => ?_
  obtain ⟨l, -, hname, ii, hii, hchannel, -⟩ := exists_left_of_forall₂ hcollected (hps ▸ hp)
  rw [hname, ← hchannel]
  exact hdb.found ii hii

omit [LT K] [DecidableLT K] in
/-- The type of a value is told from its first character, so a number of another form is taken for a
text. -/
theorem readData_eq_settingValue {cd : CdsCdTable K} {value : List Char} :
    readData fp cd value = settingValue fp cd value ↔
      cd.datatype = .str ∨ isNumber value = true := by
  have hnumber : isNumber value = true ↔
      (value.head?.any Char.isDigit = true ∨ value.head? = some '-') := by
    unfold isNumber
    rw [Bool.or_eq_true, decide_eq_true_iff]
  unfold readData settingValue
  rw [hnumber]
  by_cases hstr : cd.datatype = .str
  · simp [hstr]
  · by_cases hnum : value.head?.any Char.isDigit = true ∨ value.head? = some '-'
    · simp [hstr, hnum]
    · rw [if_pos (.inr hnum), if_neg hstr]
      refine ⟨fun heq => ?_, fun h => absurd h (not_or.mpr ⟨hstr, hnum⟩)⟩
      split at heq <;> cases heq

variable (hdb : st.tables.Recorded dbExists)
include hdb

omit [LT K] [DecidableLT K] in
theorem found_of_isCounted {l : SettingLine pref} (h : isCounted st.tables l.setting = true) :
    dbExists l.name = true := by
  obtain ⟨-, ii, hii, hname⟩ := isCounted_iff.mp h
  have hfound := hdb.found ii hii
  rwa [hname] at hfound

omit [LT K] [DecidableLT K] in
theorem countedLines_eq
    (h : (lines.filter fun l => dbExists l.name).length = (countedLines st.tables lines).length) :
    lines.filter (fun l => dbExists l.name) = countedLines st.tables lines := by
  have hsub : List.Sublist (countedLines st.tables lines)
      (lines.filter fun l => dbExists l.name) :=
    List.monotone_filter_right lines fun l hl => found_of_isCounted hdb hl
  exact (hsub.eq_of_length h.symm).symm

variable (st) in
theorem LoadsFile.counted
    (h : LoadsFile fp dbExists lines st.tables
      fun command => loadConfig fp dbExists pref (some (fileOf lines)) command st) :
    (countedLines st.tables lines).length < sdfMaxChans ∧
      lines.filter (fun l => dbExists l.name) = countedLines st.tables lines := by
  have hpartial : SdfCommand.loadPartial ≠ .reset := by decide
  have hwrites := h.writes .loadPartial (.inl rfl)
  have hroom : (countedLines st.tables lines).length < sdfMaxChans := by
    by_contra hfull
    have hfull := not_lt.mp hfull
    rw [loadConfig_full hpartial hfull, List.forall₂_nil_right_iff] at hwrites
    have hle : (countedLines st.tables lines).length ≤ 0 := by
      rw [← List.length_nil, ← hwrites]
      exact (List.monotone_filter_right lines fun l hl => found_of_isCounted hdb hl).length_le
    exact absurd (hfull.trans hle) (by decide)
  obtain ⟨-, -, ps, hps, hput⟩ := loadConfig_collected fp hpartial hdb hroom
  rw [hput (.inl rfl), List.forall₂_map_right_iff] at hwrites
  exact ⟨hroom, countedLines_eq hdb (hwrites.length_eq.trans hps.length_eq.symm)⟩

/-- In such a file, every number is one that `readConfig` knows as a number. -/
theorem LoadsFile.number
    (h : LoadsFile fp dbExists lines st.tables
      fun command => loadConfig fp dbExists pref (some (fileOf lines)) command st)
    {l : SettingLine pref} (hl : l ∈ countedLines st.tables lines) {ii : ℕ}
    (hii : ii < st.tables.chNum) (hname : (st.tables.cdTable ii).chname = l.name) :
    (st.tables.cdTable ii).datatype = .str ∨ isNumber l.value = true := by
  obtain ⟨hroom, heq⟩ := h.counted st hdb
  have hwrites := h.writes .loadPartial (.inl rfl)
  obtain ⟨-, -, ps, hps, hput⟩ :=
    loadConfig_collected fp (show SdfCommand.loadPartial ≠ .reset by decide) hdb hroom
  rw [hput (.inl rfl), List.forall₂_map_right_iff, heq] at hwrites
  obtain ⟨p, ⟨-, hspec⟩, -, jj, hjj, hnamej, hvalue⟩ := exists_of_forall₂_both hwrites hps hl
  have hno : isAlarmChannel l.name = false := (isCounted_iff.mp (List.mem_filter.mp hl).2).1
  rw [hno, if_neg Bool.false_ne_true] at hspec
  obtain ⟨kk, hkk, hnamek, hspec⟩ := hspec
  -- both channels are the one of that name
  have hji := hdb.distinct jj hjj ii hii (hnamej.trans hname.symm)
  have hki := hdb.distinct kk hkk ii hii (hnamek.trans hname.symm)
  rw [hji] at hvalue
  rw [hki] at hspec
  exact readData_eq_settingValue.mp (hvalue.symm.trans hspec)

theorem loadsFile_of_counted (hroom : (countedLines st.tables lines).length < sdfMaxChans)
    (hcounted : ∀ l ∈ lines, isCounted st.tables l.setting = dbExists l.name)
    (hnumbers : ∀ l ∈ lines, ∀ ii < st.tables.chNum, (st.tables.cdTable ii).chname = l.name →
      (st.tables.cdTable ii).datatype = .str ∨ isNumber l.value = true)
    (herrors : errorCount fp st.tables lines ≤ sdfErrTsize) :
    LoadsFile fp dbExists lines st.tables
      fun command => loadConfig fp dbExists pref (some (fileOf lines)) command st := by
  have heq : lines.filter (fun l => dbExists l.name) = countedLines st.tables lines :=
    List.filter_congr fun l hl => (hcounted l hl).symm
  refine ⟨fun command hload => ?_, loadConfig_readOnly _, fun command hcommand => ?_,
    fun command hcommand => ?_⟩
  · have hcommand : command ≠ .reset := by
      rcases hload with rfl | rfl <;> decide
    obtain ⟨-, -, ps, hps, hput⟩ := loadConfig_collected fp hcommand hdb hroom
    rw [hput hload, List.forall₂_map_right_iff, heq]
    have hboth : List.Forall₂ (fun l p => l ∈ countedLines st.tables lines ∧
        Collected fp st.tables (SettingLine.setting l) p) (countedLines st.tables lines) ps :=
      (List.forall₂_and_left _ _).mpr ⟨fun l hl => hl, hps⟩
    refine hboth.imp fun l p hlp => ?_
    obtain ⟨hmem, hname, ii, hii, hchannel, hvalue⟩ := hlp
    obtain ⟨hl, hc⟩ := List.mem_filter.mp hmem
    refine ⟨hname, ?_⟩
    rw [show isAlarmChannel l.name = false from (isCounted_iff.mp hc).1,
      if_neg Bool.false_ne_true]
    refine ⟨ii, hii, hchannel, ?_⟩
    rw [← readData_eq_settingValue.mpr (hnumbers l hl ii hii hchannel)]
    exact hvalue
  · rw [(loadConfig_collected fp hcommand hdb hroom).1]
    refine List.countP_congr fun l hl => ?_
    rw [hcounted l hl]
  · rw [(loadConfig_collected fp hcommand hdb hroom).2.1]
    exact herrors

omit [LT K] [DecidableLT K] in
theorem isCounted_eq_found {l : SettingLine pref}
    (hname : isAlarmChannel l.name = true ∨ inTable st.tables l.name = true ∨
      dbExists l.name = false)
    (halarm : isAlarmChannel l.name = true → dbExists l.name = false) :
    isCounted st.tables l.setting = dbExists l.name := by
  cases hfound : dbExists l.name with
  | false =>
    refine Bool.eq_false_iff.mpr fun hc => ?_
    rw [found_of_isCounted hdb hc] at hfound
    cases hfound
  | true =>
    have hno : isAlarmChannel l.name = false := by
      refine Bool.eq_false_iff.mpr fun h => ?_
      rw [halarm h] at hfound
      cases hfound
    have hin : inTable st.tables l.name = true := by
      rw [hno, hfound] at hname
      simpa using hname
    show (!isAlarmChannel l.name && inTable st.tables l.name) = true
    rw [hno, hin]
    rfl

variable (fp) (lines) (st) in
/-- A file is loaded as it should be if none of its lines sets an alarm that exists, if the numbers
in it start with a digit or a minus, and if there are not too many lines of channels and of errors.
-/
theorem loadConfig_loads_iff
    (hnames : ∀ l ∈ lines, isAlarmChannel l.name = true ∨ inTable st.tables l.name = true ∨
      dbExists l.name = false) :
    LoadsFile fp dbExists lines st.tables
        (fun command => loadConfig fp dbExists pref (some (fileOf lines)) command st) ↔
      (∀ l ∈ lines, isAlarmChannel l.name = true → dbExists l.name = false) ∧
      (∀ l ∈ lines, ∀ ii < st.tables.chNum, (st.tables.cdTable ii).chname = l.name →
        (st.tables.cdTable ii).datatype = .str ∨ isNumber l.value = true) ∧
      (lines.countP fun l => inTable st.tables l.name) < sdfMaxChans ∧
      errorCount fp st.tables lines ≤ sdfErrTsize := by
  constructor
  · intro h
    obtain ⟨hroom, heq⟩ := h.counted st hdb
    have hmem : ∀ l ∈ lines, dbExists l.name = true → l ∈ countedLines st.tables lines := by
      intro l hl hfound
      rw [← heq]
      exact List.mem_filter.mpr ⟨hl, hfound⟩
    have hcounted : ∀ l ∈ lines, dbExists l.name = true → isCounted st.tables l.setting = true :=
      fun l hl hfound => (List.mem_filter.mp (hmem l hl hfound)).2
    refine ⟨fun l hl halarm => ?_, fun l hl ii hii hname => ?_, ?_, ?_⟩
    · refine Bool.eq_false_iff.mpr fun hfound => ?_
      have hno : isAlarmChannel l.name = false := (isCounted_iff.mp (hcounted l hl hfound)).1
      rw [hno] at halarm
      cases halarm
    · exact h.number hdb (hmem l hl (hname ▸ hdb.found ii hii)) hii hname
    · refine lt_of_le_of_lt ?_ hroom
      unfold countedLines
      rw [← List.countP_eq_length_filter]
      refine List.countP_mono_left fun l hl hin => ?_
      obtain ⟨ii, hii, hname⟩ : ∃ ii < st.tables.chNum, (st.tables.cdTable ii).chname = l.name := by
        unfold inTable at hin
        simpa using hin
      exact hcounted l hl (hname ▸ hdb.found ii hii)
    · have hpartial : SdfCommand.loadPartial ≠ .reset := by decide
      rw [← (loadConfig_collected fp hpartial hdb hroom).2.1]
      exact h.errors .loadPartial hpartial
  · rintro ⟨halarms, hnumbers, hlimit, herrors⟩
    refine loadsFile_of_counted hdb ?_ (fun l hl => ?_) hnumbers herrors
    · refine lt_of_le_of_lt ?_ hlimit
      unfold countedLines
      rw [← List.countP_eq_length_filter]
      exact List.countP_mono_left fun l _ hc => (Bool.and_eq_true _ _ ▸ hc).2
    · exact isCounted_eq_found hdb (hnames l hl) (halarms l hl)

end File

end Load

/-! ## Example files -/

def plainLine (name value : List Char) (monitor : Option (List Char))
    (hname : name.take 3 = "X1:".toList ∧ 3 ≤ name.length ∧ name.length < 40 ∧
      (∀ c ∈ name, isBreak c = false) ∧ isSkipped name = false)
    (hvalue : PlainWord value ∧ value.length < 40 ∧ unescape value = value)
    (hmonitor : ∀ m ∈ monitor, (∀ c ∈ m, isBreak c = false) ∧ '"' ∉ m)
    (hnul : '\x00' ∉ name ++ ['1'] ++ value ++ monitor.getD []) : SettingLine "X1:A".toList where
  name := name
  count := ['1']
  enc := value
  value := value
  monitor := monitor
  site := hname.1
  name_length := ⟨hname.2.1, hname.2.2.1.trans (by decide)⟩
  name_chars := hname.2.2.2.1
  loaded := hname.2.2.2.2
  count_word := plainWord_one
  encodes := ⟨value, .inl ⟨rfl, hvalue.1.nonempty, hvalue.1.chars, hvalue.1.plain⟩, hvalue.2.2⟩
  value_length := hvalue.2.1.trans (by decide)
  monitor_chars := hmonitor
  nul := hnul
  length := by
    have hlength := hname.2.2.1
    have hvalueLength := hvalue.2.1
    simp only [List.length_append, List.length_cons, List.length_nil]
    omega

def inFilterDatabase (name : List Char) : Bool :=
  name ∈ ["X1:A_GAIN".toList, "X1:A_NAME".toList, "X1:A_SW1S".toList, "X1:A_SW2S".toList,
    "X1:A_GAIN.HIHI".toList]

def beforeLoad : LoadState ℕ where
  tables := filterTableState
  chNumP := 0
  cdTableP _ := ⟨[], .num, .chval 0, 0, false, 0, -1⟩
  chNotFound := 0
  unknownChans := emptyErrTable
  rderror := 0
  readErrTable := emptyErrTable

theorem filterTableState_recorded : filterTableState.Recorded inFilterDatabase where
  distinct := filterTableState_savable.distinct
  found c hc := by
    change c < 4 at hc
    interval_cases c <;> decide

/-- A number twice, a text, a switch channel, and a channel that does not exist. -/
def mixedLines : List (SettingLine "X1:A".toList) :=
  [plainLine "X1:A_GAIN".toList "5.0".toList (some ['1']) (by decide) (by decide) (by decide)
      (by decide),
    plainLine "X1:A_NAME".toList "x".toList (some ['0']) (by decide) (by decide) (by decide)
      (by decide),
    plainLine "X1:B_GAIN".toList "3".toList none (by decide) (by decide) (by decide) (by decide),
    plainLine "X1:A_SW1S".toList "6".toList (some "0x3".toList) (by decide) (by decide) (by decide)
      (by decide),
    plainLine "X1:A_GAIN".toList "-2".toList none (by decide) (by decide) (by decide) (by decide)]

theorem loadConfig_loads_mixed :
    LoadsFile smallDoubles inFilterDatabase mixedLines filterTableState fun command =>
      loadConfig smallDoubles inFilterDatabase "X1:A".toList (some (fileOf mixedLines)) command
        beforeLoad :=
  (loadConfig_loads_iff smallDoubles mixedLines beforeLoad filterTableState_recorded
    (by decide)).mpr
    ⟨by decide, by decide, by decide, by decide⟩

def alarmLines : List (SettingLine "X1:A".toList) :=
  [plainLine "X1:A_GAIN.HIHI".toList "5.0".toList (some ['1']) (by decide) (by decide) (by decide)
    (by decide)]

theorem alarm_not_loaded :
    filterTableState.Recorded inFilterDatabase ∧
      (∀ l ∈ alarmLines, isAlarmChannel l.name = true ∧ inFilterDatabase l.name = true) ∧
      ¬LoadsFile smallDoubles inFilterDatabase alarmLines filterTableState fun command =>
        loadConfig smallDoubles inFilterDatabase "X1:A".toList (some (fileOf alarmLines)) command
          beforeLoad := by
  refine ⟨filterTableState_recorded, by decide, fun h => ?_⟩
  have hlines := (h.counted beforeLoad filterTableState_recorded).2
  exact absurd (congrArg List.length hlines) (by decide)

end AdvLigoRts.Seq
