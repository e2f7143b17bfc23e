import AdvLigoRts.Seq.SdfTablesRuns
import Mathlib.Data.List.Nodup

/-!
# The settings table of a database

`dbDumpRecords` walks the records of the three types that hold settings and makes an entry of
`cdTable` for each of them, and `registerFilters` then makes the filters. An alias takes an entry
without filling it. A channel that reflects the mask of a filter is left without going on to the
next record.
-/

namespace AdvLigoRts.Seq

open PvLib

variable {K : Type}

/-! ## The walk -/

/-- A record, as `dbFirstRecord` and `dbNextRecord` come to it. -/
structure DbRecord where
  name : List Char
  isAlias : Bool
deriving DecidableEq

/-- The records of the types of settings. -/
structure Database where
  ai : List DbRecord
  bi : List DbRecord
  stringin : List DbRecord

def maskPref (pref : List Char) : List Char := pref ++ "_SDF_FM_MASK_".toList

def recordEntry (fp : Doubles K) (datatype : SdfType) (name : List Char) : CdsCdTable K where
  chname := name
  datatype := datatype
  data := if datatype = .num then .chval (fp.ofUnsigned 0) else .strval []
  mask := 0
  initialized := false
  filterswitch := switchNumber name
  filterNum := -1

/-- What a record does that is not left: an alias has nothing written for it. -/
def dumpRecord (fp : Doubles K) (datatype : SdfType) (s : SdfState K) (r : DbRecord) :
    SdfState K :=
  if r.isAlias then { s with chNum := s.chNum + 1 }
  else
    { s.setCd s.chNum (recordEntry fp datatype r.name) with
      chNum := s.chNum + 1
      fmNum := if isSw1s r.name then s.fmNum + 1 else s.fmNum }

/-- A channel that reflects a mask is left, with `continue`. -/
def Left (pref : List Char) (r : DbRecord) : Prop :=
  r.isAlias = false ∧ (maskPref pref).isPrefixOf r.name = true

instance (pref : List Char) (r : DbRecord) : Decidable (Left pref r) :=
  inferInstanceAs (Decidable (_ ∧ _))

/-- The loop over the records of a type, from the one at hand on, for a number of iterations. -/
def dumpRecords (fp : Doubles K) (pref : List Char) (datatype : SdfType) :
    ℕ → List DbRecord → SdfState K → Option (SdfState K)
  | 0, _, _ => none
  | _ + 1, [], s => some s
  | n + 1, r :: rs, s =>
    if Left pref r then
      dumpRecords fp pref datatype n (r :: rs)
        (s.setCd s.chNum { s.cdTable s.chNum with chname := r.name })
    else dumpRecords fp pref datatype n rs (dumpRecord fp datatype s r)

/-- `dbDumpRecords`, with no more than `n` iterations for each type of records. -/
def dbDumpRecords (fp : Doubles K) (pref : List Char) (n : ℕ) (db : Database) (s : SdfState K) :
    Option (SdfState K) := do
  let s ← dumpRecords fp pref .num n db.ai { s with chNum := 0, fmNum := 0 }
  let s ← dumpRecords fp pref .str n db.bi s
  let s ← dumpRecords fp pref .str n db.stringin s
  return registerFilters s

/-! ## What the table is for -/

namespace Database

/-- The records, with the types of their data. -/
def records (db : Database) : List (SdfType × DbRecord) :=
  db.ai.map (fun r => (.num, r)) ++ db.bi.map (fun r => (.str, r)) ++
    db.stringin.map (fun r => (.str, r))

/-- A record is a setting: no alias and no channel that reflects a mask. -/
def isSetting (pref : List Char) (r : DbRecord) : Bool :=
  !r.isAlias && !(maskPref pref).isPrefixOf r.name

def settings (pref : List Char) (db : Database) : List (SdfType × DbRecord) :=
  db.records.filter fun r => isSetting pref r.2

/-- The names of a database: they differ, and are shorter than `PVNAME_STRINGSZ`. -/
structure Named (db : Database) : Prop where
  distinct : (db.records.map fun r => r.2.name).Nodup
  short : ∀ r ∈ db.records, r.2.name.length < 61

end Database

def otherSwitch (name : List Char) : List Char := name.take (name.length - 4) ++ "SW2S".toList

/-- The table lists each setting once, with its type, and each channel in `SW1S` has one filter of
`filterTable`, with the positions of its switch channels. -/
structure ListsSettings (pref : List Char) (db : Database) (t : SdfState K) : Prop where
  size : t.chNum ≤ sdfMaxTsize
  channels : ((List.range t.chNum).map fun ii =>
      ((t.cdTable ii).datatype, (t.cdTable ii).chname)).Perm
    ((db.settings pref).map fun r => (r.1, r.2.name))
  filterSize : t.fmNum ≤ sdfMaxFmsize
  filters : ((List.range t.fmNum).map fun i => (t.filterTable i).sw.1).Perm
    ((List.range t.chNum).filter fun ii => switchNumber (t.cdTable ii).chname = 1)
  pairs : ∀ i < t.fmNum, ∀ jj < t.chNum,
    (t.cdTable jj).chname = otherSwitch (t.cdTable (t.filterTable i).sw.1).chname →
      (t.filterTable i).sw.2 = jj

/-- The records are settings, without aliases, and their filters fit in `filterTable`. -/
structure Database.Plain (pref : List Char) (db : Database) : Prop where
  settings : ∀ r ∈ db.records, isSetting pref r.2 = true
  filters : (db.records.filter fun r => switchNumber r.2.name = 1).length ≤ sdfMaxFmsize

variable {fp : Doubles K} {pref : List Char} {datatype : SdfType} {s t : SdfState K}

/-! ## The loop over one type -/

theorem isSetting_iff {r : DbRecord} : Database.isSetting pref r = true ↔
    r.isAlias = false ∧ (maskPref pref).isPrefixOf r.name = false := by
  unfold Database.isSetting
  rw [Bool.and_eq_true, Bool.not_eq_true', Bool.not_eq_true']

theorem dumpRecords_of_passed {rs : List DbRecord} (h : ∀ r ∈ rs, ¬Left pref r) {n : ℕ}
    (hn : rs.length < n) (s : SdfState K) :
    dumpRecords fp pref datatype n rs s = some (rs.foldl (dumpRecord fp datatype) s) := by
  induction rs generalizing n s with
  | nil =>
    cases n with
    | zero => exact absurd hn (Nat.not_lt_zero _)
    | succ n => rfl
  | cons r rs ih =>
    cases n with
    | zero => exact absurd hn (Nat.not_lt_zero _)
    | succ n =>
      unfold dumpRecords
      rw [if_neg (h r List.mem_cons_self)]
      exact ih (fun x hx => h x (List.mem_cons_of_mem r hx)) (Nat.lt_of_succ_lt_succ hn) _

theorem dumpRecords_of_left {rs : List DbRecord} (h : ∃ r ∈ rs, Left pref r) (n : ℕ)
    (s : SdfState K) : dumpRecords fp pref datatype n rs s = none := by
  induction n generalizing rs s with
  | zero => rfl
  | succ n ih =>
    cases rs with
    | nil =>
      obtain ⟨r, hr, -⟩ := h
      exact absurd hr List.not_mem_nil
    | cons r rs =>
      unfold dumpRecords
      by_cases hr : Left pref r
      · rw [if_pos hr]
        exact ih h _
      · rw [if_neg hr]
        obtain ⟨x, hx, hleft⟩ := h
        refine ih ⟨x, (List.mem_cons.mp hx).resolve_left fun heq => hr (heq ▸ hleft), hleft⟩ _

theorem dumpRecords_some {rs : List DbRecord} {n : ℕ}
    (h : dumpRecords fp pref datatype n rs s = some t) :
    (∀ r ∈ rs, ¬Left pref r) ∧ t = rs.foldl (dumpRecord fp datatype) s := by
  have hpassed : ∀ r ∈ rs, ¬Left pref r := by
    intro r hr hleft
    rw [dumpRecords_of_left ⟨r, hr, hleft⟩] at h
    cases h
  refine ⟨hpassed, ?_⟩
  induction n generalizing rs s with
  | zero => cases h
  | succ n ih =>
    cases rs with
    | nil =>
      cases h
      rfl
    | cons r rs =>
      unfold dumpRecords at h
      rw [if_neg (hpassed r List.mem_cons_self)] at h
      have hrest := ih h fun x hx => hpassed x (List.mem_cons_of_mem r hx)
      exact hrest

/-! ## The walk over the database -/

/-- The table that the walk leaves. -/
def dumped (fp : Doubles K) (db : Database) (s : SdfState K) : SdfState K :=
  db.records.foldl (fun s r => dumpRecord fp r.1 s r.2) { s with chNum := 0, fmNum := 0 }

theorem mem_records {r : DbRecord} (db : Database) :
    (∃ ty, (ty, r) ∈ db.records) ↔ r ∈ db.ai ∨ r ∈ db.bi ∨ r ∈ db.stringin := by
  unfold Database.records
  simp only [List.mem_append, List.mem_map, Prod.mk.injEq]
  constructor
  · rintro ⟨ty, (⟨x, hx, -, rfl⟩ | ⟨x, hx, -, rfl⟩) | ⟨x, hx, -, rfl⟩⟩
    · exact .inl hx
    · exact .inr (.inl hx)
    · exact .inr (.inr hx)
  · rintro (h | h | h)
    · exact ⟨.num, .inl (.inl ⟨r, h, rfl, rfl⟩)⟩
    · exact ⟨.str, .inl (.inr ⟨r, h, rfl, rfl⟩)⟩
    · exact ⟨.str, .inr ⟨r, h, rfl, rfl⟩⟩

theorem dumped_eq (db : Database) (s : SdfState K) : dumped fp db s =
    db.stringin.foldl (dumpRecord fp .str) (db.bi.foldl (dumpRecord fp .str)
      (db.ai.foldl (dumpRecord fp .num) { s with chNum := 0, fmNum := 0 })) := by
  unfold dumped Database.records
  rw [List.foldl_append, List.foldl_append, List.foldl_map, List.foldl_map, List.foldl_map]

variable (fp) in
theorem dbDumpRecords_ends_iff (db : Database) (s t : SdfState K) :
    (∃ n, dbDumpRecords fp pref n db s = some t) ↔
      (∀ r ∈ db.records, ¬Left pref r.2) ∧ t = registerFilters (dumped fp db s) := by
  have hall : (∀ r ∈ db.records, ¬Left pref r.2) ↔ (∀ r ∈ db.ai, ¬Left pref r) ∧
      (∀ r ∈ db.bi, ¬Left pref r) ∧ ∀ r ∈ db.stringin, ¬Left pref r := by
    have hmem := fun r => mem_records (r := r) db
    constructor
    · intro h
      have hone : ∀ r, (r ∈ db.ai ∨ r ∈ db.bi ∨ r ∈ db.stringin) → ¬Left pref r := by
        intro r hr
        obtain ⟨ty, hr⟩ := (hmem r).mpr hr
        exact h _ hr
      exact ⟨fun r hr => hone r (.inl hr), fun r hr => hone r (.inr (.inl hr)),
        fun r hr => hone r (.inr (.inr hr))⟩
    · rintro ⟨hai, hbi, hstr⟩ ⟨ty, r⟩ hr
      rcases (hmem r).mp ⟨ty, hr⟩ with hr | hr | hr
      · exact hai r hr
      · exact hbi r hr
      · exact hstr r hr
  rw [hall, dumped_eq]
  unfold dbDumpRecords
  constructor
  · rintro ⟨n, hn⟩
    simp only [Option.bind_eq_bind, Option.bind_eq_some_iff, Option.pure_def,
      Option.some.injEq] at hn
    obtain ⟨a, ha, b, hb, c, hc, rfl⟩ := hn
    obtain ⟨hai, rfl⟩ := dumpRecords_some ha
    obtain ⟨hbi, rfl⟩ := dumpRecords_some hb
    obtain ⟨hstr, rfl⟩ := dumpRecords_some hc
    exact ⟨⟨hai, hbi, hstr⟩, rfl⟩
  · rintro ⟨⟨hai, hbi, hstr⟩, rfl⟩
    refine ⟨db.ai.length + db.bi.length + db.stringin.length + 1, ?_⟩
    rw [dumpRecords_of_passed hai (by omega), Option.bind_eq_bind, Option.bind_some,
      dumpRecords_of_passed hbi (by omega), Option.bind_some,
      dumpRecords_of_passed hstr (by omega), Option.bind_some]
    rfl

def SdfState.entries (s : SdfState K) : List (CdsCdTable K) :=
  (List.range s.chNum).map s.cdTable

theorem dumpRecord_chNum (r : DbRecord) :
    (dumpRecord fp datatype s r).chNum = s.chNum + 1 := by
  unfold dumpRecord
  split <;> rfl

theorem dumpRecord_entries {r : DbRecord} (h : r.isAlias = false) :
    (dumpRecord fp datatype s r).entries = s.entries ++ [recordEntry fp datatype r.name] := by
  unfold dumpRecord SdfState.entries
  rw [h, if_neg Bool.false_ne_true]
  dsimp only [SdfState.setCd]
  rw [List.range_succ, List.map_append, List.map_singleton, Function.update_self]
  congr 1
  refine List.map_congr_left fun k hk => Function.update_of_ne ?_ _ _
  exact ne_of_lt (List.mem_range.mp hk)

/-- The walk takes one entry for each record, aliases too. -/
theorem dumped_chNum (db : Database) (s : SdfState K) :
    (dumped fp db s).chNum = db.records.length := by
  unfold dumped
  generalize db.records = rs
  induction rs using List.reverseRecOn with
  | nil => rfl
  | append_singleton rs r ih =>
    rw [List.foldl_append, List.foldl_cons, List.foldl_nil, dumpRecord_chNum, ih,
      List.length_append]
    rfl

theorem dumped_filterTable (db : Database) (s : SdfState K) :
    (dumped fp db s).filterTable = s.filterTable := by
  unfold dumped
  generalize db.records = rs
  induction rs using List.reverseRecOn with
  | nil => rfl
  | append_singleton rs r ih =>
    rw [List.foldl_append, List.foldl_cons, List.foldl_nil]
    refine Eq.trans ?_ ih
    unfold dumpRecord
    split
    · rfl
    · rfl

theorem dumped_entries {db : Database} (h : ∀ r ∈ db.records, r.2.isAlias = false)
    (s : SdfState K) : (dumped fp db s).entries =
      db.records.map fun r => recordEntry fp r.1 r.2.name := by
  unfold dumped
  generalize db.records = rs at h
  induction rs using List.reverseRecOn with
  | nil => rfl
  | append_singleton rs r ih =>
    rw [List.foldl_append, List.foldl_cons, List.foldl_nil,
      dumpRecord_entries (h r (List.mem_append_right _ List.mem_cons_self)),
      ih fun x hx => h x (List.mem_append_left _ hx), List.map_append, List.map_singleton]

/-! ## The filters -/

/-- A search that goes on finds the only element there is. -/
theorem foldl_last_eq {p : ℕ → Prop} [DecidablePred p] {l : List ℕ} {j : ℕ} (hj : j ∈ l)
    (hp : p j) (honly : ∀ k ∈ l, p k → k = j) (d : ℕ) :
    l.foldl (fun sw jj => if p jj then jj else sw) d = j := by
  induction l using List.reverseRecOn with
  | nil => exact absurd hj List.not_mem_nil
  | append_singleton l k ih =>
    rw [List.foldl_append, List.foldl_cons, List.foldl_nil]
    by_cases hk : p k
    · rw [if_pos hk]
      exact honly k (List.mem_append_right _ List.mem_cons_self) hk
    · rw [if_neg hk]
      have hmem : j ∈ l := by
        rcases List.mem_append.mp hj with hj | hj
        · exact hj
        · exact absurd (List.mem_singleton.mp hj ▸ hp) hk
      exact ih hmem fun x hx => honly x (List.mem_append_left _ hx)

theorem registerFilters_chNum (u : SdfState K) : (registerFilters u).chNum = u.chNum := by
  unfold registerFilters
  generalize List.range u.chNum = l
  induction l using List.reverseRecOn with
  | nil => rfl
  | append_singleton l ii ih =>
    rw [List.foldl_append, List.foldl_cons, List.foldl_nil]
    unfold registerFilter
    dsimp only
    split
    · exact ih
    · exact ih

/-- What `registerFilters` has made of the first `n` channels. -/
structure RegisteredFirst (u : SdfState K) (n : ℕ) (t : SdfState K) : Prop where
  chNum : t.chNum = u.chNum
  cdTable : ∀ c, ∃ filterNum, t.cdTable c = { u.cdTable c with filterNum := filterNum }
  filters : (List.range t.fmNum).map (fun i => (t.filterTable i).sw.1) =
    (List.range n).filter fun ii => (u.cdTable ii).filterswitch = 1
  pairs : ∀ i < t.fmNum, ∀ jj < u.chNum,
    (otherSwitch (u.cdTable (t.filterTable i).sw.1).chname).take 63 = (u.cdTable jj).chname →
      (t.filterTable i).sw.2 = jj
  unnamed : ∀ i, t.fmNum ≤ i → (t.filterTable i).fname = []

theorem RegisteredFirst.step {u : SdfState K}
    (hdistinct : ∀ c < u.chNum, ∀ d < u.chNum, (u.cdTable c).chname = (u.cdTable d).chname → c = d)
    {n : ℕ} (h : RegisteredFirst u n t) : RegisteredFirst u (n + 1) (registerFilter t n) := by
  have hname : ∀ c, (t.cdTable c).chname = (u.cdTable c).chname := by
    intro c
    obtain ⟨filterNum, hcd⟩ := h.cdTable c
    rw [hcd]
  have hswitch : (t.cdTable n).filterswitch = (u.cdTable n).filterswitch := by
    obtain ⟨filterNum, hcd⟩ := h.cdTable n
    rw [hcd]
  unfold registerFilter
  dsimp only
  rw [hswitch]
  by_cases hn : (u.cdTable n).filterswitch = 1
  · rw [if_pos hn, h.unnamed t.fmNum le_rfl, List.drop_nil, List.append_nil]
    generalize hsw : (List.range t.chNum).foldl _ (t.filterTable t.fmNum).sw.2 = sw1
    constructor
    · exact h.chNum
    · intro c
      obtain ⟨filterNum, hcd⟩ := h.cdTable c
      dsimp only [SdfState.setCd, SdfState.setFilter]
      by_cases hc : c = n
      · subst hc
        rw [Function.update_self, hcd]
        exact ⟨_, rfl⟩
      · rw [Function.update_of_ne hc, hcd]
        exact ⟨_, rfl⟩
    · dsimp only [SdfState.setCd, SdfState.setFilter]
      rw [List.range_succ, List.range_succ, List.map_append, List.filter_append, ← h.filters,
        List.map_singleton, Function.update_self, List.filter_cons_of_pos (by simpa using hn),
        List.filter_nil]
      congr 1
      refine List.map_congr_left fun i hi => ?_
      rw [Function.update_of_ne (ne_of_lt (List.mem_range.mp hi))]
    · intro i hi jj hjj hpair
      dsimp only [SdfState.setCd, SdfState.setFilter] at hi hpair ⊢
      by_cases hlast : i = t.fmNum
      · subst hlast
        rw [Function.update_self] at hpair ⊢
        dsimp only at hpair ⊢
        rw [← hsw]
        have hother : ((t.cdTable n).chname.take ((t.cdTable n).chname.length - 4) ++
            "SW2S".toList).take 63 = (otherSwitch (u.cdTable n).chname).take 63 := by
          rw [hname]
          rfl
        rw [hother]
        refine foldl_last_eq (p := fun jj => (otherSwitch (u.cdTable n).chname).take 63 =
          (t.cdTable jj).chname) (List.mem_range.mpr (by rw [h.chNum]; exact hjj)) ?_ ?_ _
        · rw [hname]
          exact hpair
        · intro k hk hkp
          rw [hname] at hkp
          rw [List.mem_range, h.chNum] at hk
          exact hdistinct k hk jj hjj (hkp.symm.trans hpair)
      · rw [Function.update_of_ne hlast] at hpair ⊢
        exact h.pairs i (by omega) jj hjj hpair
    · intro i hi
      dsimp only [SdfState.setCd, SdfState.setFilter] at hi ⊢
      rw [Function.update_of_ne (by omega)]
      exact h.unnamed i (by omega)
  · rw [if_neg hn]
    refine ⟨h.chNum, h.cdTable, ?_, h.pairs, h.unnamed⟩
    rw [h.filters, List.range_succ, List.filter_append, List.filter_cons_of_neg (by simpa using hn),
      List.filter_nil, List.append_nil]

/-- `registerFilters` makes one filter for each channel in `SW1S`. -/
theorem registeredFirst {u : SdfState K} (hdistinct : ∀ c < u.chNum, ∀ d < u.chNum,
      (u.cdTable c).chname = (u.cdTable d).chname → c = d)
    (hunnamed : ∀ i, (u.filterTable i).fname = []) :
    RegisteredFirst u u.chNum (registerFilters u) := by
  have hrun : ∀ n, RegisteredFirst u n
      ((List.range n).foldl registerFilter { u with fmNum := 0 }) := by
    intro n
    induction n with
    | zero =>
      exact ⟨rfl, fun c => ⟨_, rfl⟩, rfl, fun i hi => absurd hi (Nat.not_lt_zero i),
        fun i _ => hunnamed i⟩
    | succ n ih =>
      rw [List.range_succ, List.foldl_append, List.foldl_cons, List.foldl_nil]
      exact ih.step hdistinct
  exact hrun u.chNum

/-! ## The table of a database -/

/-- The table before the filters are made, of a database without aliases. -/
structure Filled (fp : Doubles K) (db : Database) (u : SdfState K) : Prop where
  chNum : u.chNum = db.records.length
  entries : u.entries = db.records.map fun r => recordEntry fp r.1 r.2.name
  unnamed : ∀ i, (u.filterTable i).fname = []

namespace Filled

variable {db : Database} {u : SdfState K} (h : Filled fp db u)
include h

theorem entry {ii : ℕ} (hii : ii < u.chNum) :
    ∃ r ∈ db.records, u.cdTable ii = recordEntry fp r.1 r.2.name := by
  have hmem : u.cdTable ii ∈ u.entries := List.mem_map.mpr ⟨ii, List.mem_range.mpr hii, rfl⟩
  rw [h.entries] at hmem
  obtain ⟨r, hr, heq⟩ := List.mem_map.mp hmem
  exact ⟨r, hr, heq.symm⟩

theorem distinct (hnames : db.Named) : ∀ c < u.chNum, ∀ d < u.chNum,
    (u.cdTable c).chname = (u.cdTable d).chname → c = d := by
  have hnodup : ((List.range u.chNum).map fun ii => (u.cdTable ii).chname).Nodup := by
    have hmap : ((List.range u.chNum).map fun ii => (u.cdTable ii).chname) =
        u.entries.map CdsCdTable.chname := by
      unfold SdfState.entries
      rw [List.map_map]
      rfl
    rw [hmap, h.entries, List.map_map]
    exact hnames.distinct
  intro c hc d hd heq
  exact List.inj_on_of_nodup_map hnodup (List.mem_range.mpr hc) (List.mem_range.mpr hd) heq

theorem channels : ((List.range u.chNum).map fun ii =>
    ((u.cdTable ii).datatype, (u.cdTable ii).chname)) =
      db.records.map fun r => (r.1, r.2.name) := by
  have hmap : ((List.range u.chNum).map fun ii =>
      ((u.cdTable ii).datatype, (u.cdTable ii).chname)) =
      u.entries.map fun cd => (cd.datatype, cd.chname) := by
    unfold SdfState.entries
    rw [List.map_map]
    rfl
  rw [hmap, h.entries, List.map_map]
  rfl

/-- As many channels are in `SW1S` as records are. -/
theorem switches : ((List.range u.chNum).filter fun ii => (u.cdTable ii).filterswitch = 1).length =
    (db.records.filter fun r => switchNumber r.2.name = 1).length := by
  have hentries : (u.entries.filter fun cd => cd.filterswitch = 1).length =
      ((List.range u.chNum).filter fun ii => (u.cdTable ii).filterswitch = 1).length := by
    unfold SdfState.entries
    rw [List.filter_map, List.length_map]
    rfl
  rw [← hentries, h.entries, List.filter_map, List.length_map]
  rfl

theorem registered (hnames : db.Named) : RegisteredFirst u u.chNum (registerFilters u) :=
  registeredFirst (h.distinct hnames) h.unnamed

end Filled

theorem dumped_filled {db : Database} (h : ∀ r ∈ db.records, r.2.isAlias = false)
    {s : SdfState K} (hunnamed : ∀ i, (s.filterTable i).fname = []) :
    Filled fp db (dumped fp db s) :=
  ⟨dumped_chNum db s, dumped_entries h s, dumped_filterTable db s ▸ hunnamed⟩

theorem RegisteredFirst.fmNum {u : SdfState K} {n : ℕ}
    (h : RegisteredFirst u n t) : t.fmNum =
      ((List.range n).filter fun ii => (u.cdTable ii).filterswitch = 1).length := by
  have hlen := congrArg List.length h.filters
  rwa [List.length_map, List.length_range] at hlen

theorem listsSettings_of_plain {db : Database} (hsize : db.records.length ≤ sdfMaxTsize)
    (hnames : db.Named) (hplain : db.Plain pref) {s : SdfState K}
    (hunnamed : ∀ i, (s.filterTable i).fname = []) :
    ListsSettings pref db (registerFilters (dumped fp db s)) := by
  have hfilled : Filled fp db (dumped fp db s) :=
    dumped_filled (fun r hr => (isSetting_iff.mp (hplain.settings r hr)).1) hunnamed
  have hreg := hfilled.registered hnames
  generalize dumped fp db s = u at hfilled hreg
  have hname : ∀ c, ((registerFilters u).cdTable c).chname = (u.cdTable c).chname ∧
      ((registerFilters u).cdTable c).datatype = (u.cdTable c).datatype := by
    intro c
    obtain ⟨filterNum, hcd⟩ := hreg.cdTable c
    rw [hcd]
    exact ⟨rfl, rfl⟩
  have hsettings : db.settings pref = db.records :=
    List.filter_eq_self.mpr fun r hr => hplain.settings r hr
  constructor
  case size =>
    rw [hreg.chNum, hfilled.chNum]
    exact hsize
  case channels =>
    rw [hsettings, hreg.chNum]
    simp only [hname]
    exact .of_eq hfilled.channels
  case filterSize =>
    rw [hreg.fmNum, hfilled.switches]
    exact hplain.filters
  case filters =>
    rw [hreg.filters, hreg.chNum]
    refine .of_eq (List.filter_congr fun ii hii => ?_)
    obtain ⟨r, -, hentry⟩ := hfilled.entry (List.mem_range.mp hii)
    rw [(hname ii).1, hentry]
    rfl
  case pairs =>
    intro i hi jj hjj heq
    rw [hreg.chNum] at hjj
    simp only [hname] at heq
    refine hreg.pairs i hi jj hjj ?_
    obtain ⟨r, hr, hentry⟩ := hfilled.entry hjj
    have hshort : (u.cdTable jj).chname.length < 61 := by
      rw [hentry]
      exact hnames.short r hr
    rw [← heq]
    exact List.take_of_length_le (by omega)

/-- The table of a database is made, and lists its settings, exactly if all of its records are
settings, without aliases, and there is room for their filters. -/
theorem dbDumpRecords_lists_iff (fp : Doubles K) (pref : List Char) (db : Database)
    (s : SdfState K) (hsize : db.records.length ≤ sdfMaxTsize) (hnames : db.Named)
    (hunnamed : ∀ i, (s.filterTable i).fname = []) :
    (∃ n t, dbDumpRecords fp pref n db s = some t ∧ ListsSettings pref db t) ↔ db.Plain pref := by
  constructor
  · rintro ⟨n, t, hrun, hlists⟩
    obtain ⟨-, rfl⟩ := (dbDumpRecords_ends_iff fp db s t).mp ⟨n, hrun⟩
    -- an alias has an entry, so there are more entries than settings
    have hsettings : ∀ r ∈ db.records, Database.isSetting pref r.2 = true := by
      have hlen := hlists.channels.length_eq
      rw [List.length_map, List.length_range, List.length_map, registerFilters_chNum,
        dumped_chNum] at hlen
      exact List.length_filter_eq_length_iff.mp hlen.symm
    refine ⟨hsettings, ?_⟩
    have hfilled : Filled fp db (dumped fp db s) :=
      dumped_filled (fun r hr => (isSetting_iff.mp (hsettings r hr)).1) hunnamed
    have hroom := hlists.filterSize
    rw [(hfilled.registered hnames).fmNum, hfilled.switches] at hroom
    exact hroom
  · intro hplain
    have hleft : ∀ r ∈ db.records, ¬Left pref r.2 := by
      intro r hr hleft
      have hnot := (isSetting_iff.mp (hplain.settings r hr)).2
      rw [hleft.2] at hnot
      cases hnot
    obtain ⟨n, hn⟩ := (dbDumpRecords_ends_iff fp db s _).mpr ⟨hleft, rfl⟩
    exact ⟨n, _, hn, listsSettings_of_plain hsize hnames hplain hunnamed⟩

/-! ## Example databases -/

/-- A gain, the two switch channels of a filter and a text, and then some more records of the
first type. -/
def oneFilterDatabase (more : List DbRecord) : Database where
  ai := ["X1:A_GAIN", "X1:A_SW1S", "X1:A_SW2S"].map (fun name => ⟨name.toList, false⟩) ++ more
  bi := []
  stringin := [⟨"X1:A_NAME".toList, false⟩]

def emptyTables : SdfState ℕ where
  chNum := 0
  cdTable _ := ⟨[], .num, .chval 0, 0, false, 0, 0⟩
  fmNum := 0
  filterTable _ := ⟨[], 0, (0, 0), false, false, 0⟩
  filterMasks _ := 0

theorem dbDumpRecords_lists_iff_oneFilter :
    ∃ n t, dbDumpRecords smallDoubles "X1:A".toList n (oneFilterDatabase []) emptyTables = some t ∧
      ListsSettings "X1:A".toList (oneFilterDatabase []) t :=
  (dbDumpRecords_lists_iff smallDoubles "X1:A".toList (oneFilterDatabase []) emptyTables (by decide)
    ⟨by decide, by decide⟩ fun _ => rfl).mpr ⟨by decide, by decide⟩

/-- A channel that reflects the mask of the filter. -/
def maskRecord : DbRecord := ⟨"X1:A_SDF_FM_MASK_0".toList, false⟩

theorem mask_channel_never_passed :
    (oneFilterDatabase [maskRecord]).records.length ≤ sdfMaxTsize ∧
      (oneFilterDatabase [maskRecord]).Named ∧
      ∀ n, dbDumpRecords smallDoubles "X1:A".toList n (oneFilterDatabase [maskRecord])
        emptyTables = none := by
  refine ⟨by decide, ⟨by decide, by decide⟩, fun n => ?_⟩
  have hleft : ∃ r ∈ (oneFilterDatabase [maskRecord]).ai, Left "X1:A".toList r :=
    ⟨maskRecord, by decide, by decide⟩
  unfold dbDumpRecords
  rw [dumpRecords_of_left hleft]
  rfl

end AdvLigoRts.Seq
