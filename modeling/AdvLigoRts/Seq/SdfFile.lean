import AdvLigoRts.Seq.SdfLoad

/-!
# Files of well-formed lines

A line has a name, a count, a value and, in most files, a monitor field. The settings of a file of
such lines are those of its lines. Only of the monitor field some may not fit in the buffer of
`fgets`, which reads the rest of it as another line.
-/

namespace AdvLigoRts.Seq

open PvLib

/-- A text that starts with a blank has no setting: its first word is empty. -/
theorem lineSetting_blank {pref : List Char} (hpref : pref ≠ []) (rest : List Char) :
    lineSetting pref (' ' :: rest) = none := by
  refine lineSetting_eq_none fun heq => ?_
  have hfirst : (parseLine (' ' :: rest)).2.getD 0 [] = [] := by
    have hstart : parseChars (' ' :: rest) .start = parseChars rest ⟨[[]], [], true, none⟩ :=
      parseChars_blank (by simp)
    obtain ⟨ws, hws⟩ := parseChars_words_prefix rest ⟨[[]], [], true, none⟩
    unfold parseLine
    dsimp only
    rw [hstart, ← hws]
    rfl
  rw [hfirst, List.take_nil] at heq
  exact (List.take_eq_nil_iff.mp heq.symm).elim (by decide) hpref

/-- A line of a settings file. `enc` is its value as it is written. -/
structure SettingLine (pref : List Char) where
  name : List Char
  count : List Char
  enc : List Char
  value : List Char
  monitor : Option (List Char)
  site : name.take 3 = pref.take 3
  name_length : 3 ≤ name.length ∧ name.length < 64
  name_chars : ∀ c ∈ name, isBreak c = false
  loaded : isSkipped name = false
  count_word : PlainWord count
  encodes : ∃ w, Encodes enc w ∧ unescape w = value
  value_length : value.length < 64
  monitor_chars : ∀ m ∈ monitor, (∀ c ∈ m, isBreak c = false) ∧ '"' ∉ m
  nul : '\x00' ∉ name ++ count ++ enc ++ monitor.getD []
  length : (name ++ (' ' :: count ++ [' ']) ++ enc).length ≤ 127

namespace SettingLine

variable {pref : List Char} (l : SettingLine pref)

/-- The line up to the end of its value. -/
def head : List Char := l.name ++ (' ' :: l.count ++ [' ']) ++ l.enc

def text : List Char :=
  match l.monitor with
  | none => l.head
  | some m => l.head ++ ' ' :: m

/-- The mask, from what there is room for of the monitor field. -/
def mask : BitVec 32 :=
  match l.monitor with
  | none => 0
  | some m => readMask 4 (unescape (m.take (127 - (l.head.length + 1))))

def setting : Setting := ⟨l.name, l.value, l.mask⟩

/-! ## The setting of a line -/

theorem head_length : l.head.length ≤ 127 := l.length

theorem unescape_name : unescape l.name = l.name := by
  have hlength := l.name_length.1
  refine if_neg fun heq => ?_
  rw [heq] at hlength
  exact absurd hlength (by decide)

theorem newline_notMem_head : '\n' ∉ l.head := by
  have henc : '\n' ∉ l.enc := by
    obtain ⟨w, ⟨heq, -, hchars, -⟩ | ⟨heq, hnl⟩, -⟩ := l.encodes
    · rw [heq]
      exact fun hmem => absurd (hchars _ hmem) (by decide)
    · rw [heq]
      simpa using hnl
  have hname : '\n' ∉ l.name := fun hmem => absurd (l.name_chars _ hmem) (by decide)
  have hcount : '\n' ∉ l.count := fun hmem => absurd (l.count_word.chars _ hmem) (by decide)
  unfold head
  simp [hname, hcount, henc]

theorem nul_notMem_text : '\x00' ∉ l.text := by
  have hnul := l.nul
  unfold text head
  cases hmonitor : l.monitor <;> simp_all

include l in
theorem pref_ne_nil : pref ≠ [] := by
  intro hpref
  have hlength := congrArg List.length l.site
  have hname := l.name_length.1
  have hzero : pref.length = 0 := List.length_eq_zero_iff.mpr hpref
  rw [List.length_take, List.length_take] at hlength
  omega

/-- The rest of a monitor field has no setting. -/
theorem settingsIn_rest {rest : List Char} (h : ∀ c ∈ rest, isBreak c = false) :
    settingsIn pref (rest ++ ['\n']) = [] := by
  refine settingsIn_eq_nil fun piece hpiece => lineSetting_eq_none_of_blankless fun c hc => ?_
  have hblanks : isBreak ' ' = true ∧ isBreak '\t' = true := by decide
  rcases List.mem_append.mp (hpiece c hc) with hc | hc
  · have hbreak := h c hc
    constructor
    · rintro rfl
      rw [hblanks.1] at hbreak
      cases hbreak
    · rintro rfl
      rw [hblanks.2] at hbreak
      cases hbreak
  · rw [List.mem_singleton.mp hc]
    decide

/-- The same for all of it, with the blank before it. -/
theorem settingsIn_monitor (hpref : pref ≠ []) {m : List Char} (h : ∀ c ∈ m, isBreak c = false) :
    settingsIn pref (' ' :: m ++ ['\n']) = [] := by
  have hnl : '\n' ∉ ' ' :: m := by
    intro hmem
    rcases List.mem_cons.mp hmem with hmem | hmem
    · exact absurd hmem (by decide)
    · exact absurd (h _ hmem) (by decide)
  by_cases hlen : (' ' :: m).length < 127
  · rw [settingsIn_line hnl hlen, List.cons_append, lineSetting_blank hpref]
    rfl
  · rw [settingsIn_cut hnl (not_lt.mp hlen), List.take_succ_cons, lineSetting_blank hpref,
      List.drop_succ_cons, settingsIn_rest fun c hc => h c (List.mem_of_mem_drop hc)]
    rfl

theorem lineSetting_plain {nl : List Char} (hnl : nl = [] ∨ nl = ['\n']) :
    lineSetting pref (l.head ++ nl) = some ⟨l.name, l.value, 0⟩ := by
  obtain ⟨w, henc, hw⟩ := l.encodes
  have hwords := lineWords_plain l.name_chars l.count_word henc hnl
  rw [l.unescape_name, hw] at hwords
  exact lineSetting_of_words hwords (by decide) l.site l.loaded

theorem lineSetting_monitor {m nl : List Char} (hchars : ∀ c ∈ m, isBreak c = false)
    (hq : '"' ∉ m) (hnl : nl = [] ∨ nl = ['\n']) :
    lineSetting pref (l.head ++ ' ' :: m ++ nl) =
      some ⟨l.name, l.value, readMask 4 (unescape m)⟩ := by
  obtain ⟨w, henc, hw⟩ := l.encodes
  have hwords := lineWords_monitor l.name_chars l.count_word henc hchars hq hnl
  rw [l.unescape_name, hw] at hwords
  have hset := lineSetting_of_words hwords (by split <;> decide) l.site l.loaded
  change lineSetting pref (l.head ++ ' ' :: m ++ nl) = _ at hset
  rw [hset]
  by_cases hempty : m = []
  · subst hempty
    rw [show unescape [] = [] from rfl, readMask_empty, readMask_empty]
  · rw [if_neg hempty]

/-- What a line has for `readConfig`. -/
theorem settingsIn_text : settingsIn pref (l.text ++ ['\n']) = [l.setting] := by
  have hhead := l.newline_notMem_head
  have hlength := l.head_length
  unfold text setting mask
  cases hmonitor : l.monitor with
  | none =>
    dsimp only
    by_cases hlen : l.head.length < 127
    · rw [settingsIn_line hhead hlen, l.lineSetting_plain (.inr rfl)]
      rfl
    · -- the newline is read as another line
      have htake : l.head.take 127 = l.head ++ [] := by
        rw [List.take_of_length_le hlength, List.append_nil]
      have hnil : ∀ c ∈ ([] : List Char), isBreak c = false := nofun
      rw [settingsIn_cut hhead (not_lt.mp hlen), htake, l.lineSetting_plain (.inl rfl),
        List.drop_eq_nil_of_le hlength, settingsIn_rest hnil]
      rfl
  | some m =>
    dsimp only
    obtain ⟨hchars, hq⟩ := l.monitor_chars m (by rw [hmonitor]; rfl)
    have hline : '\n' ∉ l.head ++ ' ' :: m := by
      have hnl : '\n' ∉ m := fun hmem => absurd (hchars _ hmem) (by decide)
      simp [hhead, hnl]
    by_cases hlen : (l.head ++ ' ' :: m).length < 127
    · have hroom : m.length ≤ 127 - (l.head.length + 1) := by
        rw [List.length_append, List.length_cons] at hlen
        omega
      rw [settingsIn_line hline hlen, l.lineSetting_monitor hchars hq (.inr rfl),
        List.take_of_length_le hroom]
      rfl
    · rw [settingsIn_cut hline (not_lt.mp hlen)]
      rcases Nat.lt_or_eq_of_le hlength with hlt | heq
      · -- the blank, and some of the monitor field
        obtain ⟨k, hk⟩ : ∃ k, 127 - l.head.length = k + 1 := ⟨126 - l.head.length, by omega⟩
        have hroom : 127 - (l.head.length + 1) = k := by omega
        have htake : (l.head ++ ' ' :: m).take 127 = l.head ++ ' ' :: m.take k ++ [] := by
          rw [List.take_append, hk, List.take_succ_cons, List.take_of_length_le hlength,
            List.append_nil]
        have hdrop : (l.head ++ ' ' :: m).drop 127 = m.drop k := by
          rw [List.drop_append, hk, List.drop_succ_cons, List.drop_eq_nil_of_le hlength,
            List.nil_append]
        rw [htake, hdrop, hroom,
          l.lineSetting_monitor (fun c hc => hchars c (List.mem_of_mem_take hc))
            (fun hmem => hq (List.mem_of_mem_take hmem)) (.inl rfl),
          settingsIn_rest fun c hc => hchars c (List.mem_of_mem_drop hc)]
        rfl
      · -- nothing behind the value
        have htake : (l.head ++ ' ' :: m).take 127 = l.head ++ [] := by
          rw [List.take_left' heq, List.append_nil]
        have hmask : readMask 4 (unescape (m.take (127 - (l.head.length + 1)))) = 0 := by
          rw [heq]
          exact readMask_empty 4
        rw [htake, l.lineSetting_plain (.inl rfl), List.drop_left' heq,
          settingsIn_monitor l.pref_ne_nil hchars, hmask]
        rfl

end SettingLine

def fileOf {pref : List Char} (lines : List (SettingLine pref)) : List Char :=
  lines.flatMap fun l => l.text ++ ['\n']

theorem settingsOf_fileOf {pref : List Char} (lines : List (SettingLine pref)) :
    settingsOf pref (fileOf lines) = lines.map SettingLine.setting := by
  have hnul : '\x00' ∉ fileOf lines := by
    unfold fileOf
    rw [List.mem_flatMap]
    rintro ⟨l, -, hmem⟩
    exact (List.mem_append.mp hmem).elim l.nul_notMem_text (by decide)
  rw [settingsOf_eq hnul]
  clear hnul
  induction lines with
  | nil => rfl
  | cons l ls ih =>
    have hcons : fileOf (l :: ls) = (l.text ++ ['\n']) ++ fileOf ls := rfl
    rw [hcons, settingsIn_append (by simp), l.settingsIn_text, ih]
    rfl

/-! ## What loading a file should do -/

section Spec

variable {K : Type} {pref : List Char}

/-- The channels of the table are records of the database, each of them another one. -/
structure SdfState.Recorded (dbExists : List Char → Bool) (s : SdfState K) : Prop where
  distinct : ∀ c < s.chNum, ∀ d < s.chNum, (s.cdTable c).chname = (s.cdTable d).chname → c = d
  found : ∀ c < s.chNum, dbExists (s.cdTable c).chname = true

/-- The value of a line for a channel: a text for a text and a number for a number. -/
def settingValue (fp : Doubles K) (cd : CdsCdTable K) (value : List Char) : SdfData K :=
  if cd.datatype = .str then .strval value
  else if cd.filterswitch ≠ 0 then .chval (switchValue fp (fp.atof value))
  else .chval (fp.atof value)

/-- A write to the database is what a line asks for. -/
def LineWritten (fp : Doubles K) (s : SdfState K) (l : SettingLine pref)
    (w : List Char × SdfData K) : Prop :=
  w.1 = l.name ∧
    if isAlarmChannel l.name then
      w.2 = if isNumber l.value then .chval (fp.atof l.value) else .strval l.value
    else ∃ ii < s.chNum, (s.cdTable ii).chname = l.name ∧
      w.2 = settingValue fp (s.cdTable ii) l.value

/-- The lines whose channels exist are written to the database, in their order, by the requests that
load a file, and by no other one. There is an entry of `readErrTable` for every error. -/
structure LoadsFile (fp : Doubles K) (dbExists : List Char → Bool)
    (lines : List (SettingLine pref)) (s : SdfState K) (load : SdfCommand → LoadResult K) :
    Prop where
  writes : ∀ command, command = .loadPartial ∨ command = .loadDbOnly →
    List.Forall₂ (LineWritten fp s) (lines.filter fun l => dbExists l.name) (load command).writes
  readOnly : (load .readOnly).writes = []
  notFound : ∀ command, command ≠ .reset →
    (load command).state.chNotFound = lines.countP fun l => !dbExists l.name
  errors : ∀ command, command ≠ .reset → (load command).state.rderror ≤ sdfErrTsize

end Spec

end AdvLigoRts.Seq
