import AdvLigoRts.Seq.SdfLines
import Mathlib.Data.List.TakeWhile

/-!
# What a saved file says

The settings that `readConfig` finds in a file that `writeTable2File` wrote: none in the header, and
one in the line of each saved channel.
-/

namespace AdvLigoRts.Seq

open PvLib

section Settings

/-- The settings of a text, piece by piece. -/
def settingsIn (pref text : List Char) : List Setting :=
  (fgetsPieces 127 127 text).filterMap (lineSetting pref)

variable {pref : List Char}

theorem settingsOf_eq {text : List Char} (h : '\x00' ∉ text) :
    settingsOf pref text = settingsIn pref text := by
  have hlines : fileLines text = fgetsPieces 127 127 text := by
    unfold fileLines
    refine (List.map_congr_left fun piece hpiece => ?_).trans (List.map_id _)
    rw [id, List.takeWhile_eq_self_iff]
    intro c hc
    exact decide_eq_true fun hzero => h (hzero ▸ mem_of_mem_fgetsPieces hpiece c hc)
  unfold settingsOf settingsIn
  rw [hlines]

theorem settingsIn_append {text : List Char} (h : text.getLast? = some '\n') (rest : List Char) :
    settingsIn pref (text ++ rest) = settingsIn pref text ++ settingsIn pref rest := by
  unfold settingsIn
  rw [fgetsPieces_append h, List.filterMap_append]

theorem settingsIn_line {line : List Char} (h : '\n' ∉ line) (hlen : line.length < 127) :
    settingsIn pref (line ++ ['\n']) = (lineSetting pref (line ++ ['\n'])).toList := by
  have hpieces : fgetsPieces 127 127 (line ++ ['\n']) = [line ++ ['\n']] :=
    fgetsPieces_line h hlen []
  unfold settingsIn
  rw [hpieces, List.filterMap_cons]
  cases lineSetting pref (line ++ ['\n']) <;> rfl

/-- The first piece of a long line, and the rest of it. -/
theorem settingsIn_cut {line : List Char} (h : '\n' ∉ line) (hlen : 127 ≤ line.length) :
    settingsIn pref (line ++ ['\n']) =
      (lineSetting pref (line.take 127)).toList ++
        settingsIn pref (line.drop 127 ++ ['\n']) := by
  have hcut : '\n' ∉ line.take 127 := fun hmem => h (List.mem_of_mem_take hmem)
  have hlength : (line.take 127).length = 127 := List.length_take_of_le hlen
  have hne : line.take 127 ≠ [] := by
    intro hnil
    rw [hnil] at hlength
    cases hlength
  have hpieces : fgetsPieces 127 127 (line.take 127 ++ (line.drop 127 ++ ['\n'])) =
      line.take 127 :: fgetsPieces 127 127 (line.drop 127 ++ ['\n']) :=
    fgetsPieces_cut hcut hne hlength _
  rw [← List.append_assoc, List.take_append_drop] at hpieces
  unfold settingsIn
  rw [hpieces, List.filterMap_cons]
  cases lineSetting pref (line.take 127) <;> rfl

theorem settingsIn_eq_nil {text : List Char}
    (h : ∀ piece, (∀ c ∈ piece, c ∈ text) → lineSetting pref piece = none) :
    settingsIn pref text = [] := by
  unfold settingsIn
  rw [List.filterMap_eq_nil_iff]
  exact fun piece hpiece => h piece (mem_of_mem_fgetsPieces hpiece)

theorem settingsIn_lines {lines : List (List Char)}
    (h : ∀ l ∈ lines, settingsIn pref (l ++ ['\n']) = []) (rest : List Char) :
    settingsIn pref ((lines.flatMap fun l => l ++ ['\n']) ++ rest) = settingsIn pref rest := by
  induction lines with
  | nil => rfl
  | cons l ls ih =>
    rw [List.flatMap_cons, List.append_assoc, settingsIn_append (by simp),
      h l List.mem_cons_self, List.nil_append, ih fun x hx => h x (List.mem_cons_of_mem l hx)]

variable (hpref : pref[2]? = some ':')
include hpref

/-- A line whose third character is not the colon of a site. -/
theorem lineSetting_of_take {line : List Char} {a b c : Char} (h : line.take 3 = [a, b, c])
    (habc : isBreak a = false ∧ isBreak b = false ∧ isBreak c = false ∧ c ≠ ':') :
    lineSetting pref line = none := by
  obtain ⟨ha, hb, hc, hcolon⟩ := habc
  have hline : line = a :: b :: c :: line.drop 3 := by
    conv_lhs => rw [← List.take_append_drop 3 line, h]
    rfl
  exact lineSetting_eq_none_of_third hpref hline ha hb hc hcolon

theorem settingsIn_header_line {line : List Char} {a b c : Char} (h : '\n' ∉ line)
    (hlen : line.length < 127) (htake : line.take 3 = [a, b, c])
    (habc : isBreak a = false ∧ isBreak b = false ∧ isBreak c = false ∧ c ≠ ':') :
    settingsIn pref (line ++ ['\n']) = [] := by
  have hfirst : (line ++ ['\n']).take 3 = [a, b, c] := by
    have hlength := congrArg List.length htake
    rw [List.length_take, List.length_cons, List.length_cons, List.length_singleton] at hlength
    rw [List.take_append_of_le_length (by omega), htake]
  rw [settingsIn_line h hlen, lineSetting_of_take hpref hfirst habc]
  rfl

theorem settingsIn_directory {dir : List Char} (h : ∀ c ∈ dir, isSpace c = false) :
    settingsIn pref ("Directory: ".toList ++ dir ++ ['\n']) = [] := by
  have hdir : '\n' ∉ dir := fun hmem => absurd (h _ hmem) (by decide)
  have hline : '\n' ∉ "Directory: ".toList ++ dir := fun hmem =>
    (List.mem_append.mp hmem).elim (by decide) hdir
  by_cases hlen : ("Directory: ".toList ++ dir).length < 127
  · exact settingsIn_header_line hpref hline hlen rfl (by decide)
  · -- what does not fit in the first piece has no blanks
    have hfirst : (("Directory: ".toList ++ dir).take 127).take 3 = ['D', 'i', 'r'] := by
      rw [List.take_take]
      rfl
    have hdrop : ("Directory: ".toList ++ dir).drop 127 = dir.drop 116 := by
      rw [List.drop_append]
      rfl
    rw [settingsIn_cut hline (not_lt.mp hlen), lineSetting_of_take hpref hfirst (by decide), hdrop]
    refine settingsIn_eq_nil fun piece hpiece => lineSetting_eq_none_of_blankless fun c hc => ?_
    rcases List.mem_append.mp (hpiece c hc) with hc | hc
    · have hspace := h c (List.mem_of_mem_drop hc)
      constructor
      · rintro rfl
        cases hspace
      · rintro rfl
        cases hspace
    · rw [List.mem_singleton.mp hc]
      decide

theorem settingsIn_header (h : BurtHeader) (rest : List Char) :
    settingsIn pref (h.text ++ rest) = settingsIn pref rest := by
  refine settingsIn_lines (fun l hl => ?_) rest
  unfold BurtHeader.lines at hl
  simp only [List.mem_cons, List.not_mem_nil, or_false] at hl
  rcases hl with rfl | rfl | rfl | rfl | rfl | rfl | rfl | rfl | rfl | rfl | rfl
  case inr.inl =>
    refine settingsIn_header_line hpref (fun hmem => ?_) ?_ rfl (by decide)
    · exact (List.mem_append.mp hmem).elim (by decide) h.timestring_line
    · have htime := h.timestring_length
      rw [List.length_append]
      change 11 + h.timestring.length < 127
      omega
  case inr.inr.inr.inr.inr.inr.inr.inr.inl => exact settingsIn_directory hpref h.burtdir_word
  all_goals exact settingsIn_header_line hpref (by decide) (by decide) rfl (by decide)

end Settings

/-! ## Channels that can be saved -/

/-- What is relied on of a number that is printed: `atof` undoes the print, which has the form of
`%.*e`. -/
structure Doubles.Prints {K : Type} (fp : Doubles K) (v : K) : Prop where
  atof : fp.atof (fp.print v) = v
  first : (fp.print v).head?.any Char.isDigit = true ∨ (fp.print v).head? = some '-'
  chars : ∀ c ∈ fp.print v, isSpace c = false
  length : (fp.print v).length ≤ 28

variable {K : Type}

/-- A channel holds a value of its type. -/
def CdsCdTable.Typed (fp : Doubles K) (cd : CdsCdTable K) : Prop :=
  (cd.datatype = .num ∧ ∃ v, cd.data = .chval v ∧ fp.Prints v) ∨
    (cd.datatype = .str ∧ ∃ t, cd.data = .strval t ∧ t.length ≤ 63)

/-- The value of a channel as a text. -/
def CdsCdTable.text (fp : Doubles K) (cd : CdsCdTable K) : List Char :=
  if cd.datatype = .num then fp.print (cd.data.asChval fp) else cd.data.asStrval fp

/-- A channel of the site that `readConfig` loads. -/
structure CdsCdTable.Savable (fp : Doubles K) (pref : List Char) (cd : CdsCdTable K) : Prop where
  site : cd.chname.take 3 = pref.take 3
  length : cd.chname.length ≤ 60
  chars : ∀ c ∈ cd.chname, isSpace c = false
  loaded : isSkipped cd.chname = false
  noAlarm : isAlarmChannel cd.chname = false
  typed : cd.Typed fp
  nul : '\x00' ∉ cd.chname ++ cd.text fp

/-- The length of a line up to the blank before the mask. -/
def CdsCdTable.headLength (fp : Doubles K) (cd : CdsCdTable K) : ℕ :=
  cd.chname.length + 3 + (valueString fp cd).length

/-- What `fgets` has room for of the mask. -/
def cutMonitor (fp : Doubles K) (cd : CdsCdTable K) : List Char :=
  (monitorString cd).take (127 - (cd.headLength fp + 1))

/-- The value ends within the first 127 characters of its line, or it has no quote in it. -/
def CdsCdTable.Fits (fp : Doubles K) (cd : CdsCdTable K) : Prop :=
  cd.headLength fp ≤ 127 ∨ '"' ∉ cd.text fp

/-! ## The parts of a line -/

theorem monitorString_chars {cd : CdsCdTable K} {c : Char} (h : c ∈ monitorString cd) :
    isBreak c = false ∧ c ≠ '"' ∧ c ≠ ':' ∧ c ≠ '\\' ∧ c ≠ '\x00' := by
  have hdigits : ∀ d < 16, isBreak (Nat.digitChar d) = false ∧ Nat.digitChar d ≠ '"' ∧
      Nat.digitChar d ≠ ':' ∧ Nat.digitChar d ≠ '\\' ∧ Nat.digitChar d ≠ '\x00' := by decide
  unfold monitorString at h
  split at h
  · split at h
    · rw [List.mem_singleton.mp h]
      decide
    · split at h
      · rw [List.mem_singleton.mp h]
        decide
      · rcases List.mem_append.mp h with h | h
        · simp only [List.mem_cons, List.not_mem_nil, or_false] at h
          rcases h with rfl | rfl <;> decide
        · obtain ⟨d, hd, rfl⟩ := digitChar_of_mem_toDigits h
          exact hdigits d hd
  · split at h
    all_goals
      rw [List.mem_singleton.mp h]
      decide

/-- A value is written as it is, or between quotes. -/
theorem valueString_cases {fp : Doubles K} {cd : CdsCdTable K} (h : cd.Typed fp) :
    (∃ w, valueString fp cd = w ∧ w ≠ [] ∧ (∀ c ∈ w, isBreak c = false) ∧ w.head? ≠ some '"' ∧
        unescape w = unescape (cd.text fp) ∧ w.length ≤ 63) ∨
      (valueString fp cd = '"' :: cd.text fp ++ ['"'] ∧ (cd.text fp).length ≤ 63) := by
  unfold valueString CdsCdTable.text
  rcases h with ⟨htype, v, hdata, hv⟩ | ⟨htype, t, hdata, ht⟩
  · left
    rw [if_pos htype, if_pos htype, hdata]
    refine ⟨_, rfl, ?_, fun c hc => isBreak_of_isSpace (hv.chars c hc), ?_, rfl,
      hv.length.trans (by decide)⟩
    · intro hnil
      have hfirst := hv.first
      change fp.print v = [] at hnil
      rw [hnil] at hfirst
      simp at hfirst
    · intro hquote
      have hfirst := hv.first
      change (fp.print v).head? = some '"' at hquote
      rw [hquote] at hfirst
      revert hfirst
      decide
  · have hnum : ¬cd.datatype = .num := by
      rw [htype]
      decide
    rw [if_neg hnum, if_neg hnum, hdata]
    change (∃ w, encodeBURTString t 66 = w ∧ _) ∨ encodeBURTString t 66 = '"' :: t ++ ['"'] ∧ _
    unfold encodeBURTString
    rw [if_neg (by omega)]
    split
    case isTrue hempty =>
      rw [List.length_eq_zero_iff.mp hempty]
      have hchars : ∀ c ∈ ['\\', '0'], isBreak c = false := fun c hc =>
        isBreak_of_isSpace (isSpace_of_any (by decide) c hc)
      exact .inl ⟨_, rfl, by decide, hchars, by decide, rfl, by decide⟩
    case isFalse hempty =>
      split
      · exact .inr ⟨rfl, ht⟩
      · rename_i hplain
        have hchars : ∀ c ∈ t, isBreak c = false ∧ c ≠ '"' := by
          intro c hc
          have := List.any_eq_false.mp (Bool.eq_false_iff.mpr hplain) c hc
          simp only [Bool.or_eq_true, not_or, beq_iff_eq] at this
          obtain ⟨⟨⟨h1, h2⟩, h3⟩, h4⟩ := this
          exact ⟨by simp [isBreak, h1, h2, h3], h4⟩
        refine .inl ⟨t, rfl, fun hnil => hempty (by rw [hnil]; rfl), fun c hc => (hchars c hc).1,
          fun hquote => ?_, rfl, ht⟩
        exact (hchars '"' (List.mem_of_head? hquote)).2 rfl

theorem nul_notMem_valueString {fp : Doubles K} {cd : CdsCdTable K} (h : '\x00' ∉ cd.text fp) :
    '\x00' ∉ valueString fp cd := by
  unfold CdsCdTable.text at h
  unfold valueString
  split
  case isTrue hnum => rwa [if_pos hnum] at h
  case isFalse hnum =>
    rw [if_neg hnum] at h
    unfold encodeBURTString
    split
    · exact List.not_mem_nil
    · split
      · decide
      · split
        · simp [h]
        · exact h

theorem encodes_valueString {fp : Doubles K} {cd : CdsCdTable K} (h : cd.Typed fp)
    (hnl : '\n' ∉ cd.text fp) :
    ∃ w, Encodes (valueString fp cd) w ∧ unescape w = unescape (cd.text fp) := by
  rcases valueString_cases h with ⟨w, heq, hne, hchars, hq, hw, -⟩ | ⟨heq, -⟩
  · exact ⟨w, .inl ⟨heq, hne, hchars, hq⟩, hw⟩
  · exact ⟨_, .inr ⟨heq, hnl⟩, rfl⟩

/-- Only a value between quotes can reach over the end of the buffer, by its last quote. -/
theorem headLength_le {fp : Doubles K} {pref : List Char} {cd : CdsCdTable K}
    (h : cd.Savable fp pref) :
    cd.headLength fp ≤ 127 ∨
      cd.headLength fp = 128 ∧ valueString fp cd = '"' :: cd.text fp ++ ['"'] := by
  have hname := h.length
  unfold CdsCdTable.headLength
  rcases valueString_cases h.typed with ⟨w, heq, -, -, -, -, hlen⟩ | ⟨heq, hlen⟩
  · left
    rw [heq]
    omega
  · have hvalue : (valueString fp cd).length = (cd.text fp).length + 2 := by
      rw [heq]
      simp
    rw [hvalue]
    by_cases hle : cd.chname.length + 3 + ((cd.text fp).length + 2) ≤ 127
    · exact .inl hle
    · exact .inr ⟨by omega, heq⟩

/-! ## The setting of a channel -/

theorem lineSetting_of_words {pref line name s3 s4 : List Char} {n : ℕ}
    (h : LineWords line n name s3 s4) (hn : 2 < n) (hsite : name.take 3 = pref.take 3)
    (hloaded : isSkipped name = false) :
    lineSetting pref line = some ⟨name, s3, readMask n s4⟩ := by
  unfold lineSetting
  dsimp only
  rw [h.argcount, h.name, h.value, h.mask, if_pos ⟨hsite, by simp [hloaded], hn⟩]

theorem readMask_empty (n : ℕ) : readMask n [] = 0 := by
  unfold readMask
  simp only [if_true]
  split <;> decide

theorem unescape_monitor {cd : CdsCdTable K} {mon : List Char} (h : mon ⊆ monitorString cd) :
    unescape mon = mon := by
  unfold unescape
  refine if_neg fun heq => ?_
  have hmem : '\\' ∈ mon := by
    rw [heq]
    decide
  exact (monitorString_chars (h hmem)).2.2.2.1 rfl

section Channel

variable {fp : Doubles K} {pref : List Char} {cd : CdsCdTable K}

theorem CdsCdTable.Savable.unescape_name (h : cd.Savable fp pref) (hpref : pref[2]? = some ':') :
    unescape cd.chname = cd.chname := by
  unfold unescape
  refine if_neg fun heq => ?_
  have hthird : (cd.chname.take 3)[2]? = some ':' := by
    rw [h.site, List.getElem?_take_of_lt (by decide), hpref]
  rw [heq] at hthird
  cases hthird

theorem CdsCdTable.Savable.name_breaks (h : cd.Savable fp pref) :
    ∀ c ∈ cd.chname, isBreak c = false := fun c hc => isBreak_of_isSpace (h.chars c hc)

/-- The head of a line: everything before the blank that the mask follows. -/
def lineHead (fp : Doubles K) (cd : CdsCdTable K) : List Char :=
  cd.chname ++ " 1 ".toList ++ valueString fp cd

theorem length_lineHead (fp : Doubles K) (cd : CdsCdTable K) :
    (lineHead fp cd).length = cd.headLength fp := by
  unfold lineHead CdsCdTable.headLength
  rw [List.length_append, List.length_append]
  rfl

/-- With a head of 128 characters, all but the closing quote are in the buffer. -/
theorem lineHead_quoted (hvalue : valueString fp cd = '"' :: cd.text fp ++ ['"'])
    (hlen : cd.headLength fp = 128) :
    lineHead fp cd = (cd.chname ++ " 1 ".toList ++ '"' :: cd.text fp) ++ ['"'] ∧
      (cd.chname ++ " 1 ".toList ++ '"' :: cd.text fp).length = 127 := by
  have hhead : lineHead fp cd = (cd.chname ++ " 1 ".toList ++ '"' :: cd.text fp) ++ ['"'] := by
    unfold lineHead
    rw [hvalue]
    simp
  have hlength := length_lineHead fp cd
  rw [hhead, List.length_append, hlen, List.length_singleton] at hlength
  exact ⟨hhead, by omega⟩

theorem newline_notMem_line (h : cd.Savable fp pref) (hnl : '\n' ∉ cd.text fp) :
    '\n' ∉ lineHead fp cd ++ ' ' :: monitorString cd := by
  have hvalue : '\n' ∉ valueString fp cd := by
    rcases valueString_cases h.typed with ⟨w, heq, -, hchars, -⟩ | ⟨heq, -⟩
    · rw [heq]
      exact fun hmem => absurd (hchars _ hmem) (by decide)
    · rw [heq]
      simpa using hnl
  have hname : '\n' ∉ cd.chname := fun hmem => absurd (h.chars _ hmem) (by decide)
  have hmon : '\n' ∉ monitorString cd := fun hmem =>
    absurd (monitorString_chars hmem).1 (by decide)
  unfold lineHead
  intro hmem
  rcases List.mem_append.mp hmem with hmem | hmem
  · rcases List.mem_append.mp hmem with hmem | hmem
    · rcases List.mem_append.mp hmem with hmem | hmem
      · exact hname hmem
      · exact absurd hmem (by decide)
    · exact hvalue hmem
  · rcases List.mem_cons.mp hmem with hmem | hmem
    · exact absurd hmem (by decide)
    · exact hmon hmem

/-- What is left of a line that was cut has no setting. -/
theorem settingsIn_rest (hpref : pref[2]? = some ':') (h : cd.Savable fp pref) :
    settingsIn pref ((lineHead fp cd ++ ' ' :: monitorString cd).drop 127 ++ ['\n']) = [] := by
  have hcolon : ':' ∉ (lineHead fp cd ++ ' ' :: monitorString cd).drop 127 := by
    have hmon : ':' ∉ ' ' :: monitorString cd := by
      intro hmem
      rcases List.mem_cons.mp hmem with hmem | hmem
      · exact absurd hmem (by decide)
      · exact (monitorString_chars hmem).2.2.1 rfl
    rw [List.drop_append, length_lineHead]
    intro hmem
    rcases List.mem_append.mp hmem with hmem | hmem
    · -- only the closing quote can be there
      rcases headLength_le h with hle | ⟨heq, hvalue⟩
      · rw [List.drop_eq_nil_of_le (by rw [length_lineHead]; exact hle)] at hmem
        cases hmem
      · obtain ⟨hhead, hlen⟩ := lineHead_quoted hvalue heq
        rw [hhead, List.drop_left' hlen] at hmem
        exact absurd hmem (by decide)
    · exact hmon (List.mem_of_mem_drop hmem)
  refine settingsIn_eq_nil fun piece hpiece => lineSetting_eq_none_of_colon hpref fun hmem => ?_
  rcases List.mem_append.mp (hpiece _ hmem) with hmem | hmem
  · exact hcolon hmem
  · exact absurd hmem (by decide)

/-- The setting that a channel's line has. -/
def savedSetting (fp : Doubles K) (cd : CdsCdTable K) : Setting :=
  ⟨cd.chname, unescape (cd.text fp), readMask 4 (cutMonitor fp cd)⟩

theorem lineSetting_entry (hpref : pref[2]? = some ':') (h : cd.Savable fp pref)
    (hnl : '\n' ∉ cd.text fp) {mon nl : List Char} (hmon : mon ⊆ monitorString cd)
    (hend : nl = [] ∨ nl = ['\n']) :
    lineSetting pref (lineHead fp cd ++ ' ' :: mon ++ nl) =
      some ⟨cd.chname, unescape (cd.text fp), readMask 4 mon⟩ := by
  obtain ⟨w, henc, hw⟩ := encodes_valueString h.typed hnl
  have hwords := lineWords_entry h.name_breaks henc
    (fun c hc => (monitorString_chars (hmon hc)).1)
    (fun hmem => (monitorString_chars (hmon hmem)).2.1 rfl) hend
  rw [h.unescape_name hpref, hw, unescape_monitor hmon] at hwords
  have hset := lineSetting_of_words hwords (by split <;> decide) h.site h.loaded
  unfold lineHead
  rw [hset]
  by_cases hempty : mon = []
  · subst hempty
    rw [readMask_empty, readMask_empty]
  · rw [if_neg hempty]

theorem channelText_saved (hinit : cd.initialized = true) :
    channelText fp .paramsOnly cd = lineHead fp cd ++ ' ' :: monitorString cd ++ ['\n'] := by
  unfold channelText lineHead
  rw [hinit]
  rfl

theorem nul_notMem_channelText (h : cd.Savable fp pref) :
    '\x00' ∉ channelText fp .paramsOnly cd := by
  cases hinit : cd.initialized with
  | false => simp [channelText, hinit]
  | true =>
    obtain ⟨hname, htext⟩ := not_or.mp (List.mem_append.not.mp h.nul)
    have hmonitor : '\x00' ∉ monitorString cd := fun hmem => (monitorString_chars hmem).2.2.2.2 rfl
    rw [channelText_saved hinit]
    simp [lineHead, hname, hmonitor, nul_notMem_valueString htext]

theorem settingsIn_channel (hpref : pref[2]? = some ':') (h : cd.Savable fp pref)
    (hinit : cd.initialized = true) (hnl : '\n' ∉ cd.text fp) (hfits : cd.Fits fp) :
    settingsIn pref (channelText fp .paramsOnly cd) = [savedSetting fp cd] := by
  have hline := newline_notMem_line h hnl
  have hlength : (lineHead fp cd ++ ' ' :: monitorString cd).length =
      cd.headLength fp + (monitorString cd).length + 1 := by
    rw [List.length_append, length_lineHead, List.length_cons]
    omega
  rw [channelText_saved hinit]
  unfold savedSetting cutMonitor
  by_cases hlen : (lineHead fp cd ++ ' ' :: monitorString cd).length < 127
  · rw [settingsIn_line hline hlen,
      lineSetting_entry hpref h hnl (List.Subset.refl _) (.inr rfl),
      List.take_of_length_le (by omega)]
    rfl
  · rw [settingsIn_cut hline (not_lt.mp hlen), settingsIn_rest hpref h, List.append_nil]
    rcases Nat.lt_trichotomy (cd.headLength fp) 127 with hlt | heq | hgt
    · -- the blank, and some of the mask
      have htake : (lineHead fp cd ++ ' ' :: monitorString cd).take 127 =
          lineHead fp cd ++ ' ' :: (monitorString cd).take (127 - (cd.headLength fp + 1)) ++
            [] := by
        obtain ⟨k, hk⟩ : ∃ k, 127 - cd.headLength fp = k + 1 := ⟨126 - cd.headLength fp, by omega⟩
        rw [List.take_append, length_lineHead, hk, List.take_succ_cons,
          List.take_of_length_le (by rw [length_lineHead]; omega), List.append_nil]
        congr 3
        omega
      rw [htake, lineSetting_entry hpref h hnl (List.take_subset _ _) (.inl rfl)]
      rfl
    · -- the value, and nothing behind it
      have htake : (lineHead fp cd ++ ' ' :: monitorString cd).take 127 = lineHead fp cd :=
        List.take_left' (by rw [length_lineHead, heq])
      obtain ⟨w, henc, hw⟩ := encodes_valueString h.typed hnl
      have hwords := lineWords_value h.name_breaks henc
      rw [h.unescape_name hpref, hw] at hwords
      rw [htake, lineHead, lineSetting_of_words hwords (by decide) h.site h.loaded, heq]
      simp [readMask_empty]
    · -- everything up to the closing quote
      obtain ⟨heq, hvalue⟩ := (headLength_le h).resolve_left (by omega)
      have hq := hfits.resolve_left (by omega)
      have htake : (lineHead fp cd ++ ' ' :: monitorString cd).take 127 =
          cd.chname ++ " 1 ".toList ++ '"' :: cd.text fp := by
        obtain ⟨hhead, hlen127⟩ := lineHead_quoted hvalue heq
        rw [hhead, List.append_assoc]
        exact List.take_left' hlen127
      have hwords := lineWords_unclosed h.name_breaks hnl hq
      rw [h.unescape_name hpref] at hwords
      rw [htake, lineSetting_of_words hwords (by decide) h.site h.loaded, heq]
      simp [readMask_empty]

/-- The setting of a channel whose value is cut at an earlier quote. -/
theorem settingsIn_misfit (hpref : pref[2]? = some ':') (h : cd.Savable fp pref)
    (hinit : cd.initialized = true) (hnl : '\n' ∉ cd.text fp) (hfits : ¬cd.Fits fp) :
    ∃ l, settingsIn pref (channelText fp .paramsOnly cd) = [l] ∧ l.name = cd.chname ∧
      l.value ≠ cd.text fp := by
  obtain ⟨hlong, hq⟩ := not_or.mp hfits
  obtain ⟨heq, hvalue⟩ := (headLength_le h).resolve_left hlong
  obtain ⟨hhead, hlen⟩ := lineHead_quoted hvalue heq
  -- the value ends at its last quote
  obtain ⟨r, u, hrev, hr⟩ := List.eq_append_cons_of_mem (List.mem_reverse.mpr (not_not.mp hq))
  have htext : cd.text fp = u.reverse ++ '"' :: r.reverse := by
    have hrev' := congrArg List.reverse hrev
    simpa using hrev'
  have hu : '\n' ∉ u.reverse := fun hmem => hnl (by
    rw [htext]
    exact List.mem_append_left _ hmem)
  obtain ⟨hcount, hname, hword⟩ := lineWords_inner h.name_breaks hu
    (mt List.mem_reverse.mp hr)
  have hlinelen : 127 ≤ (lineHead fp cd ++ ' ' :: monitorString cd).length := by
    rw [List.length_append, length_lineHead, heq]
    omega
  have htake : (lineHead fp cd ++ ' ' :: monitorString cd).take 127 =
      cd.chname ++ " 1 ".toList ++ '"' :: u.reverse ++ '"' :: r.reverse := by
    rw [hhead, List.append_assoc, List.take_left' hlen, htext]
    simp
  rw [channelText_saved hinit, settingsIn_cut (newline_notMem_line h hnl) hlinelen,
    settingsIn_rest hpref h, List.append_nil, htake]
  unfold lineSetting
  dsimp only
  rw [hname, h.unescape_name hpref, if_pos ⟨h.site, by simp [h.loaded], hcount⟩, hword]
  refine ⟨_, rfl, rfl, fun hsame => ?_⟩
  have hsame : unescape u.reverse = cd.text fp := hsame
  have hle : (unescape u.reverse).length ≤ u.reverse.length := by
    unfold unescape
    split
    · exact Nat.zero_le _
    · exact le_rfl
  rw [hsame, htext, List.length_append, List.length_cons] at hle
  omega

end Channel

end AdvLigoRts.Seq
