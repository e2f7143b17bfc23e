import AdvLigoRts.Seq.SdfBuffers
import AdvLigoRts.Seq.SdfLoadTheorems
import Mathlib.Data.Nat.Digits.Defs

/-!
# When a file fits in the buffers

`fgets` gives `parseLine` less characters than a word's buffer has room for, so no word gets too
long, and the words are those of `parseLine` without bounds.
-/

namespace AdvLigoRts.Seq

open PvLib

/-! ## The words of a line -/

namespace BufferState

variable {bufSize : ℕ} {c : Char} {b : BufferState}

/-- There is room for `n` more characters in each word, and nothing was written out of bounds. -/
structure HasRoom (bufSize n : ℕ) (b : BufferState) : Prop where
  wc : b.wc < 6
  word : b.word.length ≤ b.cursize
  room : b.cursize + n < bufSize
  writes : ∀ w ∈ b.writes, w.InBounds bufSize

theorem HasRoom.put {n : ℕ} (h : HasRoom bufSize (n + 1) b) :
    HasRoom bufSize n (b.put bufSize c) ∧
      (b.put bufSize c).toWordState = { b.toWordState with word := b.word ++ [c] } := by
  have hword := h.word
  have hroom := h.room
  have hput : b.put bufSize c = { b with
      word := b.word ++ [c]
      cursize := b.cursize + 1
      writes := b.writes ++ [⟨b.wc, b.word.length⟩, ⟨b.wc, b.word.length + 1⟩] } :=
    if_pos (by omega)
  rw [hput]
  refine ⟨⟨h.wc, ?_, ?_, List.forall_mem_append.mpr ⟨h.writes, ?_⟩⟩, rfl⟩
  · show (b.word ++ [c]).length ≤ b.cursize + 1
    rw [List.length_append, List.length_singleton]
    omega
  · show b.cursize + 1 + n < bufSize
    omega
  · intro w hw
    have hbounds : b.wc < 6 := h.wc
    simp only [List.mem_cons, List.not_mem_nil, or_false] at hw
    rcases hw with rfl | rfl
    · exact ⟨hbounds, show b.word.length < bufSize by omega⟩
    · exact ⟨hbounds, show b.word.length + 1 < bufSize by omega⟩

/-- The end that is forced does not cut a word. -/
theorem HasRoom.close {n : ℕ} (h : HasRoom bufSize n b) :
    HasRoom bufSize n (b.close bufSize) ∧ (b.close bufSize).toWordState = b.toWordState := by
  have hword := h.word
  have hroom := h.room
  have htake : b.word.take (bufSize - 1) = b.word := List.take_of_length_le (by omega)
  have hclose : b.close bufSize = { b with writes := b.writes ++ [⟨b.wc, bufSize - 1⟩] } := by
    unfold BufferState.close
    rw [htake]
  rw [hclose]
  refine ⟨⟨h.wc, h.word, h.room, List.forall_mem_append.mpr ⟨h.writes, ?_⟩⟩, rfl⟩
  intro w hw
  rw [List.mem_singleton.mp hw]
  exact ⟨h.wc, show bufSize - 1 < bufSize by omega⟩

theorem HasRoom.mono {n m : ℕ} (h : HasRoom bufSize n b) (hm : m ≤ n) : HasRoom bufSize m b :=
  ⟨h.wc, h.word, by have := h.room; omega, h.writes⟩

/-- The next word is empty, whether `cursize` starts again or not. -/
theorem HasRoom.next {n : ℕ} (h : HasRoom bufSize n b) (hwc : b.next.wc ≠ 6) :
    HasRoom bufSize n b.next := by
  have hstep : b.next.wc = b.wc + 1 := by
    show (b.words ++ [b.word]).length = b.words.length + 1
    rw [List.length_append]
    rfl
  have hb := h.wc
  exact ⟨by omega, Nat.zero_le _, h.room, h.writes⟩

theorem HasRoom.restart {n : ℕ} (h : HasRoom bufSize n b) (hword : b.word = []) :
    HasRoom bufSize n { b with cursize := 0 } :=
  ⟨h.wc, by rw [hword]; exact Nat.zero_le _, by have := h.room; show 0 + n < bufSize; omega,
    h.writes⟩

end BufferState

open BufferState

theorem parseBuffers_spec {bufSize : ℕ} {s : List Char} {b : BufferState}
    (h : HasRoom bufSize s.length b)
    (hspace : b.lastwasspace = true → b.quoted = none → b.word = []) :
    (∀ w ∈ (parseBuffers bufSize s b).writes, w.InBounds bufSize) ∧
      (parseBuffers bufSize s b).toWordState = parseChars s b.toWordState := by
  induction s generalizing b with
  | nil =>
    unfold parseBuffers parseChars
    split
    · exact ⟨h.writes, rfl⟩
    · exact ⟨h.writes, rfl⟩
  | cons c s ih =>
    have hrest := h.mono (Nat.le_succ s.length)
    obtain ⟨hput, hword⟩ := h.put (c := c)
    unfold parseBuffers parseChars
    cases hquoted : b.quoted with
    | some k =>
      cases k with
      | succ k =>
        -- a character between quotes
        obtain ⟨hin, heq⟩ := ih (b := { b.put bufSize c with quoted := some k })
          { hput with } (by simp)
        refine ⟨hin, heq.trans ?_⟩
        dsimp only
        rw [hword]
      | zero =>
        dsimp only
        by_cases hstop : c = '\n' ∨ b.next.wc = 6
        · have hstop' : c = '\n' ∨ b.toWordState.next.wc = 6 := hstop
          rw [if_pos hstop, if_pos hstop']
          exact ⟨h.writes, rfl⟩
        · have hstop' : ¬(c = '\n' ∨ b.toWordState.next.wc = 6) := hstop
          rw [if_neg hstop, if_neg hstop']
          exact ih (hrest.next (not_or.mp hstop).2) fun _ _ => rfl
    | none =>
      dsimp only
      by_cases hnl : c = '\n'
      · rw [if_pos hnl, if_pos hnl]
        exact ⟨h.writes, rfl⟩
      · rw [if_neg hnl, if_neg hnl]
        by_cases hblank : c = ' ' ∨ c = '\t'
        · obtain ⟨hclose, hsame⟩ := hrest.close
          have hnext : (b.close bufSize).next.toWordState = b.toWordState.next :=
            congrArg WordState.next hsame
          have hspaces : (b.close bufSize).lastwasspace = b.lastwasspace :=
            congrArg WordState.lastwasspace hsame
          rw [if_pos hblank, if_pos hblank]
          by_cases hlast : b.lastwasspace = true
          · have hempty : (b.close bufSize).word = [] :=
              (congrArg WordState.word hsame).trans (hspace hlast hquoted)
            rw [if_pos (hspaces.trans hlast), if_pos hlast]
            obtain ⟨hin, heq⟩ := ih (hclose.restart hempty) fun _ _ => hempty
            exact ⟨hin, heq.trans (congrArg (parseChars s) hsame)⟩
          · rw [if_neg (hspaces ▸ hlast), if_neg hlast]
            by_cases hwc : (b.close bufSize).next.wc = 6
            · have hwc' : b.toWordState.next.wc = 6 := hnext ▸ hwc
              rw [if_pos hwc, if_pos hwc']
              exact ⟨hclose.writes, hnext⟩
            · have hwc' : ¬b.toWordState.next.wc = 6 := hnext ▸ hwc
              rw [if_neg hwc, if_neg hwc']
              obtain ⟨hin, heq⟩ := ih ((hclose.next hwc).restart rfl) fun _ _ => rfl
              exact ⟨hin, heq.trans (congrArg (parseChars s) hnext)⟩
        · rw [if_neg hblank, if_neg hblank]
          by_cases hregular : c ≠ '"' ∨ ¬b.lastwasspace = true
          · rw [if_pos hregular, if_pos hregular]
            obtain ⟨hin, heq⟩ := ih (b := { b.put bufSize c with lastwasspace := false })
              { hput with } (by simp)
            refine ⟨hin, heq.trans ?_⟩
            dsimp only
            rw [hword, ← hquoted]
          · rw [if_neg hregular, if_neg hregular]
            exact ih (b := { b with quoted := some (quotedLength s) })
              { hrest with } (by simp)

theorem hasRoom_start {bufSize : ℕ} {line : List Char} (h : line.length < bufSize) :
    HasRoom bufSize line.length .start := by
  refine ⟨by decide, Nat.zero_le _, (Nat.zero_add _).trans_lt h, fun w hw => ?_⟩
  obtain ⟨ii, hii, rfl⟩ := List.mem_map.mp hw
  exact ⟨List.mem_range.mp hii, Nat.zero_lt_of_lt h⟩

/-- A line that is shorter than the buffers does not overrun them. -/
theorem parseLineWrites_inBounds {bufSize : ℕ} {line : List Char} (h : line.length < bufSize) :
    ∀ w ∈ parseLineWrites bufSize line, w.InBounds bufSize := by
  have hpos : 0 < bufSize := Nat.zero_lt_of_lt h
  obtain ⟨hloop, -⟩ := parseBuffers_spec (hasRoom_start h) fun _ _ => rfl
  unfold parseLineWrites
  dsimp only
  refine List.forall_mem_append.mpr ⟨List.forall_mem_append.mpr ⟨hloop, fun w hw => ?_⟩,
    fun w hw => ?_⟩
  · split at hw
    · rename_i hlast
      rw [List.mem_singleton.mp hw]
      exact ⟨hlast.1, show bufSize - 1 < bufSize by omega⟩
    · cases hw
  · obtain ⟨ii, hii, rfl⟩ := List.mem_map.mp hw
    exact ⟨List.mem_range.mp (List.mem_of_mem_filter hii), hpos⟩

/-! ## The lines of a file -/

theorem fileLines_length {file line : List Char} (h : line ∈ fileLines file) :
    line.length ≤ 127 := by
  obtain ⟨piece, hpiece, rfl⟩ := List.mem_map.mp h
  exact ((List.takeWhile_prefix _).length_le).trans
    (length_le_of_mem_fgetsPieces (by decide) hpiece)

/-- Whatever is in a file, `parseLine` keeps within its words. -/
theorem fileLines_inBounds {file line : List Char} (h : line ∈ fileLines file) :
    ∀ w ∈ parseLineWrites 128 line, w.InBounds 128 :=
  parseLineWrites_inBounds (Nat.lt_succ_of_le (fileLines_length h))

theorem settingsOf_name {pref file : List Char} {l : Setting} (h : l ∈ settingsOf pref file) :
    l.name.length ≤ 127 := by
  obtain ⟨line, hline, hset⟩ := List.mem_filterMap.mp h
  have hlength := fileLines_length hline
  unfold lineSetting at hset
  dsimp only at hset
  split at hset
  · cases hset
    show ((parseLine line).2.getD 0 []).length ≤ 127
    cases hwords : (parseLine line).2 with
    | nil => exact Nat.zero_le 127
    | cons word words =>
      have hmem : word ∈ (parseLine line).2 := by
        rw [hwords]
        exact List.mem_cons_self
      exact (parseLine_length hmem).trans hlength
  · cases hset

/-! ## The values -/

section Fields

variable {K : Type} (fp : Doubles K) {dbExists : List Char → Bool} {command : SdfCommand}
  {timestring : List Char} {entry entries : ℕ}

theorem text_inBounds {room : ℕ} {t : List Char} (h : entry < entries) :
    (FieldWrite.text entry entries room t).InBounds ↔ t.length < room :=
  ⟨fun hin => hin.2, fun hlt => ⟨h, hlt⟩⟩

theorem number_inBounds {size : ℕ} (h : entry < entries) :
    (FieldWrite.number entry entries size).InBounds := ⟨h, le_rfl⟩

theorem data_readData {cd : CdsCdTable K} {value : List Char} (h : entry < entries) :
    (FieldWrite.data entry entries (readData fp cd value)).InBounds ↔
      cd.datatype ≠ .str ∧ isNumber value = true ∨ value.length < 64 := by
  have hnumber : isNumber value = true ↔
      (value.head?.any Char.isDigit = true ∨ value.head? = some '-') := by
    unfold isNumber
    rw [Bool.or_eq_true, decide_eq_true_iff]
  have hchval : ∀ v : K, (FieldWrite.data entry entries (.chval v)).InBounds :=
    fun v => ⟨h, by show 8 ≤ 64; decide⟩
  rw [hnumber]
  unfold readData
  by_cases hstr : cd.datatype = .str ∨
      ¬(value.head?.any Char.isDigit = true ∨ value.head? = some '-')
  · rw [if_pos hstr]
    refine (text_inBounds h).trans ⟨.inr, fun hfits => hfits.resolve_left fun hnum => ?_⟩
    exact hstr.elim hnum.1 fun hno => hno hnum.2
  · obtain ⟨hnum, hdigit⟩ := not_or.mp hstr
    rw [if_neg hstr]
    refine ⟨fun _ => .inl ⟨hnum, not_not.mp hdigit⟩, fun _ => ?_⟩
    split
    · exact hchval _
    · exact hchval _

theorem data_alarmData {value : List Char} (h : entry < entries) :
    (FieldWrite.data entry entries (alarmData fp value)).InBounds ↔
      value.head?.any Char.isDigit = true ∨ value.length < 64 := by
  unfold alarmData
  by_cases hdigit : value.head?.any Char.isDigit = true
  · rw [if_pos hdigit]
    exact ⟨fun _ => .inl hdigit, fun _ => ⟨h, by show 8 ≤ 64; decide⟩⟩
  · rw [if_neg hdigit]
    exact (text_inBounds h).trans ⟨.inr, fun hfits => hfits.resolve_left hdigit⟩

/-! ## The loop over `cdTable` -/

variable [LT K] [DecidableLT K] (htime : timestring.length < 64)
include htime

omit [LT K] [DecidableLT K] in
theorem readErrorWrites_inBounds {l : Setting} {cd : CdsCdTable K} {st : LoadState K} :
    (∀ w ∈ readErrorWrites fp timestring l cd st, w.InBounds) ↔
      st.rderror < sdfErrTsize ∧ cd.chname.length < 64 := by
  have hhex : (Nat.toDigits 16 (fp.toInt (fp.atof l.value)).toNat).length ≤ 8 :=
    Nat.toDigits_length 16 _ 8 (by decide) (fp.toInt (fp.atof l.value)).isLt
  unfold readErrorWrites
  dsimp only
  constructor
  · intro h
    have hname := h _ List.mem_cons_self
    exact ⟨hname.1, hname.2⟩
  · rintro ⟨hentry, hname⟩ w hw
    simp only [List.mem_cons, List.not_mem_nil, or_false] at hw
    rcases hw with rfl | rfl | rfl | rfl | rfl | rfl
    · exact (text_inBounds hentry).mpr hname
    · refine (text_inBounds hentry).mpr ?_
      rw [List.length_append]
      show 2 + _ < 64
      omega
    · exact (text_inBounds hentry).mpr (by decide)
    · exact number_inBounds hentry
    · exact (text_inBounds hentry).mpr (by decide)
    · exact (text_inBounds hentry).mpr htime

variable (command) in
/-- A channel that is given a value has a field for it, and an entry for the error if there is
one. -/
theorem channelWrites_inBounds (l : Setting) (st : LoadState K) {ii : ℕ}
    (hnum : st.chNumP < sdfMaxChans) (hii : ii < sdfMaxTsize) :
    (∀ w ∈ channelWrites fp timestring command l st ii, w.InBounds) ↔
      ((st.tables.cdTable ii).chname = l.name →
        ((st.tables.cdTable ii).datatype ≠ .str ∧ isNumber l.value = true ∨ l.value.length < 64) ∧
        (isOverrange fp (st.tables.cdTable ii) l.value = true →
          st.rderror < sdfErrTsize ∧ l.name.length < 64)) := by
  unfold channelWrites
  dsimp only
  by_cases hname : (st.tables.cdTable ii).chname = l.name
  · rw [if_pos hname]
    constructor
    · intro h _
      rw [List.forall_mem_append, List.forall_mem_append] at h
      obtain ⟨⟨hentry, herror⟩, -⟩ := h
      refine ⟨(data_readData fp hnum).mp (hentry _ (by simp)), fun hover => ?_⟩
      rw [if_pos hover, readErrorWrites_inBounds fp htime, hname] at herror
      exact herror
    · intro h
      obtain ⟨hfits, hover⟩ := h hname
      refine List.forall_mem_append.mpr ⟨List.forall_mem_append.mpr ⟨fun w hw => ?_, ?_⟩, ?_⟩
      · simp only [List.mem_cons, List.not_mem_nil, or_false] at hw
        rcases hw with rfl | rfl
        · exact number_inBounds hnum
        · exact (data_readData fp hnum).mpr hfits
      · split
        · rename_i hif
          exact (readErrorWrites_inBounds fp htime).mpr (hname ▸ hover hif)
        · simp
      · split
        · intro w hw
          simp only [List.mem_cons, List.not_mem_nil, or_false] at hw
          rcases hw with rfl | rfl | rfl
          · exact (data_readData fp hii).mpr hfits
          · exact number_inBounds hii
          · exact number_inBounds hii
        · simp
  · rw [if_neg hname]
    exact ⟨fun _ h => absurd h hname, by simp⟩

theorem channels_inBounds (l : Setting) (st : LoadState K) {n : ℕ}
    (hnum : st.chNumP < sdfMaxChans) (herr : st.rderror ≤ sdfErrTsize) (hn : n ≤ sdfMaxTsize) :
    (∀ w ∈ foldlLog (channelWrites fp timestring command l) (loadChannel fp l) st (List.range n),
        w.InBounds) ↔
      (∀ ii < n, (st.tables.cdTable ii).chname = l.name →
        (st.tables.cdTable ii).datatype ≠ .str ∧ isNumber l.value = true ∨ l.value.length < 64) ∧
      (overrangesBelow fp st.tables l n ≠ 0 → l.name.length < 64) ∧
      st.rderror + overrangesBelow fp st.tables l n ≤ sdfErrTsize := by
  induction n with
  | zero =>
    refine ⟨fun _ => ⟨fun _ hii => absurd hii (Nat.not_lt_zero _), fun h => absurd rfl h, herr⟩,
      fun _ _ hw => nomatch hw⟩
  | succ n ih =>
    have hfilled := filled_loadChannels fp l st n
    have hrd := rderror_loadChannels fp l st n
    have hroom : ((List.range n).foldl (loadChannel fp l) st).chNumP < sdfMaxChans := by
      rw [hfilled.chNumP]
      exact hnum
    have hstep := channelWrites_inBounds fp command htime l
      ((List.range n).foldl (loadChannel fp l) st) hroom hn
    rw [forall_mem_foldlLog] at ih ⊢
    rw [List.range_succ, stepsMeet_append, ih (Nat.le_of_succ_le hn), overrangesBelow_succ]
    unfold StepsMeet
    rw [hstep, hfilled.tables, hrd, Nat.forall_lt_succ_right]
    generalize overrangesBelow fp st.tables l n = m
    by_cases herror : (st.tables.cdTable n).chname = l.name ∧
        isOverrange fp (st.tables.cdTable n) l.value = true
    · rw [if_pos herror]
      constructor
      · rintro ⟨⟨hall, -, -⟩, hstep, -⟩
        obtain ⟨hfits, hover⟩ := hstep herror.1
        obtain ⟨hlt, hname⟩ := hover herror.2
        exact ⟨⟨hall, fun _ => hfits⟩, fun _ => hname, by omega⟩
      · rintro ⟨⟨hall, hfits⟩, hnames, hle⟩
        have hname := hnames (Nat.succ_ne_zero m)
        exact ⟨⟨hall, fun _ => hname, by omega⟩,
          fun h => ⟨hfits h, fun _ => ⟨by omega, hname⟩⟩, trivial⟩
    · rw [if_neg herror, Nat.add_zero]
      constructor
      · rintro ⟨⟨hall, hnames, hle⟩, hstep, -⟩
        exact ⟨⟨hall, fun h => (hstep h).1⟩, hnames, hle⟩
      · rintro ⟨⟨hall, hfits⟩, hnames, hle⟩
        exact ⟨⟨hall, hnames, hle⟩,
          fun h => ⟨hfits h, fun hover => absurd ⟨h, hover⟩ herror⟩, trivial⟩

/-! ## One line -/

omit [LT K] [DecidableLT K] htime in
/-- What is written for a line that is in the table of unknown channels. -/
theorem unknownWrites_inBounds {name : List Char} {st : LoadState K} :
    (∀ w ∈ unknownWrites dbExists name st, w.InBounds) ↔
      (st.chNotFound < sdfErrTsize → name.length < 64) := by
  unfold unknownWrites
  dsimp only
  by_cases hroom : st.chNotFound < sdfErrTsize
  · rw [if_pos hroom]
    constructor
    · exact fun h _ => (h _ List.mem_cons_self).2
    · intro h w hw
      simp only [List.mem_cons, List.not_mem_nil, or_false] at hw
      rcases hw with rfl | rfl | rfl | rfl | rfl | rfl
      · exact (text_inBounds hroom).mpr (h hroom)
      · refine (text_inBounds hroom).mpr ?_
        split <;> decide
      · exact number_inBounds hroom
      · exact (text_inBounds hroom).mpr (by decide)
      · exact (text_inBounds hroom).mpr (by decide)
      · exact number_inBounds hroom
  · rw [if_neg hroom]
    exact ⟨fun _ h => absurd h hroom, fun _ _ hw => nomatch hw⟩

/-- A line fits: its value, the errors that it makes after `rderror` others, and its name if it is
unknown after `chNotFound` others. -/
structure LineFits (s : SdfState K) (rderror chNotFound : ℕ) (l : Setting) : Prop where
  value : ValueFits s l
  errorName : overranges fp s l ≠ 0 → l.name.length < 64
  errors : rderror + overranges fp s l ≤ sdfErrTsize
  unknownName : isCounted s l = false → chNotFound < sdfErrTsize → l.name.length < 64

theorem valueWrites_inBounds {l : Setting} {st : LoadState K} (hnum : st.chNumP < sdfMaxChans)
    (herr : st.rderror ≤ sdfErrTsize) (hsize : st.tables.chNum ≤ sdfMaxTsize) :
    (∀ w ∈ (if isAlarmChannel l.name then
        [.number st.chNumP sdfMaxChans 4, .data st.chNumP sdfMaxChans (alarmData fp l.value)]
      else foldlLog (channelWrites fp timestring command l) (loadChannel fp l)
        (st.setEntry { st.entry with chname := l.name, mask := l.mask })
        (List.range st.tables.chNum)), w.InBounds) ↔
      ValueFits st.tables l ∧ (overranges fp st.tables l ≠ 0 → l.name.length < 64) ∧
        st.rderror + overranges fp st.tables l ≤ sdfErrTsize := by
  rw [overranges_eq]
  unfold ValueFits
  by_cases halarm : isAlarmChannel l.name = true
  · simp only [if_pos halarm]
    constructor
    · intro h
      exact ⟨(data_alarmData fp hnum).mp (h _ (by simp)), fun h => absurd rfl h, herr⟩
    · rintro ⟨hfits, -⟩ w hw
      simp only [List.mem_cons, List.not_mem_nil, or_false] at hw
      rcases hw with rfl | rfl
      · exact number_inBounds hnum
      · exact (data_alarmData fp hnum).mpr hfits
  · simp only [if_neg halarm]
    exact channels_inBounds fp htime l
      (st.setEntry { st.entry with chname := l.name, mask := l.mask }) hnum herr hsize

theorem settingWrites_inBounds {l : Setting} {st : LoadState K} (hnum : st.chNumP < sdfMaxChans)
    (herr : st.rderror ≤ sdfErrTsize) (hsize : st.tables.chNum ≤ sdfMaxTsize)
    (hold : st.entry.chname.length ≤ 128) (hname : l.name.length ≤ 127) :
    (∀ w ∈ settingWrites fp dbExists timestring command st l, w.InBounds) ↔
      LineFits fp st.tables st.rderror st.chNotFound l := by
  have hhead : ∀ w ∈ ([⟨st.chNumP, sdfMaxChans, st.entry.chname.length, 128⟩,
      .text st.chNumP sdfMaxChans 128 l.name, .number st.chNumP sdfMaxChans 4] : List FieldWrite),
      w.InBounds := by
    intro w hw
    simp only [List.mem_cons, List.not_mem_nil, or_false] at hw
    rcases hw with rfl | rfl | rfl
    · exact ⟨hnum, hold⟩
    · exact (text_inBounds hnum).mpr (Nat.lt_succ_of_le hname)
    · exact number_inBounds hnum
  have htail : (∀ w ∈ (if isCounted st.tables l then []
      else unknownWrites dbExists l.name st), w.InBounds) ↔
      (isCounted st.tables l = false → st.chNotFound < sdfErrTsize → l.name.length < 64) := by
    cases isCounted st.tables l with
    | true => exact ⟨fun _ h => (Bool.noConfusion h), fun _ _ hw => nomatch hw⟩
    | false => exact unknownWrites_inBounds.trans ⟨fun h _ => h, fun h => h rfl⟩
  unfold settingWrites
  rw [List.forall_mem_append, List.forall_mem_append, htail,
    valueWrites_inBounds fp htime hnum herr hsize]
  constructor
  · rintro ⟨⟨-, hvalue, herror, herrors⟩, hunknown⟩
    exact ⟨hvalue, herror, herrors, hunknown⟩
  · intro h
    exact ⟨⟨hhead, h.value, h.errorName, h.errors⟩, h.unknownName⟩

/-! ## All lines -/

/-- The settings fit after `rderror` errors and `chNotFound` unknown channels. -/
structure SettingsFitFrom (s : SdfState K) (rderror chNotFound : ℕ) (ls : List Setting) :
    Prop where
  values : ∀ l ∈ ls, ValueFits s l
  errorNames : ∀ l ∈ ls, overranges fp s l ≠ 0 → l.name.length < 64
  errors : rderror + (ls.map (overranges fp s)).sum ≤ sdfErrTsize
  unknownNames : ∀ l ∈ (ls.filter fun l => !isCounted s l).take (sdfErrTsize - chNotFound),
    l.name.length < 64

omit htime in
theorem settingsFitFrom_nil {s : SdfState K} {r n : ℕ} (hr : r ≤ sdfErrTsize) :
    SettingsFitFrom fp s r n [] :=
  ⟨nofun, nofun, hr, by simp⟩

omit htime in
theorem settingsFitFrom_cons {s : SdfState K} {r n : ℕ} {l : Setting} {ls : List Setting} :
    SettingsFitFrom fp s r n (l :: ls) ↔ LineFits fp s r n l ∧
      SettingsFitFrom fp s (r + overranges fp s l) (if isCounted s l then n else n + 1) ls := by
  constructor
  · rintro ⟨hvalues, hnames, herrors, hunknown⟩
    rw [List.map_cons, List.sum_cons] at herrors
    refine ⟨⟨hvalues l List.mem_cons_self, hnames l List.mem_cons_self, by omega, ?_⟩,
      ⟨fun x hx => hvalues x (List.mem_cons_of_mem l hx),
        fun x hx => hnames x (List.mem_cons_of_mem l hx), by omega, ?_⟩⟩
    · intro hl hroom
      refine hunknown l ?_
      obtain ⟨k, hk⟩ : ∃ k, sdfErrTsize - n = k + 1 := ⟨sdfErrTsize - n - 1, by omega⟩
      rw [List.filter_cons_of_pos (by simp [hl]), hk, List.take_succ_cons]
      exact List.mem_cons_self
    · intro x hx
      refine hunknown x ?_
      cases hl : isCounted s l with
      | true =>
        rw [hl] at hx
        rw [List.filter_cons_of_neg (by simp [hl])]
        exact hx
      | false =>
        rw [hl, if_neg Bool.false_ne_true] at hx
        rw [List.filter_cons_of_pos (by simp [hl])]
        cases hk : sdfErrTsize - n with
        | zero =>
          rw [show sdfErrTsize - (n + 1) = 0 by omega] at hx
          cases hx
        | succ k =>
          rw [show sdfErrTsize - (n + 1) = k by omega] at hx
          rw [List.take_succ_cons]
          exact List.mem_cons_of_mem l hx
  · rintro ⟨hline, hvalues, hnames, herrors, hunknown⟩
    refine ⟨List.forall_mem_cons.mpr ⟨hline.value, hvalues⟩,
      List.forall_mem_cons.mpr ⟨hline.errorName, hnames⟩, ?_, ?_⟩
    · rw [List.map_cons, List.sum_cons]
      omega
    · cases hl : isCounted s l with
      | true =>
        rw [hl, if_pos rfl] at hunknown
        rw [List.filter_cons_of_neg (by simp [hl])]
        exact hunknown
      | false =>
        rw [hl, if_neg Bool.false_ne_true] at hunknown
        rw [List.filter_cons_of_pos (by simp [hl])]
        cases hk : sdfErrTsize - n with
        | zero => exact fun x hx => nomatch hx
        | succ k =>
          rw [show sdfErrTsize - (n + 1) = k by omega] at hunknown
          rw [List.take_succ_cons]
          exact List.forall_mem_cons.mpr ⟨hline.unknownName hl (by omega), hunknown⟩

omit htime in
theorem lineFits_congr {s t : SdfState K} (h : SameChannels s t) {r n : ℕ} {l : Setting} :
    LineFits fp t r n l ↔ LineFits fp s r n l := by
  have hvalue : ValueFits t l ↔ ValueFits s l := by
    unfold ValueFits
    rw [h.chNum]
    simp only [h.chname, h.datatype]
  have hover := overranges_congr fp h l
  constructor
  · rintro ⟨hv, hname, herrors, hunknown⟩
    rw [hover] at hname herrors
    rw [h.isCounted] at hunknown
    exact ⟨hvalue.mp hv, hname, herrors, hunknown⟩
  · rintro ⟨hv, hname, herrors, hunknown⟩
    rw [← hover] at hname herrors
    rw [← h.isCounted] at hunknown
    exact ⟨hvalue.mpr hv, hname, herrors, hunknown⟩

omit htime in
/-- The names in `cdTableP` stay as long as they may be. -/
theorem loadSetting_names {l : Setting} {st : LoadState K}
    (hold : ∀ k, (st.cdTableP k).chname.length ≤ 128) (hname : l.name.length ≤ 127) (k : ℕ) :
    ((loadSetting fp dbExists command st l).cdTableP k).chname.length ≤ 128 := by
  have hfilled := filled_lineEntry fp l st
  have htable : (loadSetting fp dbExists command st l).cdTableP = (lineEntry fp l st).cdTableP := by
    rw [loadSetting_eq]
    split <;> rfl
  rw [htable]
  by_cases hk : k = st.chNumP
  · have hentry : (lineEntry fp l st).cdTableP k = (lineEntry fp l st).entry := by
      unfold LoadState.entry
      rw [hfilled.chNumP, hk]
    rw [hentry, hfilled.name]
    omega
  · rw [hfilled.others k hk]
    exact hold k

variable (dbExists) (command) in
theorem settingsWrites_inBounds {s : SdfState K} {ls : List Setting} {st : LoadState K}
    (hs : SameChannels s st.tables) (hsize : s.chNum ≤ sdfMaxTsize)
    (hnum : st.chNumP < sdfMaxChans) (herr : st.rderror ≤ sdfErrTsize)
    (hold : ∀ k, (st.cdTableP k).chname.length ≤ 128) (hnames : ∀ l ∈ ls, l.name.length ≤ 127) :
    (∀ w ∈ settingsWrites fp dbExists timestring command ls st, w.InBounds) ↔
      SettingsFitFrom fp s st.rderror st.chNotFound (settingsRead s ls st.chNumP) := by
  induction ls generalizing st with
  | nil => exact ⟨fun _ => settingsFitFrom_nil fp herr, fun _ _ hw => nomatch hw⟩
  | cons l ls ih =>
    have hname := hnames l List.mem_cons_self
    have hrd : (loadSetting fp dbExists command st l).rderror =
        st.rderror + overranges fp s l := by
      rw [rderror_loadSetting, overranges_congr fp hs]
    have hcounts := loadSetting_counts fp dbExists command hs l
    unfold settingsWrites settingsRead
    dsimp only
    rw [List.forall_mem_append, settingsFitFrom_cons, ← hcounts.1, ← hcounts.2, ← hrd,
      settingWrites_inBounds fp htime hnum herr (hs.chNum.trans_le hsize) (hold _) hname,
      lineFits_congr fp hs]
    refine and_congr_right fun hline => ?_
    have herr' : (loadSetting fp dbExists command st l).rderror ≤ sdfErrTsize := by
      rw [hrd]
      exact hline.errors
    by_cases hfull : sdfMaxChans ≤ (loadSetting fp dbExists command st l).chNumP
    · rw [if_pos hfull, if_pos hfull]
      exact ⟨fun _ => settingsFitFrom_nil fp herr', fun _ _ hw => nomatch hw⟩
    · rw [if_neg hfull, if_neg hfull]
      exact ih (hs.loadSetting l) (not_le.mp hfull) herr' (loadSetting_names fp hold hname)
        fun x hx => hnames x (List.mem_cons_of_mem l hx)

omit htime in
theorem settingsFitFrom_zero {s : SdfState K} {ls : List Setting} :
    SettingsFitFrom fp s 0 0 ls ↔ SettingsFit fp s ls := by
  constructor
  · rintro ⟨hvalues, hnames, herrors, hunknown⟩
    exact ⟨hvalues, hnames, (Nat.zero_add _).symm.trans_le herrors, hunknown⟩
  · rintro ⟨hvalues, hnames, herrors, hunknown⟩
    exact ⟨hvalues, hnames, (Nat.zero_add _).trans_le herrors, hunknown⟩

omit htime in
theorem settingsFit_nil (s : SdfState K) : SettingsFit fp s [] :=
  ⟨nofun, nofun, Nat.zero_le _, by simp⟩

variable (dbExists) (command) in
/-- The reader stays in its buffers if and only if the settings that it reads fit in the tables. -/
theorem reader_inBounds_iff (pref : List Char) (file : Option (List Char)) (st : LoadState K)
    (hsize : st.tables.chNum ≤ sdfMaxTsize)
    (hold : ∀ k, (st.cdTableP k).chname.length < 128) :
    ReaderInBounds fp dbExists timestring pref file command st ↔
      SettingsFit fp st.tables (requestSettings pref file command st.tables) := by
  have hwords : ∀ text ∈ file, ∀ line ∈ fileLines text, ∀ w ∈ parseLineWrites 128 line,
      w.InBounds 128 := fun _ _ _ hline => fileLines_inBounds hline
  have hfields : (∀ w ∈ readConfigWrites fp dbExists timestring pref file command st,
      w.InBounds) ↔ SettingsFit fp st.tables (requestSettings pref file command st.tables) := by
    unfold readConfigWrites requestSettings
    by_cases hreset : command = .reset
    · rw [if_pos hreset, if_pos hreset]
      exact ⟨fun _ => settingsFit_nil fp _, fun _ _ hw => nomatch hw⟩
    · rw [if_neg hreset, if_neg hreset]
      cases file with
      | none => exact ⟨fun _ => settingsFit_nil fp _, fun _ _ hw => nomatch hw⟩
      | some file =>
        have hs : SameChannels st.tables st.start.tables := .refl st.tables
        have hnum : st.start.chNumP < sdfMaxChans := by
          show 0 < sdfMaxChans
          decide
        have hnames : ∀ l ∈ settingsOf pref file, l.name.length ≤ 127 := fun _ hl =>
          settingsOf_name hl
        have hrun := settingsWrites_inBounds fp dbExists command htime hs hsize hnum
          (Nat.zero_le _) (fun k => (hold k).le) hnames
        exact hrun.trans (settingsFitFrom_zero fp)
  exact ⟨fun h => hfields.mp h.fields, fun h => ⟨hwords, hfields.mpr h⟩⟩

end Fields

/-! ## Example files -/

theorem reader_inBounds_mixed :
    ReaderInBounds smallDoubles inFilterDatabase "Oct 5".toList "X1:A".toList
      (some "X1:A_GAIN 1 5.0 1\nX1:A_NAME 1 \"a b\"\nX1:B_GAIN 1 2\n".toList) .loadPartial
      beforeLoad := by
  have hread : requestSettings "X1:A".toList
      (some "X1:A_GAIN 1 5.0 1\nX1:A_NAME 1 \"a b\"\nX1:B_GAIN 1 2\n".toList) .loadPartial
      filterTableState =
        [⟨"X1:A_GAIN".toList, "5.0".toList, ~~~0⟩, ⟨"X1:A_NAME".toList, "a b".toList, 0⟩,
          ⟨"X1:B_GAIN".toList, "2".toList, 0⟩] := by
    decide +kernel
  refine (reader_inBounds_iff smallDoubles inFilterDatabase .loadPartial (by decide) _ _ beforeLoad
    (by decide) (fun _ => Nat.succ_pos 127)).mpr ?_
  rw [show beforeLoad.tables = filterTableState from rfl, hread]
  exact ⟨by decide, by decide, by decide, by decide⟩

/-- A text of 64 characters, for which `strval` has no room. -/
def longValueFile : List Char := "X1:A_NAME 1 ".toList ++ List.replicate 64 'a' ++ ['\n']

theorem longValue_overruns :
    ¬ReaderInBounds smallDoubles inFilterDatabase "Oct 5".toList "X1:A".toList
      (some longValueFile) .loadPartial beforeLoad := by
  intro h
  have hfields := h.fields
  revert hfields
  decide +kernel

end AdvLigoRts.Seq
