import AdvLigoRts.Rcg.Ipcx
import AdvLigoRts.Lib.FallibleLoop

/-!
# What `procIpc` reads of what it wrote

The file of a history of builds is a list of printed entries. `readParams` gives one row for each
of them, and a number for each network that no entry of the network is above.
-/

namespace AdvLigoRts.Rcg

open PvLib

/-! ## Patterns -/

theorem after_append (key value : List Char) : after key (key ++ value) = some value := by
  unfold after
  rw [if_pos (List.isPrefixOf_iff_prefix.mpr (List.prefix_append key value)), List.drop_left]

theorem field_append (key : List Char) {p : Char → Bool} {value : List Char} (hne : value ≠ [])
    (h : ∀ c ∈ value, p c = true) : field key p (key ++ value) = some value := by
  have htake : (value ++ []).takeWhile p = value := takeWhile_append_stop h nofun
  rw [List.append_nil] at htake
  unfold field
  simp only [after_append, htake, if_neg hne]

theorem header_cons (rest : List Char) :
    header ('[' :: rest) =
      if rest.takeWhile isNameChar ≠ [] ∧ (rest.dropWhile isNameChar).head? = some ']' then
        some (rest.takeWhile isNameChar)
      else none := rfl

theorem number_digits (n : ℕ) : number (Nat.toDigits 10 n) = n := Nat.ofDigitChars_ten_toDigits

theorem field_digits (key : List Char) (n : ℕ) :
    field key Char.isDigit (key ++ Nat.toDigits 10 n) = some (Nat.toDigits 10 n) :=
  field_append key Nat.toDigits_ne_nil fun _ hc =>
    Nat.isDigit_of_mem_toDigits (by decide) (by decide) hc

theorem isSpace_of_isNameChar {c : Char} (h : isNameChar c = true) : isSpace c = false := by
  simp only [isSpace, Bool.or_eq_false_iff, beq_eq_false_iff_ne]
  refine ⟨⟨⟨⟨⟨?_, ?_⟩, ?_⟩, ?_⟩, ?_⟩, ?_⟩ <;> rintro rfl <;> exact absurd h (by decide)

theorem newline_notMem {text : List Char} (h : ∀ c ∈ text, isSpace c = false) : '\n' ∉ text :=
  fun hmem => absurd (h _ hmem) (by decide)

variable {name : List Char}

theorem ifoAt_cases (h : ifoAt name = true) :
    ∃ a d rest, name = a :: d :: ':' :: rest ∧ a.isUpper = true ∧ d.isDigit = true := by
  unfold ifoAt at h
  split at h
  · rename_i a d rest
    rw [Bool.and_eq_true] at h
    exact ⟨a, d, rest, rfl, h.1, h.2⟩
  · cases h

theorem ifoAt_of_behindWord {signal : List Char} (h : behindWord name = some signal) :
    ifoAt signal = true := by
  have := List.find?_some h
  rw [Bool.and_eq_true] at this
  exact this.1

/-- A name that starts with the site has no site behind word characters: these end at the
colon. -/
theorem behindWord_of_ifoAt (h : ifoAt name = true) : behindWord name = none := by
  obtain ⟨a, d, rest, rfl, ha, hd⟩ := ifoAt_cases h
  have hword : ∀ c : Char, c.isUpper = true ∨ c.isDigit = true → isWord c = true := by
    intro c hc
    unfold isWord Char.isAlphanum Char.isAlpha
    rcases hc with hc | hc <;> simp [hc]
  have htake : (a :: d :: ':' :: rest).takeWhile isWord = [a, d] := by
    simp [hword a (.inl ha), hword d (.inr hd), show isWord ':' = false by decide]
  have hdu : d.isUpper = false := by
    delta Char.isUpper
    simp only [Char.isDigit, Bool.and_eq_true, decide_eq_true_eq] at hd ⊢
    rw [decide_eq_false_iff_not]
    exact fun hle => absurd (UInt32.le_trans hle.1 hd.2) (by decide)
  unfold behindWord
  rw [htake, List.find?_eq_none]
  have hrange : (List.range [a, d].length).reverse = [1, 0] := rfl
  rw [hrange]
  simp only [List.map_cons, List.map_nil, List.mem_cons, List.not_mem_nil, or_false, List.drop,
    forall_eq_or_imp, forall_eq]
  refine ⟨?_, ?_⟩
  · -- the colon is not a letter
    have hcolon : ifoAt (':' :: rest) = false := by
      unfold ifoAt
      split
      · rename_i heq
        cases heq
        rw [show Char.isUpper ':' = false by decide, Bool.false_and]
      · rfl
    simp [hcolon]
  · have hdigit : ifoAt (d :: ':' :: rest) = false := by
      unfold ifoAt
      split
      · rename_i heq
        cases heq
        rw [hdu, Bool.false_and]
      · rfl
    simp [hdigit]

/-- The entry of a new sender has the name that is looked up, if there is one. -/
theorem partComp_eq (h : partComp name ≠ []) :
    (behindWord name).getD name = partComp name ∧ ifoAt (partComp name) = true := by
  unfold partComp at h ⊢
  split at h
  case isTrue hifo =>
    rw [if_pos hifo, behindWord_of_ifoAt hifo]
    exact ⟨rfl, hifo⟩
  case isFalse hifo =>
    rw [if_neg hifo]
    cases hb : behindWord name with
    | none => simp [hb] at h
    | some signal => exact ⟨rfl, ifoAt_of_behindWord hb⟩

/-! ## The lines of an entry -/

/-- What can be read of an entry: nothing in it ends a line, or keeps one from being read. -/
structure NewEntry.Readable (e : NewEntry) : Prop where
  name_chars : ∀ c ∈ e.name, isNameChar c = true
  name_ifo : ifoAt e.name = true
  host_ne : e.host ≠ []
  host_chars : ∀ c ∈ e.host, isSpace c = false
  model_ne : e.model ≠ []
  model_chars : ∀ c ∈ e.model, isSpace c = false
  theTime_line : '\n' ∉ e.theTime

def NewEntry.row (e : NewEntry) : IpcxData where
  name := e.name
  type := some ('I' :: (ipcxType e.type).take 4)
  rate := some e.rate
  host := some e.host
  num := some e.num
  model := some e.model

/-- The largest number of each network after the entry. -/
def NewEntry.count (e : NewEntry) (targetHost : List Char) (ipcxMaxNum : Fin 4 → ℤ) : Fin 4 → ℤ :=
  if (e.num : ℤ) > ipcxMaxNum e.type ∧ e.On targetHost then
    Function.update ipcxMaxNum e.type (e.num : ℤ)
  else ipcxMaxNum

section Lines

variable {targetHost : List Char} {s : ParamState}

/-- A line that starts with a small `i` is one of an entry. -/
theorem paramLine_data {key value : List Char} (hskip : s.skip = false)
    (hkey : key.head? = some 'i' ∧ key.any isSpace = false)
    (hvalue : ∀ c ∈ value, isSpace c = false) :
    paramLine targetHost s (key ++ value) = dataLine targetHost s (key ++ value) := by
  obtain ⟨hhead, hkey⟩ := hkey
  obtain ⟨rest, rfl⟩ := List.head?_eq_some_iff.mp hhead
  have hany : ('i' :: rest ++ value).any isSpace = false := by
    rw [List.any_eq_false]
    intro c hc
    rcases List.mem_append.mp hc with hc | hc
    · exact List.any_eq_false.mp hkey c hc
    · simp [hvalue c hc]
  have hcomment : ¬(['#'].isPrefixOf ('i' :: rest ++ value) ∨
      "desc=".toList.isPrefixOf ('i' :: rest ++ value)) := by
    simp [List.isPrefixOf]
  have hdefault : ¬"[default]".toList.isPrefixOf ('i' :: rest ++ value) := by
    simp [List.isPrefixOf]
  have hheader : header ('i' :: rest ++ value) = none := rfl
  unfold paramLine
  rw [if_neg hcomment, if_neg (by rw [hany]; simp), if_neg hdefault, hheader]
  simp only [hskip, Bool.false_eq_true, if_false]

theorem paramLine_desc (rest : List Char) :
    paramLine targetHost s ("desc=Automatically generated by IPCx.pm on ".toList ++ rest) =
      .ok s := by
  have hdesc : "desc=".toList.isPrefixOf
      ("desc=Automatically generated by IPCx.pm on ".toList ++ rest) = true := rfl
  unfold paramLine
  rw [if_pos (.inr hdesc)]
  rfl

theorem paramLine_nil : paramLine targetHost s [] = .ok s := rfl

theorem paramLine_header (hifo : ifoAt name = true) (hchars : ∀ c ∈ name, isNameChar c = true) :
    paramLine targetHost s ('[' :: name ++ [']']) =
      .ok { s with skip := false, data := ⟨name, none, none, none, none, none⟩ :: s.data } := by
  have hstop : ∀ c, [']'].head? = some c → isNameChar c = false := by
    intro c hc
    cases hc
    decide
  have htake : (name ++ [']']).takeWhile isNameChar = name := takeWhile_append_stop hchars hstop
  have hdrop : (name ++ [']']).dropWhile isNameChar = [']'] := dropWhile_append_stop hchars hstop
  have hany : ('[' :: name ++ [']']).any isSpace = false := by
    rw [List.any_eq_false]
    intro c hc
    rw [List.cons_append, List.mem_cons, List.mem_append, List.mem_singleton] at hc
    rcases hc with rfl | hc | rfl
    · decide
    · simp [isSpace_of_isNameChar (hchars c hc)]
    · decide
  have hheader : header ('[' :: name ++ [']']) = some name := by
    have hne : name ≠ [] := by
      rintro rfl
      cases hifo
    rw [List.cons_append, header_cons, htake, hdrop, if_pos ⟨hne, rfl⟩]
  obtain ⟨a, d, rest, rfl, -⟩ := ifoAt_cases hifo
  have hdefault : ¬"[default]".toList.isPrefixOf ('[' :: (a :: d :: ':' :: rest) ++ [']']) := by
    simp [List.isPrefixOf]
  have hcomment : ¬(['#'].isPrefixOf ('[' :: (a :: d :: ':' :: rest) ++ [']']) ∨
      "desc=".toList.isPrefixOf ('[' :: (a :: d :: ':' :: rest) ++ [']'])) := by
    simp [List.isPrefixOf]
  unfold paramLine
  rw [if_neg hcomment, if_neg (by rw [hany]; simp), if_neg hdefault, hheader]
  rfl

variable {d : IpcxData} {ds : List IpcxData}

theorem dataLine_type (hdata : s.data = d :: ds) (t : Fin 4) :
    dataLine targetHost s ("ipcType=".toList ++ ipcxType t) =
      .ok { s with
        data := { d with type := some ('I' :: (ipcxType t).take 4) } :: ds, typeIndex := t } := by
  have hfield : field "ipcType=".toList isWord ("ipcType=".toList ++ ipcxType t) =
      some (ipcxType t) := by
    have hword : ∀ t : Fin 4, ipcxType t ≠ [] ∧ (ipcxType t).all isWord = true := by decide
    exact field_append _ (hword t).1 (List.all_eq_true.mp (hword t).2)
  have hindex : typeIndex (ipcxType t) = some t := by
    revert t
    decide
  unfold dataLine ParamState.setData
  rw [hfield]
  simp only [hdata, bind, Except.bind, hindex]
  rfl

theorem dataLine_rate (hdata : s.data = d :: ds) (rate : ℕ) :
    dataLine targetHost s ("ipcRate=".toList ++ Nat.toDigits 10 rate) =
      .ok { s with data := { d with rate := some rate } :: ds } := by
  have htype : field "ipcType=".toList isWord ("ipcRate=".toList ++ Nat.toDigits 10 rate) =
      none := rfl
  unfold dataLine ParamState.setData
  rw [htype, field_digits]
  simp only [hdata, number_digits]

theorem dataLine_host (hdata : s.data = d :: ds) {host : List Char} (hne : host ≠ []) :
    dataLine targetHost s ("ipcHost=".toList ++ host) =
      .ok { s with data := { d with host := some host } :: ds } := by
  have htype : field "ipcType=".toList isWord ("ipcHost=".toList ++ host) = none := rfl
  have hrate : field "ipcRate=".toList Char.isDigit ("ipcHost=".toList ++ host) = none := rfl
  unfold dataLine ParamState.setData
  rw [htype, hrate, field_append _ hne fun _ _ => rfl]
  simp only [hdata]

theorem dataLine_model (hdata : s.data = d :: ds) {model : List Char} (hne : model ≠ []) :
    dataLine targetHost s ("ipcModel=".toList ++ model) =
      .ok { s with data := { d with model := some model } :: ds } := by
  have htype : field "ipcType=".toList isWord ("ipcModel=".toList ++ model) = none := rfl
  have hrate : field "ipcRate=".toList Char.isDigit ("ipcModel=".toList ++ model) = none := rfl
  have hhost : field "ipcHost=".toList (fun _ => true) ("ipcModel=".toList ++ model) = none := rfl
  have hnum : field "ipcNum=".toList Char.isDigit ("ipcModel=".toList ++ model) = none := rfl
  unfold dataLine ParamState.setData
  rw [htype, hrate, hhost, hnum, field_append _ hne fun _ _ => rfl]
  simp only [hdata]

theorem dataLine_num (hdata : s.data = d :: ds) (num : ℕ) :
    dataLine targetHost s ("ipcNum=".toList ++ Nat.toDigits 10 num) =
      .ok { s with
        data := { d with num := some num } :: ds
        ipcxMaxNum :=
          if (num : ℤ) > s.ipcxMaxNum s.typeIndex ∧
              (0 < s.typeIndex ∨ d.host.getD [] = targetHost) then
            Function.update s.ipcxMaxNum s.typeIndex (num : ℤ)
          else s.ipcxMaxNum } := by
  have htype : field "ipcType=".toList isWord ("ipcNum=".toList ++ Nat.toDigits 10 num) =
      none := rfl
  have hrate : field "ipcRate=".toList Char.isDigit ("ipcNum=".toList ++ Nat.toDigits 10 num) =
      none := rfl
  have hhost : field "ipcHost=".toList (fun _ => true)
      ("ipcNum=".toList ++ Nat.toDigits 10 num) = none := rfl
  unfold dataLine ParamState.setData
  rw [htype, hrate, hhost, field_digits]
  simp only [hdata, bind, Except.bind, number_digits, List.head?_cons, Option.bind_some]
  split <;> rfl

end Lines

/-! ## The file -/

variable {e : NewEntry}

theorem NewEntry.Readable.lines_line (h : e.Readable) : ∀ l ∈ e.lines, '\n' ∉ l := by
  have hname := newline_notMem fun c hc => isSpace_of_isNameChar (h.name_chars c hc)
  have hhost := newline_notMem h.host_chars
  have hmodel := newline_notMem h.model_chars
  have hdigits (n : ℕ) : '\n' ∉ Nat.toDigits 10 n := newline_notMem fun c hc =>
    isSpace_of_isDigit (Nat.isDigit_of_mem_toDigits (by decide) (by decide) hc)
  have htype : ∀ t : Fin 4, '\n' ∉ ipcxType t := by decide
  simp [NewEntry.lines, hname, hhost, hmodel, hdigits, htype, h.theTime_line]

theorem getlines_print_append {lines : List (List Char)} (h : ∀ l ∈ lines, '\n' ∉ l)
    (rest : List Char) :
    getlines ((lines.flatMap fun l => l ++ ['\n']) ++ rest) = lines ++ getlines rest := by
  induction lines with
  | nil => rfl
  | cons l ls ih =>
    have hl := getlines_line (h l List.mem_cons_self)
      ((ls.flatMap fun l => l ++ ['\n']) ++ rest)
    rw [ih fun x hx => h x (List.mem_cons_of_mem _ hx)] at hl
    rw [List.flatMap_cons, List.append_assoc, List.append_assoc, List.singleton_append, hl]
    rfl

theorem foldlM_entry (h : e.Readable) (targetHost : List Char) (s : ParamState) :
    e.lines.foldlM (paramLine targetHost) s =
      .ok ⟨false, e.row :: s.data, e.type, e.count targetHost s.ipcxMaxNum⟩ := by
  have hdigits (n : ℕ) : ∀ c ∈ Nat.toDigits 10 n, isSpace c = false := fun c hc =>
    isSpace_of_isDigit (Nat.isDigit_of_mem_toDigits (by decide) (by decide) hc)
  have htypes : ∀ t : Fin 4, (ipcxType t).any isSpace = false := by decide
  have htype : ∀ c ∈ ipcxType e.type, isSpace c = false := isSpace_of_any (htypes e.type)
  unfold NewEntry.lines
  refine (foldlM_cons_of_ok (paramLine_header h.name_ifo h.name_chars)).trans ?_
  refine (foldlM_cons_of_ok ((paramLine_data rfl (by decide) htype).trans
    (dataLine_type rfl e.type))).trans ?_
  refine (foldlM_cons_of_ok ((paramLine_data rfl (by decide) (hdigits e.rate)).trans
    (dataLine_rate rfl e.rate))).trans ?_
  refine (foldlM_cons_of_ok ((paramLine_data rfl (by decide) h.host_chars).trans
    (dataLine_host rfl h.host_ne))).trans ?_
  refine (foldlM_cons_of_ok ((paramLine_data rfl (by decide) h.model_chars).trans
    (dataLine_model rfl h.model_ne))).trans ?_
  refine (foldlM_cons_of_ok ((paramLine_data rfl (by decide) (hdigits e.num)).trans
    (dataLine_num rfl e.num))).trans ?_
  refine (foldlM_cons_of_ok (paramLine_desc e.theTime)).trans ?_
  exact foldlM_cons_of_ok paramLine_nil

def printEntries (es : List NewEntry) : List Char := es.flatMap NewEntry.print

theorem printEntries_append (es es' : List NewEntry) :
    printEntries (es ++ es') = printEntries es ++ printEntries es' := List.flatMap_append

variable {es : List NewEntry}

theorem foldlM_printEntries (h : ∀ e ∈ es, e.Readable) (targetHost : List Char) (s : ParamState) :
    ∃ t, (getlines (printEntries es)).foldlM (paramLine targetHost) s = .ok t ∧
      t.data = (es.map NewEntry.row).reverse ++ s.data ∧
      t.ipcxMaxNum = es.foldl (fun m e => e.count targetHost m) s.ipcxMaxNum := by
  induction es generalizing s with
  | nil => exact ⟨s, rfl, rfl, rfl⟩
  | cons e es ih =>
    have he := h e List.mem_cons_self
    obtain ⟨t, ht, hdata, hmax⟩ := ih (fun x hx => h x (List.mem_cons_of_mem e hx))
      ⟨false, e.row :: s.data, e.type, e.count targetHost s.ipcxMaxNum⟩
    refine ⟨t, ?_, ?_, hmax⟩
    · have hlines : getlines (printEntries (e :: es)) = e.lines ++ getlines (printEntries es) :=
        getlines_print_append he.lines_line (printEntries es)
      rw [hlines, List.foldlM_append, foldlM_entry he]
      exact ht
    · rw [hdata, List.map_cons, List.reverse_cons, List.append_assoc, List.singleton_append]

/-! ## The largest numbers -/

/-- The largest number of each network, or −1. -/
def maxNum (targetHost : List Char) (es : List NewEntry) (t : Fin 4) : ℤ :=
  let m := es.foldl (fun m e => e.count targetHost m) (fun _ => -999)
  if m t = -999 then -1 else m t

/-- What `procIpc` reads of the entries. -/
theorem readParams_printEntries (h : ∀ e ∈ es, e.Readable) (targetHost : List Char) :
    readParams targetHost (printEntries es) =
      .ok (es.map NewEntry.row, maxNum targetHost es) := by
  obtain ⟨t, ht, hdata, hmax⟩ := foldlM_printEntries h targetHost .start
  unfold readParams
  rw [ht]
  simp only [bind, Except.bind, pure, Except.pure, hdata, hmax, ParamState.start, List.append_nil,
    List.reverse_reverse]
  rfl

section Count

variable {targetHost : List Char} {m : Fin 4 → ℤ}

theorem NewEntry.le_count (e : NewEntry) (t : Fin 4) : m t ≤ e.count targetHost m t := by
  unfold NewEntry.count
  split
  case isTrue h =>
    by_cases ht : t = e.type
    · rw [ht, Function.update_self]
      exact h.1.le
    · rw [Function.update_of_ne ht]
  case isFalse => exact le_rfl

theorem NewEntry.num_le_count (h : e.On targetHost) :
    (e.num : ℤ) ≤ e.count targetHost m e.type := by
  unfold NewEntry.count
  split
  case isTrue => rw [Function.update_self]
  case isFalse hlt => exact not_lt.mp fun hgt => hlt ⟨hgt, h⟩

/-- A number is one of the file, or the network had none. -/
theorem NewEntry.count_start (e : NewEntry) (h : ∀ t, m t = -999 ∨ 0 ≤ m t) (t : Fin 4) :
    e.count targetHost m t = -999 ∨ 0 ≤ e.count targetHost m t := by
  unfold NewEntry.count
  split
  case isTrue =>
    by_cases ht : t = e.type
    · rw [ht, Function.update_self]
      exact .inr (Int.natCast_nonneg _)
    · rw [Function.update_of_ne ht]
      exact h t
  case isFalse => exact h t

theorem le_foldl_count (es : List NewEntry) (t : Fin 4) :
    m t ≤ es.foldl (fun m e => e.count targetHost m) m t := by
  induction es generalizing m with
  | nil => exact le_rfl
  | cons e es ih => exact (e.le_count t).trans ih

theorem num_le_foldl_count (he : e ∈ es) (hon : e.On targetHost) :
    (e.num : ℤ) ≤ es.foldl (fun m e => e.count targetHost m) m e.type := by
  induction es generalizing m with
  | nil => cases he
  | cons e' es ih =>
    rcases List.mem_cons.mp he with rfl | he
    · exact (NewEntry.num_le_count hon).trans (le_foldl_count es _)
    · exact ih he

theorem foldl_count_start (es : List NewEntry) (h : ∀ t, m t = -999 ∨ 0 ≤ m t) (t : Fin 4) :
    es.foldl (fun m e => e.count targetHost m) m t = -999 ∨
      0 ≤ es.foldl (fun m e => e.count targetHost m) m t := by
  induction es generalizing m with
  | nil => exact h t
  | cons e es ih => exact ih (e.count_start h)

theorem num_le_maxNum (he : e ∈ es) (hon : e.On targetHost) :
    (e.num : ℤ) ≤ maxNum targetHost es e.type := by
  have hle := num_le_foldl_count (m := fun _ => -999) he hon
  unfold maxNum
  dsimp only
  split <;> omega

theorem neg_one_le_maxNum (es : List NewEntry) (t : Fin 4) : -1 ≤ maxNum targetHost es t := by
  have hstart : es.foldl (fun m e => e.count targetHost m) (fun _ => -999) t = -999 ∨
      0 ≤ es.foldl (fun m e => e.count targetHost m) (fun _ => -999) t :=
    foldl_count_start es (fun _ => .inl rfl) t
  unfold maxNum
  dsimp only
  split <;> omega

end Count

end AdvLigoRts.Rcg
