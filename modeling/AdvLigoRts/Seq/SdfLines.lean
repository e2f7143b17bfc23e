import AdvLigoRts.Seq.Sdf

/-!
# The lines of a settings file

What `parseLine` makes of a line that `writeTable2File` wrote, or of the piece of it that `fgets`
had room for. The words of a line are made of its characters, and no word has a newline or is the
escape for the empty text.
-/

namespace AdvLigoRts.Seq

open PvLib

/-! ## Steps of the loop -/

/-- A character that ends a word outside of quotes. -/
def isBreak (c : Char) : Bool := c == ' ' || c == '\t' || c == '\n'

theorem isBreak_of_isSpace {c : Char} (h : isSpace c = false) : isBreak c = false := by
  simp only [isSpace, isBreak, Bool.or_eq_false_iff] at h ⊢
  exact h.1.1.1

section Steps

variable {ws : List (List Char)} {cur word rest : List Char} {lws : Bool}

theorem parseChars_regular {c : Char} (hc : isBreak c = false) (hq : c ≠ '"' ∨ lws = false) :
    parseChars (c :: rest) ⟨ws, cur, lws, none⟩ =
      parseChars rest ⟨ws, cur ++ [c], false, none⟩ := by
  simp only [isBreak, Bool.or_eq_false_iff, beq_eq_false_iff_ne] at hc
  have hreg : c ≠ '"' ∨ ¬(lws = true) := hq.imp_right fun h => by rw [h]; simp
  rw [parseChars]
  simp only [hc.2, hc.1.1, hc.1.2, or_self, if_false, if_pos hreg]

/-- A word without blanks is read up to what follows. -/
theorem parseChars_word (hword : ∀ c ∈ word, isBreak c = false) :
    parseChars (word ++ rest) ⟨ws, cur, false, none⟩ =
      parseChars rest ⟨ws, cur ++ word, false, none⟩ := by
  induction word generalizing cur with
  | nil => rw [List.nil_append, List.append_nil]
  | cons c cs ih =>
    rw [List.cons_append, parseChars_regular (hword c List.mem_cons_self) (.inr rfl),
      ih fun x hx => hword x (List.mem_cons_of_mem c hx), List.append_assoc]
    rfl

/-- A word after a blank, if it has no quote at its start. -/
theorem parseChars_next_word (hne : word ≠ []) (hword : ∀ c ∈ word, isBreak c = false)
    (hq : word.head? ≠ some '"') :
    parseChars (word ++ rest) ⟨ws, [], true, none⟩ =
      parseChars rest ⟨ws, word, false, none⟩ := by
  obtain ⟨c, cs, rfl⟩ := List.exists_cons_of_ne_nil hne
  have hc : c ≠ '"' := fun heq => hq (by rw [heq]; rfl)
  rw [List.cons_append, parseChars_regular (hword c List.mem_cons_self) (.inl hc),
    parseChars_word fun x hx => hword x (List.mem_cons_of_mem c hx)]
  rfl

theorem parseChars_blank (hwc : ws.length + 1 ≠ 6) :
    parseChars (' ' :: rest) ⟨ws, cur, false, none⟩ =
      parseChars rest ⟨ws ++ [cur], [], true, none⟩ := by
  have hnext : ¬(WordState.next ⟨ws, cur, false, none⟩).wc = 6 := by
    simpa [WordState.next, WordState.wc] using hwc
  rw [parseChars]
  simp only [show ¬(' ' = '\n') by decide, if_false, true_or, if_true, Bool.false_eq_true,
    if_neg hnext]
  rfl

theorem parseChars_blanks :
    parseChars (' ' :: rest) ⟨ws, cur, true, none⟩ = parseChars rest ⟨ws, cur, true, none⟩ := by
  rw [parseChars]
  simp

theorem parseChars_newline (w : WordState) (hw : w.quoted = none) :
    parseChars ('\n' :: rest) w = w := by
  rw [parseChars, hw]
  rfl

theorem parseChars_nil (w : WordState) (hw : w.quoted = none) : parseChars [] w = w := by
  rw [parseChars, hw]
  rfl

theorem parseChars_copy (word : List Char) :
    parseChars (word ++ rest) ⟨ws, cur, lws, some word.length⟩ =
      parseChars rest ⟨ws, cur ++ word, lws, some 0⟩ := by
  induction word generalizing cur with
  | nil => rw [List.nil_append, List.append_nil]; rfl
  | cons c cs ih =>
    rw [List.cons_append, List.length_cons, parseChars]
    dsimp only
    rw [ih, List.append_assoc]
    rfl

/-- The last quote of a line is the one behind the word, if what follows has none. -/
theorem quotedLength_append (hword : '\n' ∉ word) (hrest : '"' ∉ rest) :
    quotedLength (word ++ '"' :: rest) = word.length := by
  have hline : (word ++ '"' :: rest).takeWhile (· ≠ '\n') =
      word ++ '"' :: rest.takeWhile (· ≠ '\n') := by
    rw [List.takeWhile_append_of_pos fun c hc => by
      simpa using fun heq : c = '\n' => hword (heq ▸ hc)]
    rw [List.takeWhile_cons_of_pos (by decide)]
  have hmem : '"' ∈ word ++ '"' :: rest.takeWhile (· ≠ '\n') := by simp
  have hdrop : ((word ++ '"' :: rest.takeWhile (· ≠ '\n')).reverse).dropWhile (· ≠ '"') =
      '"' :: word.reverse := by
    have hrev : (word ++ '"' :: rest.takeWhile (· ≠ '\n')).reverse =
        (rest.takeWhile (· ≠ '\n')).reverse ++ '"' :: word.reverse := by simp
    rw [hrev, List.dropWhile_append_of_pos]
    · rw [List.dropWhile_cons_of_neg (by simp)]
    · intro c hc
      have hin : c ∈ rest := (List.takeWhile_prefix _).subset (List.mem_reverse.mp hc)
      simpa using fun heq : c = '"' => hrest (heq ▸ hin)
  unfold quotedLength
  simp only [hline, if_pos hmem, hdrop, List.length_cons, List.length_reverse,
    Nat.add_sub_cancel]

theorem quotedLength_unclosed (hword : '\n' ∉ word) (hq : '"' ∉ word) :
    quotedLength word = word.length := by
  have hline : (word ++ []).takeWhile (· ≠ '\n') = word :=
    takeWhile_append_stop (fun c hc => by simpa using fun heq : c = '\n' => hword (heq ▸ hc)) nofun
  rw [List.append_nil] at hline
  unfold quotedLength
  simp only [hline, if_neg hq]

theorem parseChars_quote :
    parseChars ('"' :: rest) ⟨ws, [], true, none⟩ =
      parseChars rest ⟨ws, [], true, some (quotedLength rest)⟩ := by
  rw [parseChars]
  simp [show ¬('"' = '\n') by decide]

theorem parseChars_quoted (hword : '\n' ∉ word) (hrest : '"' ∉ rest) (hwc : ws.length + 1 ≠ 6) :
    parseChars ('"' :: word ++ '"' :: rest) ⟨ws, [], true, none⟩ =
      parseChars rest ⟨ws ++ [word], [], true, none⟩ := by
  have hnext : ¬('"' = '\n' ∨ (WordState.next ⟨ws, word, true, some 0⟩).wc = 6) := by
    simpa [WordState.next, WordState.wc] using hwc
  rw [List.cons_append, parseChars_quote, quotedLength_append hword hrest, parseChars_copy,
    List.nil_append, parseChars]
  simp only [if_neg hnext]
  rfl

/-- A word behind a quote that is not closed. -/
theorem parseChars_unclosed (hword : '\n' ∉ word) (hq : '"' ∉ word) :
    parseChars ('"' :: word) ⟨ws, [], true, none⟩ = ⟨ws ++ [word], [], true, none⟩ := by
  have hcopy : parseChars (word ++ []) ⟨ws, [], true, some word.length⟩ =
      parseChars [] ⟨ws, [] ++ word, true, some 0⟩ := parseChars_copy word
  rw [List.append_nil, List.nil_append] at hcopy
  rw [parseChars_quote, quotedLength_unclosed hword hq, hcopy]
  rfl

end Steps

/-! ## Words -/

theorem newline_notMem_take_quotedLength (s : List Char) : '\n' ∉ s.take (quotedLength s) := by
  have hle : quotedLength s ≤ (s.takeWhile (· ≠ '\n')).length := by
    unfold quotedLength
    dsimp only
    split
    · have hlen := ((s.takeWhile (· ≠ '\n')).reverse.dropWhile_suffix (· ≠ '"')).length_le
      rw [List.length_reverse] at hlen
      omega
    · exact le_rfl
  intro hmem
  have hpre : s.take (quotedLength s) <+: s.takeWhile (· ≠ '\n') :=
    List.prefix_of_prefix_length_le (List.take_prefix _ _) (List.takeWhile_prefix _)
      ((List.length_take_le _ _).trans hle)
  have hall := List.all_takeWhile (l := s) (p := (· ≠ '\n'))
  simpa using List.all_eq_true.mp hall _ (hpre.subset hmem)

/-- The words are made of the characters of the line before its newline. -/
theorem parseChars_chars {P : Char → Prop} {s : List Char} {w : WordState}
    (hs : ∀ c ∈ s, c ≠ '\n' → P c) (hwords : ∀ word ∈ w.words, ∀ c ∈ word, P c)
    (hword : ∀ c ∈ w.word, P c) (hquoted : ∀ k, w.quoted = some k → '\n' ∉ s.take k) :
    ∀ word ∈ (parseChars s w).words ++ [(parseChars s w).word], ∀ c ∈ word, P c := by
  have hdone {w : WordState} (hwords : ∀ word ∈ w.words, ∀ c ∈ word, P c)
      (hword : ∀ c ∈ w.word, P c) : ∀ word ∈ w.words ++ [w.word], ∀ c ∈ word, P c := by
    intro word hmem
    rcases List.mem_append.mp hmem with hmem | hmem
    · exact hwords word hmem
    · rw [List.mem_singleton.mp hmem]
      exact hword
  have hnext {w : WordState} (hwords : ∀ word ∈ w.words, ∀ c ∈ word, P c)
      (hword : ∀ c ∈ w.word, P c) : ∀ word ∈ w.next.words, ∀ c ∈ word, P c := hdone hwords hword
  induction s generalizing w with
  | nil =>
    unfold parseChars
    split
    · exact hdone (hnext hwords hword) nofun
    · exact hdone hwords hword
  | cons c s ih =>
    have hrest : ∀ x ∈ s, x ≠ '\n' → P x := fun x hx => hs x (List.mem_cons_of_mem c hx)
    have hsnoc : c ≠ '\n' → ∀ x ∈ w.word ++ [c], P x := by
      intro hc x hx
      rcases List.mem_append.mp hx with hx | hx
      · exact hword x hx
      · rw [List.mem_singleton.mp hx]
        exact hs c List.mem_cons_self hc
    unfold parseChars
    split
    case h_1 k hk =>
      have htake := hquoted (k + 1) hk
      rw [List.take_succ_cons] at htake
      obtain ⟨hc, htake⟩ := not_or.mp (mt List.mem_cons.mpr htake)
      refine ih hrest hwords (hsnoc (Ne.symm hc)) fun j hj => ?_
      cases hj
      exact htake
    case h_2 =>
      split
      · exact hdone (hnext hwords hword) nofun
      · exact ih hrest (hnext hwords hword) nofun nofun
    case h_3 hnone =>
      split
      · exact hdone hwords hword
      · rename_i hc
        split
        · split
          · exact ih hrest hwords hword fun k hk => by rw [hnone] at hk; cases hk
          · split
            · exact hdone (hnext hwords hword) nofun
            · exact ih hrest (hnext hwords hword) nofun nofun
        · split
          · exact ih hrest hwords (hsnoc hc) fun k hk => by
              change w.quoted = some k at hk
              rw [hnone] at hk
              cases hk
          · refine ih hrest hwords hword fun k hk => ?_
            cases hk
            exact newline_notMem_take_quotedLength s

theorem unescape_subset (word : List Char) : unescape word ⊆ word := by
  unfold unescape
  split
  · exact List.nil_subset _
  · exact List.Subset.refl _

theorem unescape_ne (word : List Char) : unescape word ≠ ['\\', '0'] := by
  unfold unescape
  split
  · exact nofun
  · assumption

theorem parseLine_words {line word : List Char} (h : word ∈ (parseLine line).2) :
    (∀ c ∈ word, c ∈ line ∧ c ≠ '\n') ∧ word ≠ ['\\', '0'] := by
  obtain ⟨raw, hraw, rfl⟩ := List.mem_map.mp h
  refine ⟨fun c hc => ?_, unescape_ne raw⟩
  exact parseChars_chars (P := fun c => c ∈ line ∧ c ≠ '\n') (w := .start)
    (fun c hc hne => ⟨hc, hne⟩) (fun _ hword => nomatch hword) (fun _ hc => nomatch hc)
    (fun _ hk => nomatch hk) raw hraw c (unescape_subset raw hc)

theorem parseChars_length {n : ℕ} {s : List Char} {w : WordState}
    (hwords : ∀ word ∈ w.words, word.length ≤ n) (hword : w.word.length + s.length ≤ n) :
    ∀ word ∈ (parseChars s w).words ++ [(parseChars s w).word], word.length ≤ n := by
  have hdone {w : WordState} (hwords : ∀ word ∈ w.words, word.length ≤ n)
      (hword : w.word.length ≤ n) : ∀ word ∈ w.words ++ [w.word], word.length ≤ n :=
    List.forall_mem_append.mpr ⟨hwords, List.forall_mem_singleton.mpr hword⟩
  induction s generalizing w with
  | nil =>
    have hend : w.word.length ≤ n := hword
    unfold parseChars
    split
    · exact hdone (hdone hwords hend) (Nat.zero_le n)
    · exact hdone hwords hend
  | cons c s ih =>
    rw [List.length_cons] at hword
    have hend : w.word.length ≤ n := by omega
    have hnext : ∀ word ∈ w.next.words, word.length ≤ n := hdone hwords hend
    have hempty : w.next.word.length + s.length ≤ n := by
      show 0 + s.length ≤ n
      omega
    have hsnoc : (w.word ++ [c]).length + s.length ≤ n := by
      rw [List.length_append, List.length_singleton]
      omega
    have hkeep : w.word.length + s.length ≤ n := by omega
    unfold parseChars
    split
    case h_1 k _ => exact ih (w := { w with word := w.word ++ [c], quoted := some k }) hwords hsnoc
    case h_2 =>
      split
      · exact hdone hnext (Nat.zero_le n)
      · exact ih hnext hempty
    case h_3 =>
      split
      · exact hdone hwords hend
      · split
        · split
          · exact ih hwords hkeep
          · split
            · exact hdone hnext (Nat.zero_le n)
            · exact ih hnext hempty
        · split
          · exact ih (w := { w with word := w.word ++ [c], lastwasspace := false }) hwords hsnoc
          · exact ih (w := { w with quoted := some (quotedLength s) }) hwords hkeep

theorem parseLine_length {line word : List Char} (h : word ∈ (parseLine line).2) :
    word.length ≤ line.length := by
  obtain ⟨raw, hraw, rfl⟩ := List.mem_map.mp h
  have hlength : raw.length ≤ line.length :=
    parseChars_length (w := .start) (fun _ hmem => nomatch hmem) (Nat.zero_add _).le raw hraw
  unfold unescape
  split
  · exact Nat.zero_le _
  · exact hlength

/-- A line without blanks has one word at most. -/
theorem parseLine_blankless {line : List Char} (h : ∀ c ∈ line, c ≠ ' ' ∧ c ≠ '\t') :
    (parseLine line).1 ≤ 1 := by
  have hwc : ∀ (s cur : List Char), (∀ c ∈ s, c ≠ ' ' ∧ c ≠ '\t') →
      (parseChars s ⟨[], cur, false, none⟩).words = [] := by
    intro s
    induction s with
    | nil => exact fun _ _ => rfl
    | cons c s ih =>
      intro cur hs
      have hrest := fun x hx => hs x (List.mem_cons_of_mem c hx)
      obtain ⟨hblank, htab⟩ := hs c List.mem_cons_self
      by_cases hc : c = '\n'
      · rw [hc, parseChars_newline _ rfl]
      · rw [parseChars_regular (by simp [isBreak, hblank, htab, hc]) (.inr rfl)]
        exact ih _ hrest
  have hwords := hwc line [] h
  unfold parseLine WordState.wc
  dsimp only
  rw [show WordState.start = ⟨[], [], false, none⟩ from rfl, hwords]
  split <;> simp

theorem parseChars_words_prefix (s : List Char) (w : WordState) :
    w.words <+: (parseChars s w).words := by
  induction s generalizing w with
  | nil =>
    unfold parseChars
    split
    · exact List.prefix_append _ _
    · exact List.prefix_refl _
  | cons c s ih =>
    have hnext : w.words <+: w.next.words := List.prefix_append _ _
    unfold parseChars
    split
    case h_1 k _ => exact ih { w with word := w.word ++ [c], quoted := some k }
    case h_2 =>
      split
      · exact hnext
      · exact hnext.trans (ih _)
    case h_3 =>
      split
      · exact List.prefix_refl _
      · split
        · split
          · exact ih w
          · split
            · exact hnext
            · exact hnext.trans (ih _)
        · split
          · exact ih { w with word := w.word ++ [c], lastwasspace := false }
          · exact ih { w with quoted := some (quotedLength s) }

theorem parseChars_first (s cur : List Char) :
    ∃ tail, ((parseChars s ⟨[], cur, false, none⟩).words ++
      [(parseChars s ⟨[], cur, false, none⟩).word]).getD 0 [] = cur ++ tail := by
  induction s generalizing cur with
  | nil => exact ⟨[], by simp [parseChars]⟩
  | cons c s ih =>
    by_cases hc : isBreak c = true
    · simp only [isBreak, Bool.or_eq_true, beq_iff_eq] at hc
      refine ⟨[], ?_⟩
      rw [List.append_nil]
      by_cases hnl : c = '\n'
      · rw [hnl, parseChars_newline _ rfl]
        rfl
      · have hblank : c = ' ' ∨ c = '\t' := hc.resolve_right hnl
        have hstep : parseChars (c :: s) ⟨[], cur, false, none⟩ =
            parseChars s ⟨[cur], [], true, none⟩ := by
          rw [parseChars]
          simp only [if_neg hnl, if_pos hblank, Bool.false_eq_true, if_false]
          rfl
        obtain ⟨ws, hws⟩ := parseChars_words_prefix s ⟨[cur], [], true, none⟩
        rw [hstep, ← hws]
        rfl
    · rw [parseChars_regular (by simpa using hc) (.inr rfl)]
      obtain ⟨tail, htail⟩ := ih (cur ++ [c])
      exact ⟨c :: tail, by rw [htail, List.append_assoc]; rfl⟩

/-! ## Hexadecimal numbers -/

theorem hexDigit_digitChar : ∀ d < 16, hexDigit (Nat.digitChar d) = some d := by decide

theorem hexValue_snoc (digits : List Char) (c : Char) :
    hexValue (digits ++ [c]) = 16 * hexValue digits + (hexDigit c).getD 0 := by
  unfold hexValue
  rw [List.foldl_append]
  rfl

theorem digitChar_of_mem_toDigits {n : ℕ} {c : Char} (h : c ∈ Nat.toDigits 16 n) :
    ∃ d < 16, c = Nat.digitChar d := by
  induction n using Nat.strongRecOn with
  | ind n ih =>
    by_cases hn : n < 16
    · rw [Nat.toDigits_of_lt_base hn, List.mem_singleton] at h
      exact ⟨n, hn, h⟩
    · rw [Nat.toDigits_of_base_le (by decide) (not_lt.mp hn), List.mem_append] at h
      rcases h with h | h
      · exact ih (n / 16) (by omega) h
      · exact ⟨n % 16, Nat.mod_lt n (by decide), List.mem_singleton.mp h⟩

theorem hexValue_toDigits (n : ℕ) : hexValue (Nat.toDigits 16 n) = n := by
  induction n using Nat.strongRecOn with
  | ind n ih =>
    by_cases hn : n < 16
    · rw [Nat.toDigits_of_lt_base hn]
      change 16 * 0 + (hexDigit (Nat.digitChar n)).getD 0 = n
      rw [hexDigit_digitChar n hn, Option.getD_some, Nat.mul_zero, Nat.zero_add]
    · rw [Nat.toDigits_of_base_le (by decide) (not_lt.mp hn), hexValue_snoc, ih (n / 16) (by omega),
        hexDigit_digitChar _ (Nat.mod_lt n (by decide)), Option.getD_some, Nat.div_add_mod]

/-- A mask that was printed is read back. -/
theorem scanHex_toDigits (m : BitVec 32) : scanHex ('0' :: 'x' :: Nat.toDigits 16 m.toNat) = m := by
  obtain ⟨digits, hdigits⟩ : ∃ digits, Nat.toDigits 16 m.toNat = digits := ⟨_, rfl⟩
  have hmem : ∀ c ∈ digits, ∃ d < 16, c = Nat.digitChar d := fun c hc =>
    digitChar_of_mem_toDigits (hdigits ▸ hc)
  have hsome : ∀ c ∈ digits, (hexDigit c).isSome = true := by
    intro c hc
    obtain ⟨d, hd, rfl⟩ := hmem c hc
    rw [hexDigit_digitChar d hd]
    rfl
  have hnone : ∀ c : Char, hexDigit c = none → c ∉ digits := by
    intro c hc hin
    have := hsome c hin
    rw [hc] at this
    cases this
  have hminus : digits.head? ≠ some '-' := fun h => hnone '-' (by decide) (List.mem_of_head? h)
  have hplus : digits.head? ≠ some '+' := fun h => hnone '+' (by decide) (List.mem_of_head? h)
  have htake : digits.takeWhile (fun c => (hexDigit c).isSome) = digits := by
    have h : (digits ++ []).takeWhile (fun c => (hexDigit c).isSome) = digits :=
      takeWhile_append_stop hsome nofun
    rwa [List.append_nil] at h
  have hvalue : hexValue digits = m.toNat := by rw [← hdigits, hexValue_toDigits]
  have hlt := m.isLt
  rw [hdigits]
  unfold scanHex
  dsimp only
  simp only [hminus, hplus, or_self, if_false]
  have hskip : dropHexPrefix digits = digits := by
    unfold dropHexPrefix
    split
    · exact absurd (by simp) (hnone 'x' (by decide))
    · exact absurd (by simp) (hnone 'X' (by decide))
    · rfl
  rw [hskip, htake, hvalue, if_neg (by omega)]
  simp

/-! ## Lines without a setting -/

section NoSetting

variable {pref line : List Char}

theorem lineSetting_eq_none (h : ((parseLine line).2.getD 0 []).take 3 ≠ pref.take 3) :
    lineSetting pref line = none := by
  unfold lineSetting
  exact if_neg fun hall => h hall.1

/-- The site has a colon at its third place, so a line without one is not of the site. -/
theorem lineSetting_eq_none_of_colon (hpref : pref[2]? = some ':') (h : ':' ∉ line) :
    lineSetting pref line = none := by
  refine lineSetting_eq_none fun heq => ?_
  have hcolon : ':' ∈ pref.take 3 := List.mem_of_getElem? (i := 2) (by
    rw [List.getElem?_take_of_lt (by decide), hpref])
  rw [← heq] at hcolon
  have hmem := List.mem_of_mem_take hcolon
  cases hwords : (parseLine line).2 with
  | nil =>
    rw [hwords] at hmem
    cases hmem
  | cons word words =>
    rw [hwords] at hmem
    have hword : word ∈ (parseLine line).2 := by
      rw [hwords]
      exact List.mem_cons_self
    exact h ((parseLine_words hword).1 _ hmem).1

/-- A line whose first word has another character at the third place. -/
theorem lineSetting_eq_none_of_third (hpref : pref[2]? = some ':') {a b c : Char}
    {rest : List Char} (hline : line = a :: b :: c :: rest) (ha : isBreak a = false)
    (hb : isBreak b = false) (hc : isBreak c = false) (hcolon : c ≠ ':') :
    lineSetting pref line = none := by
  refine lineSetting_eq_none fun heq => ?_
  have hthird : (pref.take 3)[2]? = some ':' := by
    rw [List.getElem?_take_of_lt (by decide), hpref]
  obtain ⟨tail, htail⟩ := parseChars_first rest [a, b, c]
  have hstart : parseChars line .start = parseChars rest ⟨[], [a, b, c], false, none⟩ := by
    rw [hline]
    change parseChars (a :: b :: c :: rest) ⟨[], [], false, none⟩ = _
    rw [parseChars_regular ha (.inr rfl), parseChars_regular hb (.inr rfl),
      parseChars_regular hc (.inr rfl)]
    rfl
  have hfirst : (parseLine line).2.getD 0 [] = a :: b :: c :: tail := by
    unfold parseLine
    rw [hstart]
    have hget : ∀ (l : List (List Char)), (l.map unescape).getD 0 [] = unescape (l.getD 0 []) := by
      intro l
      cases l <;> rfl
    have hne : a :: b :: c :: tail ≠ ['\\', '0'] := nofun
    dsimp only
    rw [hget, htail]
    exact if_neg hne
  rw [← heq, hfirst] at hthird
  exact hcolon (Option.some.inj hthird)

theorem lineSetting_eq_none_of_blankless (h : ∀ c ∈ line, c ≠ ' ' ∧ c ≠ '\t') :
    lineSetting pref line = none := by
  have hcount := parseLine_blankless h
  unfold lineSetting
  exact if_neg fun hall => absurd (hall.2.2.trans_le hcount) (by decide)

end NoSetting

/-! ## Lines of channels -/

/-- A text for a value: the value itself, or between quotes. -/
def Encodes (enc v : List Char) : Prop :=
  (enc = v ∧ v ≠ [] ∧ (∀ c ∈ v, isBreak c = false) ∧ v.head? ≠ some '"') ∨
    (enc = '"' :: v ++ ['"'] ∧ '\n' ∉ v)

/-- What `readConfig` uses of a line: the number of words and the words with the name, the value and
the mask. -/
structure LineWords (line : List Char) (argcount : ℕ) (s1 s3 s4 : List Char) : Prop where
  argcount : (parseLine line).1 = argcount
  name : (parseLine line).2.getD 0 [] = s1
  value : (parseLine line).2.getD 2 [] = s3
  mask : (parseLine line).2.getD 3 [] = s4

theorem lineWords_of_parse {line s1 s3 s4 : List Char} {w : WordState} {n : ℕ}
    (hparse : parseChars line .start = w)
    (hn : (if w.wc < 6 ∧ w.word ≠ [] then w.wc + 1 else w.wc) = n)
    (h1 : ((w.words ++ [w.word]).map unescape).getD 0 [] = s1)
    (h3 : ((w.words ++ [w.word]).map unescape).getD 2 [] = s3)
    (h4 : ((w.words ++ [w.word]).map unescape).getD 3 [] = s4) : LineWords line n s1 s3 s4 := by
  have hline : parseLine line = (if w.wc < 6 ∧ w.word ≠ [] then w.wc + 1 else w.wc,
      (w.words ++ [w.word]).map unescape) := by
    rw [← hparse]
    rfl
  constructor <;> rw [hline] <;> assumption

section Channel

variable {name count enc v mon nl : List Char}

/-- A word that is not between quotes. -/
structure PlainWord (word : List Char) : Prop where
  nonempty : word ≠ []
  chars : ∀ c ∈ word, isBreak c = false
  plain : word.head? ≠ some '"'

/-- Only the characters of the list are looked at, not all that there are. -/
instance (priority := high) charsDecidable (p : Char → Prop) [DecidablePred p] (l : List Char) :
    Decidable (∀ c ∈ l, p c) := List.decidableBAll p l

instance (word : List Char) : Decidable (PlainWord word) :=
  decidable_of_iff (word ≠ [] ∧ (∀ c ∈ word, isBreak c = false) ∧ word.head? ≠ some '"')
    ⟨fun h => ⟨h.1, h.2.1, h.2.2⟩, fun h => ⟨h.nonempty, h.chars, h.plain⟩⟩

theorem plainWord_one : PlainWord ['1'] := ⟨by decide, by decide, by decide⟩

theorem parseChars_name (hname : ∀ c ∈ name, isBreak c = false) (hcount : PlainWord count)
    (rest : List Char) :
    parseChars (name ++ (' ' :: count ++ [' ']) ++ rest) .start =
      parseChars rest ⟨[name, count], [], true, none⟩ := by
  have happend : name ++ (' ' :: count ++ [' ']) ++ rest =
      name ++ ' ' :: (count ++ ' ' :: rest) := by simp
  rw [happend]
  change parseChars _ ⟨[], [], false, none⟩ = _
  rw [parseChars_word hname, parseChars_blank (by simp), List.nil_append,
    parseChars_next_word hcount.nonempty hcount.chars hcount.plain, parseChars_blank (by simp)]
  rfl

theorem parseChars_name_one (hname : ∀ c ∈ name, isBreak c = false) (rest : List Char) :
    parseChars (name ++ " 1 ".toList ++ rest) .start =
      parseChars rest ⟨[name, ['1']], [], true, none⟩ := parseChars_name hname plainWord_one rest

theorem parseChars_value (henc : Encodes enc v) {rest : List Char} (hrest : '"' ∉ rest)
    (a o : List Char) :
    parseChars (enc ++ ' ' :: rest) ⟨[a, o], [], true, none⟩ =
      parseChars rest ⟨[a, o, v], [], true, none⟩ := by
  rcases henc with ⟨rfl, hne, hv, hq⟩ | ⟨rfl, hv⟩
  · rw [parseChars_next_word hne hv hq, parseChars_blank (by simp)]
    rfl
  · have hquote : '"' ∉ ' ' :: rest := by simpa using hrest
    rw [List.append_assoc, List.singleton_append, parseChars_quoted hv hquote (by simp),
      parseChars_blanks]
    rfl

theorem parseChars_end (hnl : nl = [] ∨ nl = ['\n']) {w : WordState} (hw : w.quoted = none) :
    parseChars nl w = w := by
  rcases hnl with rfl | rfl
  · exact parseChars_nil w hw
  · exact parseChars_newline w hw

theorem parseChars_mask (hmon : ∀ c ∈ mon, isBreak c = false) (hq : '"' ∉ mon)
    (hnl : nl = [] ∨ nl = ['\n']) (ws : List (List Char)) :
    ∃ lws, parseChars (mon ++ nl) ⟨ws, [], true, none⟩ = ⟨ws, mon, lws, none⟩ := by
  by_cases hne : mon = []
  · subst hne
    exact ⟨true, parseChars_end hnl rfl⟩
  · have hhead : mon.head? ≠ some '"' := fun heq => hq (List.mem_of_head? heq)
    rw [parseChars_next_word hne hmon hhead]
    exact ⟨false, parseChars_end hnl rfl⟩

theorem lineWords_monitor (hname : ∀ c ∈ name, isBreak c = false) (hcount : PlainWord count)
    (henc : Encodes enc v) (hmon : ∀ c ∈ mon, isBreak c = false) (hq : '"' ∉ mon)
    (hnl : nl = [] ∨ nl = ['\n']) :
    LineWords (name ++ (' ' :: count ++ [' ']) ++ enc ++ ' ' :: mon ++ nl)
      (if mon = [] then 3 else 4) (unescape name) (unescape v) (unescape mon) := by
  have hrest : '"' ∉ mon ++ nl := by
    rcases hnl with rfl | rfl <;> simpa using hq
  obtain ⟨lws, hmask⟩ := parseChars_mask hmon hq hnl [name, count, v]
  have hparse : parseChars (name ++ (' ' :: count ++ [' ']) ++ enc ++ ' ' :: mon ++ nl) .start =
      ⟨[name, count, v], mon, lws, none⟩ := by
    rw [List.append_assoc, List.append_assoc _ enc, parseChars_name hname hcount, List.cons_append,
      parseChars_value henc hrest, hmask]
  refine lineWords_of_parse hparse ?_ rfl rfl rfl
  by_cases hempty : mon = [] <;> simp [WordState.wc, hempty]

/-- A line, or a piece of it, that ends behind the value. -/
theorem lineWords_plain (hname : ∀ c ∈ name, isBreak c = false) (hcount : PlainWord count)
    (henc : Encodes enc v) (hnl : nl = [] ∨ nl = ['\n']) :
    LineWords (name ++ (' ' :: count ++ [' ']) ++ enc ++ nl) 3 (unescape name) (unescape v) [] := by
  rcases henc with ⟨rfl, hv, hchars, hq⟩ | ⟨rfl, hv⟩
  · have hparse : parseChars (name ++ (' ' :: count ++ [' ']) ++ enc ++ nl) .start =
        ⟨[name, count], enc, false, none⟩ := by
      rw [List.append_assoc, parseChars_name hname hcount, parseChars_next_word hv hchars hq,
        parseChars_end hnl rfl]
    exact lineWords_of_parse hparse (by simp [WordState.wc, hv]) rfl rfl rfl
  · have hrest : '"' ∉ nl := by
      rcases hnl with rfl | rfl <;> decide
    have hparse : parseChars (name ++ (' ' :: count ++ [' ']) ++ ('"' :: v ++ ['"']) ++ nl) .start =
        ⟨[name, count, v], [], true, none⟩ := by
      rw [List.append_assoc, parseChars_name hname hcount, List.append_assoc, List.singleton_append,
        parseChars_quoted hv hrest (by simp), parseChars_end hnl rfl]
      rfl
    exact lineWords_of_parse hparse rfl rfl rfl rfl

/-- The line of a channel, or a piece of it that reaches into the mask. -/
theorem lineWords_entry (hname : ∀ c ∈ name, isBreak c = false)
    (henc : Encodes enc v) (hmon : ∀ c ∈ mon, isBreak c = false) (hq : '"' ∉ mon)
    (hnl : nl = [] ∨ nl = ['\n']) :
    LineWords (name ++ " 1 ".toList ++ enc ++ ' ' :: mon ++ nl) (if mon = [] then 3 else 4)
      (unescape name) (unescape v) (unescape mon) :=
  lineWords_monitor hname plainWord_one henc hmon hq hnl

/-- A piece that ends behind the value. -/
theorem lineWords_value (hname : ∀ c ∈ name, isBreak c = false)
    (henc : Encodes enc v) :
    LineWords (name ++ " 1 ".toList ++ enc) 3 (unescape name) (unescape v) [] := by
  have hwords := lineWords_plain hname plainWord_one henc (.inl rfl)
  rwa [List.append_nil] at hwords

/-- A piece that ends before the closing quote, of a value without quotes. -/
theorem lineWords_unclosed (hname : ∀ c ∈ name, isBreak c = false)
    (hv : '\n' ∉ v) (hq : '"' ∉ v) :
    LineWords (name ++ " 1 ".toList ++ '"' :: v) 3 (unescape name) (unescape v) [] := by
  have hparse : parseChars (name ++ " 1 ".toList ++ '"' :: v) .start =
      ⟨[name, ['1'], v], [], true, none⟩ := by
    rw [parseChars_name_one hname, parseChars_unclosed hv hq]
    rfl
  exact lineWords_of_parse hparse rfl rfl rfl rfl

/-- A piece that ends before the closing quote, of a value with a quote in it: the value ends at its
last quote. -/
theorem lineWords_inner (hname : ∀ c ∈ name, isBreak c = false) {u r : List Char}
    (hu : '\n' ∉ u) (hr : '"' ∉ r) :
    2 < (parseLine (name ++ " 1 ".toList ++ '"' :: u ++ '"' :: r)).1 ∧
      (parseLine (name ++ " 1 ".toList ++ '"' :: u ++ '"' :: r)).2.getD 0 [] = unescape name ∧
      (parseLine (name ++ " 1 ".toList ++ '"' :: u ++ '"' :: r)).2.getD 2 [] = unescape u := by
  have hparse : parseChars (name ++ " 1 ".toList ++ '"' :: u ++ '"' :: r) .start =
      parseChars r ⟨[name, ['1'], u], [], true, none⟩ := by
    rw [List.append_assoc, parseChars_name_one hname]
    exact parseChars_quoted hu hr (by simp)
  obtain ⟨ws, hws⟩ := parseChars_words_prefix r ⟨[name, ['1'], u], [], true, none⟩
  have hlen : 2 < (parseChars r ⟨[name, ['1'], u], [], true, none⟩).words.length := by
    rw [← hws]
    simp
  have hwords := lineWords_of_parse hparse rfl rfl rfl rfl
  refine ⟨?_, ?_, ?_⟩
  · rw [hwords.argcount]
    unfold WordState.wc
    split <;> omega
  · rw [hwords.name, ← hws]
    rfl
  · rw [hwords.value, ← hws]
    rfl

end Channel

end AdvLigoRts.Seq
