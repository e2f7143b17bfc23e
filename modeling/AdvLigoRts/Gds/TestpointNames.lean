import AdvLigoRts.Gds.TestpointAllOrNothing
import AdvLigoRts.Lib.Tokens
import Mathlib.Data.List.DropRight

/-!
# Test points by name

`tpName2Index`, `requesttpname_1_svc` and `cleartpname_1_svc` of gds/testpoint_server.c. The first
call of `strtok_r` has the comma among its separators, the calls behind it have not. The channel
information is a given map from names to channels.
-/

namespace AdvLigoRts.Gds

open PvLib

def maxTpNames : ℕ := 1000

/-- The separators of the first call of `strtok_r`. -/
def firstSep (c : Char) : Bool := c = ' ' ∨ c = ',' ∨ c = '\t' ∨ c = '\n'

/-- The separators of the other calls of `strtok_r`. -/
def nextSep (c : Char) : Bool := c = ' ' ∨ c = '\t' ∨ c = '\n'

/-- What is used of `gdsChnInfo_t`. -/
structure GdsChnInfo where
  rmId : ℤ
  chNum : ℕ
  tpNum : ℕ

/-- `tpIsValid`: the node and the test point of a channel. -/
def tpIsValid (chn : GdsChnInfo) : Option (ℤ × ℕ) :=
  if 0 < chn.tpNum ∧ tpIdToInterface chn.chNum ≥ 0 then some (chn.rmId, chn.chNum) else none

/-- The test point of a name, if it is one of the node. -/
def tpNumber (gdsChannelInfo : List Char → Option GdsChnInfo) (n : ℤ) (p : List Char) :
    Option ℕ :=
  match gdsChannelInfo p with
  | none => none
  | some chn =>
    match tpIsValid chn with
    | none => none
    | some (tpNode, tp) => if n = tpNode then some tp else none

/-- The loop over the names, from what `strtok_r` has returned. -/
def nameLoop (number : List Char → Option ℕ) (p : Option (List Char × List Char))
    (tps : List ℕ) : List ℕ :=
  match p with
  | none => tps
  | some (name, rest) =>
    if tps.length < maxTpNames then
      nameLoop number (strtok nextSep rest) (tps ++ (number name).toList)
    else tps
termination_by p.elim 0 fun p => p.2.length + 1
decreasing_by
  cases hnext : strtok nextSep rest with
  | none => exact Nat.succ_pos _
  | some next => exact Nat.succ_lt_succ (strtok_length hnext)

/-- `tpName2Index`. There is no list if there is no memory for it. -/
def tpName2Index (memory : Bool) (number : List Char → Option ℕ) (tpNames : List Char) :
    Option (List ℕ) :=
  if memory then some (nameLoop number (strtok firstSep tpNames) []) else none

/-! ## Lists of names -/

/-- A list of names, each with the separators in front of it. -/
abbrev NameList := List (List Char × List Char)

def NameList.text (names : NameList) : List Char := names.flatMap fun p => p.1 ++ p.2

def NameList.numbers (number : List Char → Option ℕ) (names : NameList) : List ℕ :=
  names.filterMap fun p => number p.2

structure NameList.Separated (names : NameList) : Prop where
  seps : ∀ p ∈ names, ∀ c ∈ p.1, firstSep c = true
  between : ∀ p ∈ names.tail, p.1 ≠ []

def NameList.NoCommaTouches (names : NameList) : Prop :=
  (∀ p ∈ (names.drop 1).take 1, p.1.tail.getLast? ≠ some ',') ∧
    ∀ p ∈ names.drop 2, p.1.head? ≠ some ',' ∧ p.1.getLast? ≠ some ','

/-- The names that a map knows have no separators. -/
def NamesOnly (number : List Char → Option ℕ) : Prop :=
  ∀ name, (number name).isSome → name ≠ [] ∧ ∀ c ∈ name, firstSep c = false

variable {number : List Char → Option ℕ} {names qs : NameList} {cur t s y : List Char} {c : Char}

theorem firstSep_of_nextSep (h : nextSep c = true) : firstSep c = true := by
  simp only [nextSep, firstSep, decide_eq_true_eq] at h ⊢
  tauto

theorem nextSep_iff (h : firstSep c = true) : nextSep c = true ↔ c ≠ ',' := by
  simp only [nextSep, firstSep, decide_eq_true_eq] at h ⊢
  constructor
  · rintro (rfl | rfl | rfl) <;> decide
  · tauto

theorem NamesOnly.nextSep_eq_false (h : NamesOnly number) {name : List Char}
    (hknown : (number name).isSome) : ∀ c ∈ name, nextSep c = false := by
  intro c hc
  by_contra hsep
  have := firstSep_of_nextSep (Bool.not_eq_false _ ▸ hsep)
  rw [(h name hknown).2 c hc] at this
  cases this

theorem NamesOnly.none_of_mem (h : NamesOnly number) {name : List Char} (hc : c ∈ name)
    (hsep : firstSep c = true) : number name = none := by
  by_contra hsome
  have := (h name (Option.isSome_iff_ne_none.mpr hsome)).2 c hc
  rw [hsep] at this
  cases this

theorem NamesOnly.none_nil (h : NamesOnly number) : number [] = none := by
  by_contra hsome
  exact (h [] (Option.isSome_iff_ne_none.mpr hsome)).1 rfl

/-- Separators are no name. -/
theorem NamesOnly.none_seps (h : NamesOnly number) (hs : ∀ c ∈ s, firstSep c = true) :
    number s = none := by
  cases s with
  | nil => exact h.none_nil
  | cons c s => exact h.none_of_mem List.mem_cons_self (hs c List.mem_cons_self)

/-! ## What the loop finds -/

/-- The test points of the names that the calls behind the first one find. -/
def found (number : List Char → Option ℕ) (text : List Char) : List ℕ :=
  (tokens nextSep text).filterMap number

theorem nameLoop_eq_take (text : List Char) (tps : List ℕ) (hlen : tps.length ≤ maxTpNames) :
    nameLoop number (strtok nextSep text) tps = (tps ++ found number text).take maxTpNames := by
  induction hn : text.length using Nat.strong_induction_on generalizing text tps with
  | _ n ih =>
    rw [nameLoop.eq_def, found, tokens_eq]
    cases hnext : strtok nextSep text with
    | none =>
      simp only [List.filterMap_nil, List.append_nil]
      exact (List.take_of_length_le hlen).symm
    | some next =>
      obtain ⟨name, rest⟩ := next
      dsimp only
      split
      case isTrue hlt =>
        have hmore : (tps ++ (number name).toList).length ≤ maxTpNames := by
          rw [List.length_append]
          have := Option.length_toList_le (o := number name)
          omega
        rw [ih _ (hn ▸ strtok_length hnext) rest _ hmore rfl, List.append_assoc, found]
        rw [List.filterMap_cons]
        cases number name <;> rfl
      case isFalse hge =>
        have heq : tps.length = maxTpNames := by omega
        rw [← heq, List.take_left']
        rfl

theorem found_token (h : NamesOnly number) (ht : ∀ c ∈ t, nextSep c = false)
    (hc : nextSep c = true) : found number (t ++ c :: y) = (number t).toList ++ found number y := by
  unfold found
  cases t with
  | nil =>
    rw [List.nil_append, tokens_sep hc, h.none_nil]
    rfl
  | cons a t =>
    rw [tokens_word (List.cons_ne_nil a t) ht hc, List.filterMap_cons]
    cases number (a :: t) <;> rfl

theorem found_last (h : NamesOnly number) (ht : ∀ c ∈ t, nextSep c = false) :
    found number t = (number t).toList := by
  unfold found
  cases t with
  | nil =>
    rw [tokens_nil, h.none_nil]
    rfl
  | cons a t =>
    rw [tokens_last (List.cons_ne_nil a t) ht, List.filterMap_cons]
    cases number (a :: t) <;> rfl

/-- The commas at the beginning of separators. -/
def leadingCommas (s : List Char) : List Char := s.takeWhile fun c => !nextSep c

/-- The commas at the end of separators. -/
def trailingCommas (s : List Char) : List Char := s.rtakeWhile fun c => !nextSep c

/-- Separators whose last one ends a token: a name before them goes on with their leading commas,
and what else is between them is no name. -/
theorem found_seps (h : NamesOnly number) (hcur : ∀ c ∈ cur, nextSep c = false)
    (hs : ∀ c ∈ s, firstSep c = true) (hne : s ≠ []) (hlast : nextSep (s.getLast hne) = true) :
    found number (cur ++ s ++ y) =
      (number (cur ++ leadingCommas s)).toList ++ found number y := by
  induction s generalizing cur with
  | nil => exact absurd rfl hne
  | cons c s ih =>
    have hs' : ∀ a ∈ s, firstSep a = true := fun a ha => hs a (List.mem_cons_of_mem c ha)
    unfold leadingCommas
    cases hc : nextSep c with
    | true =>
      rw [List.takeWhile_cons, hc, Bool.not_true, if_neg Bool.false_ne_true, List.append_nil,
        List.append_assoc, List.cons_append, found_token h hcur hc]
      by_cases hnil : s = []
      · rw [hnil, List.nil_append]
      · have hrest := @ih [] (by simp) hs' hnil (by rwa [List.getLast_cons hnil] at hlast)
        have hnone : number (leadingCommas s) = none :=
          h.none_seps fun a ha => hs' a ((List.takeWhile_sublist _).subset ha)
        rw [List.nil_append, List.nil_append, hnone] at hrest
        rw [hrest]
        rfl
    | false =>
      have hnil : s ≠ [] := by
        rintro rfl
        rw [List.getLast_singleton, hc] at hlast
        cases hlast
      have hcur' : ∀ a ∈ cur ++ [c], nextSep a = false := by
        intro a ha
        rcases List.mem_append.mp ha with ha | ha
        · exact hcur a ha
        · rw [List.mem_singleton.mp ha, hc]
      have hrest := ih hcur' hs' hnil (by rwa [List.getLast_cons hnil] at hlast)
      rw [List.append_assoc cur [c] s, List.singleton_append] at hrest
      rw [hrest, List.takeWhile_cons, hc, Bool.not_false, if_pos rfl, leadingCommas,
        List.append_assoc, List.singleton_append]

/-- The test points that are found in a list of names, behind what is read of a token. -/
def hits (number : List Char → Option ℕ) (cur : List Char) : NameList → List ℕ
  | [] => (number cur).toList
  | (s, name) :: qs =>
    if s.any nextSep then
      (number (cur ++ leadingCommas s)).toList ++ hits number (trailingCommas s ++ name) qs
    else hits number (cur ++ s ++ name) qs

theorem nextSep_eq_false_trailing : ∀ c ∈ trailingCommas s, nextSep c = false := by
  intro c hc
  have := List.mem_rtakeWhile_imp hc
  simpa using this

theorem found_text (h : NamesOnly number) (hcur : ∀ c ∈ cur, nextSep c = false)
    (hs : ∀ p ∈ qs, ∀ c ∈ p.1, firstSep c = true) (hknown : ∀ p ∈ qs, (number p.2).isSome) :
    found number (cur ++ NameList.text qs) = hits number cur qs := by
  induction qs generalizing cur with
  | nil => rw [NameList.text, List.flatMap_nil, List.append_nil, found_last h hcur, hits]
  | cons q qs ih =>
    obtain ⟨s, name⟩ := q
    have hs₀ := hs (s, name) List.mem_cons_self
    have hname := h.nextSep_eq_false (hknown (s, name) List.mem_cons_self)
    have hs' := fun p hp => hs p (List.mem_cons_of_mem (s, name) hp)
    have hknown' := fun p hp => hknown p (List.mem_cons_of_mem (s, name) hp)
    have htext : NameList.text ((s, name) :: qs) = s ++ name ++ NameList.text qs :=
      List.flatMap_cons
    rw [htext, hits]
    split
    case isTrue hany =>
      -- up to the trailing commas, the separators end with one that ends a token
      have hsplit : s.rdropWhile (fun c => !nextSep c) ++ trailingCommas s = s :=
        List.rdropWhile_append_rtakeWhile
      have hne : s.rdropWhile (fun c => !nextSep c) ≠ [] := by
        rw [Ne, List.rdropWhile_eq_nil_iff]
        obtain ⟨c, hc, hsep⟩ := List.any_eq_true.mp hany
        intro hall
        have := hall c hc
        simp [hsep] at this
      have hlast : nextSep ((s.rdropWhile fun c => !nextSep c).getLast hne) = true := by
        simpa using List.rdropWhile_last_not _ _ hne
      have hlead : leadingCommas (s.rdropWhile fun c => !nextSep c) = leadingCommas s := by
        conv_rhs => rw [← hsplit, leadingCommas, List.takeWhile_append]
        rw [if_neg, leadingCommas]
        intro hlen
        have hself := (List.takeWhile_sublist _).eq_of_length hlen
        have hall := List.takeWhile_eq_self_iff.mp hself _ (List.getLast_mem hne)
        simp [hlast] at hall
      have hfirst := found_seps (y := trailingCommas s ++ name ++ NameList.text qs) h hcur
        (fun c hc => hs₀ c ((List.rdropWhile_prefix _ _).subset hc)) hne hlast
      have hrest := @ih (trailingCommas s ++ name) (by
        intro c hc
        rcases List.mem_append.mp hc with hc | hc
        · exact nextSep_eq_false_trailing c hc
        · exact hname c hc) hs' hknown'
      rw [hlead, hrest] at hfirst
      rw [← hfirst]
      congr 1
      conv_lhs => rw [← hsplit]
      simp only [List.append_assoc]
    case isFalse hany =>
      have hnone : ∀ c ∈ s, nextSep c = false := by
        simpa using hany
      have hrest := @ih (cur ++ s ++ name) (by
        intro c hc
        rw [List.mem_append, List.mem_append] at hc
        rcases hc with (hc | hc) | hc
        · exact hcur c hc
        · exact hnone c hc
        · exact hname c hc) hs' hknown'
      rw [← hrest]
      simp only [List.append_assoc]

/-! ## When all names are found -/

section Hits

variable {name : List Char}

theorem head_ne_comma_iff (hs : ∀ c ∈ s, firstSep c = true) :
    s.head? ≠ some ',' ↔ leadingCommas s = [] := by
  cases s with
  | nil => simp [leadingCommas]
  | cons c s =>
    have hc := nextSep_iff (hs c List.mem_cons_self)
    rw [List.head?_cons, Ne, Option.some.injEq, ← Ne, ← hc, leadingCommas, List.takeWhile_cons]
    cases nextSep c <;> simp

theorem getLast_ne_comma_iff (hs : ∀ c ∈ s, firstSep c = true) :
    s.getLast? ≠ some ',' ↔ trailingCommas s = [] := by
  unfold trailingCommas
  rw [List.rtakeWhile_eq_nil_iff]
  by_cases hne : s = []
  · simp [hne]
  · have hlast := nextSep_iff (hs _ (List.getLast_mem hne))
    rw [List.getLast?_eq_getLast_of_ne_nil hne, Ne, Option.some.injEq, ← Ne, ← hlast]
    simp [hne]

theorem NamesOnly.none_leading (h : NamesOnly number) (hs : ∀ c ∈ s, firstSep c = true)
    (hlead : leadingCommas s ≠ []) : number (cur ++ leadingCommas s) = none := by
  obtain ⟨c, hc⟩ := List.exists_mem_of_ne_nil _ hlead
  exact h.none_of_mem (List.mem_append_right cur hc) (hs c ((List.takeWhile_sublist _).subset hc))

theorem NamesOnly.none_trailing (h : NamesOnly number) (hs : ∀ c ∈ s, firstSep c = true)
    (htrail : trailingCommas s ≠ []) : number (trailingCommas s ++ name) = none := by
  obtain ⟨c, hc⟩ := List.exists_mem_of_ne_nil _ htrail
  exact h.none_of_mem (List.mem_append_left name hc)
    (hs c ((List.rtakeWhile_suffix _ _).subset hc))

theorem length_hits_le (h : NamesOnly number) (hs : ∀ p ∈ qs, ∀ c ∈ p.1, firstSep c = true) :
    (hits number cur qs).length ≤ (number cur).toList.length + qs.length := by
  induction qs generalizing cur with
  | nil => exact le_rfl
  | cons q qs ih =>
    obtain ⟨s, name⟩ := q
    have hs' := fun p hp => hs p (List.mem_cons_of_mem (s, name) hp)
    rw [hits, List.length_cons]
    split
    case isTrue =>
      have hrest := @ih (trailingCommas s ++ name) hs'
      have hone := Option.length_toList_le (o := number (trailingCommas s ++ name))
      have hfirst : (number (cur ++ leadingCommas s)).toList.length ≤
          (number cur).toList.length := by
        by_cases hlead : leadingCommas s = []
        · rw [hlead, List.append_nil]
        · rw [h.none_leading (hs (s, name) List.mem_cons_self) hlead]
          exact Nat.zero_le _
      rw [List.length_append]
      omega
    case isFalse =>
      have hrest := @ih (cur ++ s ++ name) hs'
      have hone := Option.length_toList_le (o := number (cur ++ s ++ name))
      omega

theorem numbers_cons : NameList.numbers number ((s, name) :: qs) =
    (number name).toList ++ NameList.numbers number qs := by
  rw [NameList.numbers, List.filterMap_cons]
  cases number name <;> rfl

theorem length_numbers (hknown : ∀ p ∈ qs, (number p.2).isSome) :
    (NameList.numbers number qs).length = qs.length := by
  rw [NameList.numbers, List.length_filterMap_eq_countP, List.countP_eq_length]
  exact hknown

theorem hits_known_iff (h : NamesOnly number) (hs : ∀ p ∈ qs, ∀ c ∈ p.1, firstSep c = true)
    (hbetween : ∀ p ∈ qs, p.1 ≠ []) (hknown : ∀ p ∈ qs, (number p.2).isSome)
    (hcur : (number cur).isSome) :
    hits number cur qs = (number cur).toList ++ NameList.numbers number qs ↔
      ∀ p ∈ qs, p.1.head? ≠ some ',' ∧ p.1.getLast? ≠ some ',' := by
  induction qs generalizing cur with
  | nil => simp [hits, NameList.numbers]
  | cons q qs ih =>
    obtain ⟨s, name⟩ := q
    have hs₀ : ∀ c ∈ s, firstSep c = true := hs (s, name) List.mem_cons_self
    have hne : s ≠ [] := hbetween (s, name) List.mem_cons_self
    have hname : (number name).isSome := hknown (s, name) List.mem_cons_self
    have hs' := fun p hp => hs p (List.mem_cons_of_mem (s, name) hp)
    have hknown' := fun p hp => hknown p (List.mem_cons_of_mem (s, name) hp)
    have hrest := ih hs' (fun p hp => hbetween p (List.mem_cons_of_mem (s, name) hp)) hknown' hname
    have hlen := length_numbers hknown
    have hone := Option.length_toList_eq_one_iff.mpr hcur
    rw [List.forall_mem_cons, head_ne_comma_iff hs₀, getLast_ne_comma_iff hs₀, ← hrest]
    have hshort : ∀ l : List ℕ, l.length ≤ qs.length + 1 →
        l ≠ (number cur).toList ++ NameList.numbers number ((s, name) :: qs) := by
      intro l hl heq
      have := congrArg List.length heq
      rw [List.length_append, hone, hlen, List.length_cons] at this
      omega
    rw [hits]
    split
    case isTrue =>
      have hle := @length_hits_le _ _ (trailingCommas s ++ name) h hs'
      by_cases hlead : leadingCommas s = []
      · by_cases htrail : trailingCommas s = []
        · rw [hlead, htrail, List.append_nil, List.nil_append, List.append_cancel_left_eq,
            numbers_cons]
          simp
        · rw [h.none_trailing hs₀ htrail] at hle
          simp only [htrail, and_false, false_and, iff_false]
          apply hshort
          rw [List.length_append, hlead, List.append_nil, hone]
          simp only [Option.toList_none, List.length_nil] at hle
          omega
      · simp only [hlead, false_and, iff_false]
        apply hshort
        have hname₁ := Option.length_toList_le (o := number (trailingCommas s ++ name))
        rw [h.none_leading hs₀ hlead, Option.toList_none, List.nil_append]
        omega
    case isFalse hany =>
      -- the separators are commas, and the name goes on
      have hlead : leadingCommas s ≠ [] := by
        rw [leadingCommas, List.takeWhile_eq_self_iff.mpr (by simpa using hany)]
        exact hne
      have hle := @length_hits_le _ _ (cur ++ s ++ name) h hs'
      have hname₁ := Option.length_toList_le (o := number (cur ++ s ++ name))
      simp only [hlead, false_and, iff_false]
      apply hshort
      omega

/-- Behind the end of a token, all names are found if no comma touches a name, up to the first
separators. -/
theorem hits_start_iff (h : NamesOnly number) (hs₀ : ∀ c ∈ s, firstSep c = true)
    (hs : ∀ p ∈ qs, ∀ c ∈ p.1, firstSep c = true) (hbetween : ∀ p ∈ qs, p.1 ≠ [])
    (hknown : ∀ p ∈ qs, (number p.2).isSome) (hname : (number name).isSome) :
    hits number [] ((s, name) :: qs) =
        (number name).toList ++ NameList.numbers number qs ↔
      s.getLast? ≠ some ',' ∧ ∀ p ∈ qs, p.1.head? ≠ some ',' ∧ p.1.getLast? ≠ some ',' := by
  have hhits : hits number [] ((s, name) :: qs) = hits number (trailingCommas s ++ name) qs := by
    rw [hits]
    split
    case isTrue =>
      have hnone : number ([] ++ leadingCommas s) = none :=
        h.none_seps fun c hc => hs₀ c ((List.takeWhile_sublist _).subset hc)
      rw [hnone]
      rfl
    case isFalse hany =>
      rw [trailingCommas, List.rtakeWhile_eq_self_iff.mpr (by simpa using hany), List.nil_append]
  rw [hhits, getLast_ne_comma_iff hs₀, ← hits_known_iff h hs hbetween hknown hname]
  by_cases htrail : trailingCommas s = []
  · simp [htrail]
  · simp only [htrail, false_and, iff_false]
    intro heq
    have hle := @length_hits_le _ _ (trailingCommas s ++ name) h hs
    have hlen := congrArg List.length heq
    rw [h.none_trailing hs₀ htrail, Option.toList_none, List.length_nil] at hle
    rw [List.length_append, Option.length_toList_eq_one_iff.mpr hname,
      length_numbers hknown] at hlen
    omega

end Hits

theorem nameLoop_text_iff (h : NamesOnly number) (hsep : names.Separated)
    (hlen : names.length ≤ maxTpNames) (hknown : ∀ p ∈ names, (number p.2).isSome) :
    nameLoop number (strtok firstSep names.text) [] = names.numbers number ↔
      names.NoCommaTouches := by
  match names with
  | [] => simp [NameList.text, NameList.numbers, strtok_nil, nameLoop, NameList.NoCommaTouches]
  | (pre, first) :: qs =>
    have hpre := strtok_seps (hsep.seps (pre, first) List.mem_cons_self)
    have hfirst : (number first).isSome := hknown (pre, first) List.mem_cons_self
    obtain ⟨hne, hword⟩ := h first hfirst
    have hmax : 0 < maxTpNames := by decide
    rw [NameList.text, List.flatMap_cons, List.append_assoc, hpre, numbers_cons]
    match qs with
    | [] =>
      rw [List.flatMap_nil, List.append_nil, strtok_last hne hword, nameLoop.eq_def]
      simp [strtok_nil, nameLoop, hmax, NameList.numbers, NameList.NoCommaTouches]
    | (s, name) :: qs =>
      have hseps : ∀ p ∈ (s, name) :: qs, ∀ c ∈ p.1, firstSep c = true := fun p hp =>
        hsep.seps p (List.mem_cons_of_mem (pre, first) hp)
      have hbetween : ∀ p ∈ (s, name) :: qs, p.1 ≠ [] := hsep.between
      have hknown' : ∀ p ∈ (s, name) :: qs, (number p.2).isSome := fun p hp =>
        hknown p (List.mem_cons_of_mem (pre, first) hp)
      obtain ⟨c, s, rfl⟩ := List.exists_cons_of_ne_nil (hbetween (s, name) List.mem_cons_self)
      have hc : firstSep c = true := hseps (c :: s, name) List.mem_cons_self c List.mem_cons_self
      have hs : ∀ a ∈ s, firstSep a = true := fun a ha =>
        hseps (c :: s, name) List.mem_cons_self a (List.mem_cons_of_mem c ha)
      have hseps' := fun p hp => hseps p (List.mem_cons_of_mem (c :: s, name) hp)
      have hname : (number name).isSome := hknown' (c :: s, name) List.mem_cons_self
      -- the first separator ends the first token, whatever it is
      have hrest : found number (s ++ name ++ NameList.text qs) =
          hits number [] ((s, name) :: qs) := by
        have := @found_text _ ((s, name) :: qs) [] h (by simp)
          (List.forall_mem_cons.mpr ⟨hs, hseps'⟩)
          (List.forall_mem_cons.mpr ⟨hname, (List.forall_mem_cons.mp hknown').2⟩)
        rw [← this, NameList.text, NameList.text, List.flatMap_cons, List.nil_append]
      have hle := @length_hits_le _ ((s, name) :: qs) [] h
        (List.forall_mem_cons.mpr ⟨hs, hseps'⟩)
      have hiff := hits_start_iff h hs hseps' (List.forall_mem_cons.mp hbetween).2
        (List.forall_mem_cons.mp hknown').2 hname
      have hone := Option.length_toList_eq_one_iff.mpr hfirst
      rw [List.flatMap_cons, List.cons_append, List.cons_append, strtok_word hne hword hc,
        nameLoop.eq_def]
      dsimp only
      rw [List.length_nil, if_pos hmax, List.nil_append, nameLoop_eq_take _ _ (by omega),
        ← NameList.text, hrest, List.take_of_length_le, List.append_cancel_left_eq, numbers_cons,
        hiff]
      · simp [NameList.NoCommaTouches]
      · rw [h.none_nil, Option.toList_none, List.length_nil, List.length_cons] at hle
        rw [List.length_append, hone]
        simp only [List.length_cons] at hlen
        omega

end AdvLigoRts.Gds
