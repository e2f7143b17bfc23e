import AdvLigoRts.Drv.FmReadCoeff
import Mathlib.Data.List.Forall2

/-!
# The form of a coefficient file

`Defines` says what filters a file defines: each has a line of 12 words and a line of 4 words for
each further section. `DefinesSoFar` reads the same lines one after the other and counts the lines
that are still missing of the last filter.
-/

namespace AdvLigoRts.Drv

/-- A filter as a file defines it. -/
structure FilterDef (K : Type) where
  name : List Char
  num : ℕ
  sType : ℤ
  filtSections : ℕ
  ramp : ℤ
  timeout : ℤ
  filtName : List Char
  coeffs : List K

section Grammar

variable {K : Type} (strtod : List Char → K × List Char) (own : List Char → Prop) (most : ℕ)

def wordLines (lines : List (List Char)) : List (List (List Char)) :=
  (lines.filter infoLine).map lineTok

/-- The `n` words from the word `first` on are the numbers `row`. -/
def Numbers (tok : List (List Char)) (first n : ℕ) (row : List K) : Prop :=
  ((List.range n).mapM fun i => doubleToken strtod (tok.getD (first + i) [])) = some row

instance [DecidableEq K] (tok : List (List Char)) (first n : ℕ) (row : List K) :
    Decidable (Numbers strtod tok first n row) :=
  inferInstanceAs (Decidable (_ = some row))

/-- The line on which a filter starts, in a build for up to `most` sections. -/
structure HeadLine (tok : List (List Char)) (d : FilterDef K) : Prop where
  words : maxTokens ≤ tok.length
  name : tok.getD 0 [] = d.name
  num : intToken (tok.getD 1 []) = some (d.num : ℤ)
  num_le : d.num ≤ 9
  sType : intToken (tok.getD 2 []) = some d.sType
  switching : (11 ≤ d.sType ∧ d.sType ≤ 14) ∨ (21 ≤ d.sType ∧ d.sType ≤ 24)
  filtSections : intToken (tok.getD 3 []) = some (d.filtSections : ℤ)
  pos : 1 ≤ d.filtSections
  le_most : d.filtSections ≤ most
  ramp : intToken (tok.getD 4 []) = some d.ramp
  ramp_nonneg : 0 ≤ d.ramp
  timeout : intToken (tok.getD 5 []) = some d.timeout
  timeout_nonneg : 0 ≤ d.timeout
  filtName : tok.getD 6 [] = d.filtName
  filtName_le : d.filtName.length ≤ 31
  coeffs : Numbers strtod tok 7 5 d.coeffs

/-- A line with a further section of a filter of the module `name`. -/
structure ContLine (name : List Char) (tok : List (List Char)) (row : List K) : Prop where
  words : 4 ≤ tok.length
  numbers : own name → Numbers strtod tok 0 4 row
  unread : ¬own name → row = []

/-- The definition with the numbers of further sections. -/
def FilterDef.extend (d : FilterDef K) (row : List K) : FilterDef K :=
  { d with coeffs := d.coeffs ++ row }

/-- The lines define the filters. -/
inductive Defines : List (List (List Char)) → List (FilterDef K) → Prop
  | nil : Defines [] []
  | cons {tok d conts rows rest ds} (head : HeadLine strtod most tok d)
      (conts_ok : List.Forall₂ (ContLine strtod own d.name) conts rows)
      (count : conts.length + 1 = d.filtSections) (rest_ok : Defines rest ds) :
      Defines (tok :: (conts ++ rest)) (d.extend rows.flatten :: ds)

/-- The filters with more than `MAX_SO_SECTIONS` sections. -/
def firCount (ds : List (FilterDef K)) : ℕ := ds.countP fun d => maxSoSections < d.filtSections

/-- The lines define the filters, and that number of lines is missing of the last one. -/
inductive DefinesSoFar : List (List (List Char)) → List (FilterDef K) → ℕ → Prop
  | nil : DefinesSoFar [] [] 0
  | head {ls ds tok d} (h : DefinesSoFar ls ds 0) (head : HeadLine strtod most tok d)
      (room : maxSoSections < d.filtSections → firCount ds < maxFirModules) :
      DefinesSoFar (ls ++ [tok]) (ds ++ [d]) (d.filtSections - 1)
  | cont {ls ds d tok row missing} (h : DefinesSoFar ls (ds ++ [d]) (missing + 1))
      (cont : ContLine strtod own d.name tok row) :
      DefinesSoFar (ls ++ [tok]) (ds ++ [d.extend row]) missing

end Grammar

section Theorems

variable {K : Type} {strtod : List Char → K × List Char} {own : List Char → Prop} {most : ℕ}
variable {tok : List (List Char)} {d d' : FilterDef K} {row row' : List K} {missing missing' : ℕ}
variable {ls conts : List (List (List Char))} {ds ds' : List (FilterDef K)} {rows : List (List K)}

theorem mapM_length {α β : Type} {f : α → Option β} {l : List α} {row : List β}
    (h : l.mapM f = some row) : row.length = l.length := by
  induction l generalizing row with
  | nil =>
    cases h
    rfl
  | cons a l ih =>
    rw [List.mapM_cons] at h
    obtain ⟨b, -, h⟩ := Option.bind_eq_some_iff.mp h
    obtain ⟨row', hrow', h⟩ := Option.bind_eq_some_iff.mp h
    cases h
    rw [List.length_cons, List.length_cons, ih hrow']

theorem Numbers.length {first n : ℕ} (h : Numbers strtod tok first n row) : row.length = n :=
  (mapM_length h).trans List.length_range

theorem HeadLine.unique (h : HeadLine strtod most tok d) (h' : HeadLine strtod most tok d') :
    d = d' := by
  obtain ⟨-, hname, hnum, -, htype, -, hsections, -, -, hramp, -, htimeout, -, hfilt, -,
    hcoeffs⟩ := h
  obtain ⟨-, hname', hnum', -, htype', -, hsections', -, -, hramp', -, htimeout', -, hfilt', -,
    hcoeffs'⟩ := h'
  cases d
  cases d'
  have hn := Option.some.inj (hnum.symm.trans hnum')
  have hs := Option.some.inj (hsections.symm.trans hsections')
  congr
  · exact hname.symm.trans hname'
  · exact_mod_cast hn
  · exact Option.some.inj (htype.symm.trans htype')
  · exact_mod_cast hs
  · exact Option.some.inj (hramp.symm.trans hramp')
  · exact Option.some.inj (htimeout.symm.trans htimeout')
  · exact hfilt.symm.trans hfilt'
  · exact Option.some.inj (hcoeffs.symm.trans hcoeffs')

theorem ContLine.unique {name : List Char} (h : ContLine strtod own name tok row)
    (h' : ContLine strtod own name tok row') : row = row' := by
  by_cases hown : own name
  · exact Option.some.inj ((h.numbers hown).symm.trans (h'.numbers hown))
  · rw [h.unread hown, h'.unread hown]

theorem HeadLine.mono {more : ℕ} (h : HeadLine strtod most tok d) (hle : d.filtSections ≤ more) :
    HeadLine strtod more tok d :=
  { h with le_most := hle }

@[simp] theorem FilterDef.extend_nil : d.extend [] = d := by simp [FilterDef.extend]

theorem FilterDef.extend_extend : (d.extend row).extend row' = d.extend (row ++ row') := by
  simp [FilterDef.extend]

/-! ## Line by line -/

theorem definesSoFar_nil (h : DefinesSoFar strtod own most [] ds missing) :
    ds = [] ∧ missing = 0 := by
  generalize hl : ([] : List (List (List Char))) = ls at h
  cases h with
  | nil => exact ⟨rfl, rfl⟩
  | head => simp at hl
  | cont => simp at hl

theorem definesSoFar_concat (h : DefinesSoFar strtod own most (ls ++ [tok]) ds missing) :
    (∃ ds0 d, DefinesSoFar strtod own most ls ds0 0 ∧ HeadLine strtod most tok d ∧
      (maxSoSections < d.filtSections → firCount ds0 < maxFirModules) ∧
      ds = ds0 ++ [d] ∧ missing = d.filtSections - 1) ∨
    (∃ ds0 d row, DefinesSoFar strtod own most ls (ds0 ++ [d]) (missing + 1) ∧
      ContLine strtod own d.name tok row ∧ ds = ds0 ++ [d.extend row]) := by
  generalize hl : ls ++ [tok] = l at h
  cases h with
  | nil => simp at hl
  | head h hd hroom =>
    obtain ⟨rfl, heq⟩ := List.append_inj' hl rfl
    cases heq
    exact Or.inl ⟨_, _, h, hd, hroom, rfl, rfl⟩
  | cont h hc =>
    obtain ⟨rfl, heq⟩ := List.append_inj' hl rfl
    cases heq
    exact Or.inr ⟨_, _, _, h, hc, rfl⟩

/-- A file is read in one way. -/
theorem DefinesSoFar.unique (h : DefinesSoFar strtod own most ls ds missing)
    (h' : DefinesSoFar strtod own most ls ds' missing') : ds = ds' ∧ missing = missing' := by
  induction h generalizing ds' missing' with
  | nil =>
    obtain ⟨hds, hmissing⟩ := definesSoFar_nil h'
    exact ⟨hds.symm, hmissing.symm⟩
  | head h hd hroom ih =>
    rcases definesSoFar_concat h' with ⟨ds0, d', hbefore, hd', -, rfl, rfl⟩ |
      ⟨ds0, d', row, hbefore, -, -⟩
    · obtain ⟨rfl, -⟩ := ih hbefore
      rw [hd.unique hd']
      exact ⟨rfl, rfl⟩
    · obtain ⟨-, hmissing⟩ := ih hbefore
      omega
  | cont h hc ih =>
    rcases definesSoFar_concat h' with ⟨ds0, d', hbefore, -, -, -, -⟩ |
      ⟨ds0, d', row', hbefore, hc', rfl⟩
    · obtain ⟨-, hmissing⟩ := ih hbefore
      omega
    · obtain ⟨hds, hmissing⟩ := ih hbefore
      obtain ⟨rfl, heq⟩ := List.append_inj' hds rfl
      cases heq
      rw [hc.unique hc']
      exact ⟨rfl, by omega⟩

theorem DefinesSoFar.contLines (hconts : List.Forall₂ (ContLine strtod own d.name) conts rows)
    (h : DefinesSoFar strtod own most ls (ds ++ [d]) (conts.length + missing)) :
    DefinesSoFar strtod own most (ls ++ conts) (ds ++ [d.extend rows.flatten]) missing := by
  generalize hname : d.name = name at hconts
  induction hconts generalizing ls d with
  | nil => simpa using h
  | @cons tok row conts rows hc _ ih =>
    rw [List.length_cons, Nat.add_right_comm] at h
    have hnext := ih (h.cont (hname ▸ hc)) (by rw [← hname]; rfl)
    rw [FilterDef.extend_extend] at hnext
    simpa using hnext

/-- The filters that are left of the form of a file are read after others. -/
theorem Defines.soFar {more : ℕ} (h : Defines strtod own maxSoSections conts ds')
    (hmost : maxSoSections ≤ more) (hbefore : DefinesSoFar strtod own more ls ds 0) :
    DefinesSoFar strtod own more (ls ++ conts) (ds ++ ds') 0 := by
  induction h generalizing ls ds with
  | nil => simpa using hbefore
  | @cons tok d conts rows rest ds' head conts_ok count _ ih =>
    have hle := head.le_most
    have hhead := hbefore.head (head.mono (hle.trans hmost)) (fun h => absurd hle (by omega))
    have hlen : d.filtSections - 1 = conts.length + 0 := by omega
    rw [hlen] at hhead
    have hrest := ih (DefinesSoFar.contLines conts_ok hhead)
    simpa using hrest

theorem Defines.concat (h : Defines strtod own most ls ds) (head : HeadLine strtod most tok d)
    (conts_ok : List.Forall₂ (ContLine strtod own d.name) conts rows)
    (count : conts.length + 1 = d.filtSections) :
    Defines strtod own most (ls ++ tok :: conts) (ds ++ [d.extend rows.flatten]) := by
  induction h with
  | nil =>
    have hlast := Defines.cons head conts_ok count Defines.nil
    rwa [List.append_nil] at hlast
  | cons head' conts_ok' count' _ ih =>
    have hnext := Defines.cons head' conts_ok' count' ih
    simpa using hnext

/-- A file that is read so far ends with the lines of a filter, all or some. -/
def EndsInFilter (strtod : List Char → K × List Char) (own : List Char → Prop) (most : ℕ)
    (ls : List (List (List Char))) (ds : List (FilterDef K)) (missing : ℕ) : Prop :=
  ∃ before done tok d conts rows, ls = before ++ tok :: conts ∧
    Defines strtod own most before done ∧ HeadLine strtod most tok d ∧
    List.Forall₂ (ContLine strtod own d.name) conts rows ∧
    ds = done ++ [d.extend rows.flatten] ∧ conts.length + 1 + missing = d.filtSections

theorem EndsInFilter.defines (h : EndsInFilter strtod own most ls ds 0) :
    Defines strtod own most ls ds := by
  obtain ⟨before, done, tok, d, conts, rows, rfl, hbefore, head, conts_ok, rfl, hcount⟩ := h
  exact hbefore.concat head conts_ok hcount

theorem DefinesSoFar.endsInFilter (h : DefinesSoFar strtod own most ls ds missing)
    (hmost : ∀ d ∈ ds, d.filtSections ≤ maxSoSections) :
    (ls = [] ∧ ds = [] ∧ missing = 0) ∨ EndsInFilter strtod own maxSoSections ls ds missing := by
  induction h with
  | nil => exact Or.inl ⟨rfl, rfl, rfl⟩
  | @head ls ds tok d _ head _ ih =>
    have hdefines : Defines strtod own maxSoSections ls ds := by
      rcases ih fun d hd => hmost d (List.mem_append_left _ hd) with ⟨rfl, rfl, -⟩ | hends
      · exact Defines.nil
      · exact hends.defines
    have hpos := head.pos
    refine Or.inr ⟨ls, ds, tok, d, [], [], rfl, hdefines, head.mono (hmost d (by simp)),
      List.Forall₂.nil, by simp, ?_⟩
    simp only [List.length_nil]
    omega
  | @cont ls ds d tok row missing _ cont ih =>
    have hmost' : ∀ e ∈ ds ++ [d], e.filtSections ≤ maxSoSections := by
      intro e he
      rcases List.mem_append.mp he with he | he
      · exact hmost e (List.mem_append_left _ he)
      · rw [List.mem_singleton.mp he]
        exact hmost (d.extend row) (by simp)
    rcases ih hmost' with ⟨-, -, hmissing⟩ |
      ⟨before, done, tok', d', conts, rows, rfl, hbefore, head, conts_ok, hds, hcount⟩
    · omega
    · obtain ⟨rfl, heq⟩ := List.append_inj' hds rfl
      cases heq
      refine Or.inr ⟨before, ds, tok', d', conts ++ [tok], rows ++ [row], by simp, hbefore, head,
        List.rel_append conts_ok (List.Forall₂.cons cont List.Forall₂.nil), ?_, ?_⟩
      · rw [FilterDef.extend_extend, List.flatten_append, List.flatten_singleton]
      · rw [List.length_append, List.length_singleton]
        omega

/-- The form of a file and the reading line by line, in a build for any number of sections. -/
theorem defines_iff_soFar {more : ℕ} (hmost : maxSoSections ≤ more) :
    Defines strtod own maxSoSections ls ds ↔
      DefinesSoFar strtod own more ls ds 0 ∧ ∀ d ∈ ds, d.filtSections ≤ maxSoSections := by
  constructor
  · intro h
    refine ⟨by simpa using h.soFar hmost DefinesSoFar.nil, ?_⟩
    induction h with
    | nil => exact nofun
    | cons head _ _ _ ih =>
      intro e he
      rcases List.mem_cons.mp he with rfl | he
      · exact head.le_most
      · exact ih e he
  · rintro ⟨h, hle⟩
    rcases h.endsInFilter hle with ⟨rfl, rfl, -⟩ | hends
    · exact Defines.nil
    · exact hends.defines

theorem ContLine.flatten_length {name : List Char} (hown : own name)
    (h : List.Forall₂ (ContLine strtod own name) conts rows) :
    rows.flatten.length = 4 * conts.length := by
  induction h with
  | nil => rfl
  | cons hc _ ih =>
    rw [List.flatten_cons, List.length_append, ih, (hc.numbers hown).length, List.length_cons]
    omega

/-- All coefficients of a filter of the subsystem. -/
theorem Defines.coeffs_length (h : Defines strtod own most ls ds) :
    ∀ d ∈ ds, own d.name → d.coeffs.length = 1 + 4 * d.filtSections := by
  induction h with
  | nil => exact nofun
  | @cons tok d conts rows rest ds head conts_ok count _ ih =>
    intro e he hown
    rcases List.mem_cons.mp he with rfl | he
    · show (d.coeffs ++ rows.flatten).length = 1 + 4 * d.filtSections
      rw [List.length_append, head.coeffs.length, ContLine.flatten_length hown conts_ok]
      omega
    · exact ih e he hown

end Theorems

end AdvLigoRts.Drv
