import AdvLigoRts.Drv.FmReadCoeffTheorems
import Mathlib.Tactic.Ring

/-!
# The two forms of a filter

`iir_filter` and `iir_filter_biquad` are the same filter in exact arithmetic: a relation between the
histories of both forms is kept by every section of the cascade (`Converted.section_eq`), hence by
every call (`SameFilter.step`).
-/

namespace AdvLigoRts.Drv

open PvLib

variable {K : Type} [CommRing K] {c c' : ℕ → K} {h h' : ℕ → K} {k n : ℕ}

/-! ## Sections -/

/-- The coefficients `c'` of the section `k` are those of `c` in biquad form. -/
structure Converted (c c' : ℕ → K) (k : ℕ) : Prop where
  a11 : c' (4 * k + 1) = - c (4 * k + 1) - 1
  a12 : c' (4 * k + 2) = - c (4 * k + 2) - c (4 * k + 1) - 1
  c1 : c' (4 * k + 3) = c (4 * k + 3) - c (4 * k + 1)
  c2 : c' (4 * k + 4) = c (4 * k + 4) - c (4 * k + 2) + c (4 * k + 3) - c (4 * k + 1)

/-- A section that no line has set. -/
def Unset (c : ℕ → K) (k : ℕ) : Prop := ∀ j < 4, c (4 * k + 1 + j) = 0

/-- The section `k` is the same filter in both forms. -/
def SameSection (c c' : ℕ → K) (k : ℕ) : Prop :=
  Converted c c' k ∨ (Unset c k ∧ Unset c' k)

/-- The histories of the section `k`: the biquad form keeps the difference of the two values of
the direct form in place of the newer one. -/
def SameHistory (h h' : ℕ → K) (k : ℕ) : Prop :=
  h' (2 * k) = h (2 * k) - h (2 * k + 1) ∧ h' (2 * k + 1) = h (2 * k + 1)

/-- The sections before `n` that are converted have histories that belong together. -/
def HistoriesOk (c c' : ℕ → K) (n : ℕ) (h h' : ℕ → K) : Prop :=
  ∀ k < n, Converted c c' k → SameHistory h h' k

/-- The histories of a section after a pass of the loop over another one. -/
theorem iirSection_other {i : ℕ} (hk : k ≠ i) (s : K × (ℕ → K)) :
    (iirSection c s i).2 (2 * k) = s.2 (2 * k) ∧
      (iirSection c s i).2 (2 * k + 1) = s.2 (2 * k + 1) := by
  have h0 : 2 * k ≠ 2 * i := by omega
  have h1 : 2 * k ≠ 2 * i + 1 := by omega
  have h2 : 2 * k + 1 ≠ 2 * i := by omega
  simp [iirSection, h0, h1, h2]

theorem biquadSection_other {i : ℕ} (hk : k ≠ i) (s : K × (ℕ → K)) :
    (biquadSection c s i).2 (2 * k) = s.2 (2 * k) ∧
      (biquadSection c s i).2 (2 * k + 1) = s.2 (2 * k + 1) := by
  have h0 : 2 * k ≠ 2 * i := by omega
  have h1 : 2 * k ≠ 2 * i + 1 := by omega
  have h2 : 2 * k + 1 ≠ 2 * i := by omega
  simp [biquadSection, h0, h1, h2]

theorem Converted.section_eq {i : ℕ} {s s' : K × (ℕ → K)} (hc : Converted c c' i)
    (hout : s'.1 = s.1) (hh : SameHistory s.2 s'.2 i) :
    (biquadSection c' s' i).1 = (iirSection c s i).1 ∧
      SameHistory (iirSection c s i).2 (biquadSection c' s' i).2 i := by
  obtain ⟨hw, hu⟩ := hh
  have hne : 2 * i + 1 ≠ 2 * i := by omega
  refine ⟨?_, ?_, ?_⟩
  · simp only [biquadSection, iirSection, hc.c1, hc.c2, hw, hu, hout]
    ring
  · simp only [biquadSection, iirSection, hc.a11, hc.a12, hw, hu, hout, Function.update_self,
      Function.update_of_ne hne, Function.update_of_ne hne.symm]
    ring
  · simp only [biquadSection, iirSection, hw, hu, Function.update_self,
      Function.update_of_ne hne]
    ring

/-- A section without coefficients passes its input on in both forms. -/
theorem Unset.section_eq {i : ℕ} {s s' : K × (ℕ → K)} (hc : Unset c i) (hc' : Unset c' i)
    (hout : s'.1 = s.1) : (biquadSection c' s' i).1 = (iirSection c s i).1 := by
  have h1 := hc 0 (by omega)
  have h2 := hc 1 (by omega)
  have h3 := hc 2 (by omega)
  have h4 := hc 3 (by omega)
  have h3' := hc' 2 (by omega)
  have h4' := hc' 3 (by omega)
  simp only [Nat.add_zero, Nat.add_assoc, Nat.reduceAdd] at h1 h2 h3 h4 h3' h4'
  simp [biquadSection, iirSection, h1, h2, h3, h4, h3', h4', hout]

/-- A pass of both loops over one section. -/
theorem section_step {i : ℕ} {s s' : K × (ℕ → K)} (hc : SameSection c c' i)
    (hs : s'.1 = s.1 ∧ HistoriesOk c c' n s.2 s'.2) (hi : i < n) :
    (biquadSection c' s' i).1 = (iirSection c s i).1 ∧
      HistoriesOk c c' n (iirSection c s i).2 (biquadSection c' s' i).2 := by
  obtain ⟨hout, hh⟩ := hs
  constructor
  · rcases hc with hc | ⟨hc, hc'⟩
    · exact (hc.section_eq hout (hh i hi hc)).1
    · exact hc.section_eq hc' hout
  · intro k hk hck
    by_cases hki : k = i
    · subst hki
      exact (hck.section_eq hout (hh k hk hck)).2
    · obtain ⟨h1, h2⟩ := iirSection_other (c := c) hki s
      obtain ⟨h1', h2'⟩ := biquadSection_other (c := c') hki s'
      rw [SameHistory, h1, h2, h1', h2']
      exact hh k hk hck

/-- Both forms of one filter: the gain and all sections are the same. -/
def SameFilter (c c' : ℕ → K) (n : ℕ) : Prop := c' 0 = c 0 ∧ ∀ k < n, SameSection c c' k

theorem SameFilter.step (hc : SameFilter c c' n) (hh : HistoriesOk c c' n h h') (input : K) :
    (iirFilterBiquad c' n input h').1 = (iirFilter c n input h).1 ∧
      HistoriesOk c c' n (iirFilter c n input h).2 (iirFilterBiquad c' n input h').2 := by
  unfold iirFilter iirFilterBiquad
  have hstart : (input * c' 0, h').1 = (input * c 0, h).1 ∧
      HistoriesOk c c' n (input * c 0, h).2 (input * c' 0, h').2 := by
    rw [hc.1]
    exact ⟨rfl, hh⟩
  refine List.foldl_rel
    (r := fun (s s' : K × (ℕ → K)) => s'.1 = s.1 ∧ HistoriesOk c c' n s.2 s'.2) hstart ?_
  intro i hi s s' hs
  have hi := List.mem_range.mp hi
  exact section_step (hc.2 i hi) hs hi

theorem SameFilter.run_eq (hc : SameFilter c c' n) (inputs : List K) :
    ∀ {h h' : ℕ → K}, HistoriesOk c c' n h h' →
      filterRun (iirFilterBiquad c' n) h' inputs = filterRun (iirFilter c n) h inputs := by
  induction inputs with
  | nil => intros; rfl
  | cons input inputs ih =>
    intro h h' hh
    obtain ⟨hout, hnext⟩ := hc.step hh input
    rw [filterRun, filterRun, hout, ih hnext]

theorem historiesOk_zero : HistoriesOk c c' n (fun _ => 0) (fun _ => 0) :=
  fun k _ _ => ⟨by simp, rfl⟩

/-! ## Reading a file twice -/

/-- Rows of coefficients of one filter in both forms. -/
def SameRow (c c' : ℕ → K) : Prop := c' 0 = c 0 ∧ ∀ k, SameSection c c' k

theorem SameSection.congr {d d' : ℕ → K} (h : SameSection c c' k)
    (hd : ∀ j < 4, d (4 * k + 1 + j) = c (4 * k + 1 + j))
    (hd' : ∀ j < 4, d' (4 * k + 1 + j) = c' (4 * k + 1 + j)) : SameSection d d' k := by
  have e1 := hd 0 (by omega)
  have e2 := hd 1 (by omega)
  have e3 := hd 2 (by omega)
  have e4 := hd 3 (by omega)
  have e1' := hd' 0 (by omega)
  have e2' := hd' 1 (by omega)
  have e3' := hd' 2 (by omega)
  have e4' := hd' 3 (by omega)
  simp only [Nat.add_zero, Nat.add_assoc, Nat.reduceAdd] at e1 e2 e3 e4 e1' e2' e3' e4'
  rcases h with h | ⟨h, h'⟩
  · left
    refine ⟨?_, ?_, ?_, ?_⟩
    · rw [e1, e1', h.a11]
    · rw [e1, e2, e2', h.a12]
    · rw [e1, e3, e3', h.c1]
    · rw [e1, e2, e3, e4, e4', h.c2]
  · right
    exact ⟨fun j hj => (hd j hj).trans (h j hj), fun j hj => (hd' j hj).trans (h' j hj)⟩

omit [CommRing K] in
theorem putRow_inside {row new : ℕ → K} {base j : ℕ} (hj : j < n) :
    putRow row base n new (base + j) = new j := by
  simp [putRow, hj]

omit [CommRing K] in
theorem putRow_outside {row new : ℕ → K} {base i : ℕ} (hi : i < base ∨ base + n ≤ i) :
    putRow row base n new i = row i := by
  have hout : ¬ (base ≤ i ∧ i < base + n) := by omega
  simp [putRow, hout]

/-- A further section is stored in both rows. -/
theorem SameRow.putCont (hc : SameRow c c') (q : ℕ) (filtCoeff : ℕ → K) {b : ℤ} (hb : b ≠ 0) :
    SameRow (putRow c (5 + 4 * q) 4 (contCoeff 0 filtCoeff))
      (putRow c' (5 + 4 * q) 4 (contCoeff b filtCoeff)) := by
  constructor
  · rw [putRow_outside (by omega), putRow_outside (by omega)]
    exact hc.1
  · intro k
    by_cases hk : k = q + 1
    · left
      have hat : ∀ (row new : ℕ → K) (j : ℕ), j < 4 →
          putRow row (5 + 4 * q) 4 new (4 * k + 1 + j) = new j := by
        intro row new j hj
        rw [show 4 * k + 1 + j = 5 + 4 * q + j by omega]
        exact putRow_inside hj
      refine ⟨?_, ?_, ?_, ?_⟩
      · rw [hat _ _ 0 (by omega), hat _ _ 0 (by omega)]
        simp [contCoeff, hb]
      · rw [hat _ _ 0 (by omega), hat _ _ 1 (by omega), hat _ _ 1 (by omega)]
        simp [contCoeff, hb]
      · rw [hat _ _ 0 (by omega), hat _ _ 2 (by omega), hat _ _ 2 (by omega)]
        simp [contCoeff, hb]
      · rw [hat _ _ 0 (by omega), hat _ _ 1 (by omega), hat _ _ 2 (by omega),
          hat _ _ 3 (by omega), hat _ _ 3 (by omega)]
        simp [contCoeff, hb]
    · refine (hc.2 k).congr ?_ ?_
      · intro j hj
        exact putRow_outside (by omega)
      · intro j hj
        exact putRow_outside (by omega)

/-- The line on which a filter starts is stored in both rows. -/
theorem SameRow.putFirst (hc : SameRow c c') (filtCoeff : ℕ → K) {b : ℤ} (hb : b ≠ 0) :
    SameRow (putRow c 0 5 (firstCoeff 0 filtCoeff)) (putRow c' 0 5 (firstCoeff b filtCoeff)) := by
  constructor
  · simp [putRow, firstCoeff, hb]
  · intro k
    by_cases hk : k = 0
    · subst hk
      left
      constructor <;> simp [putRow, firstCoeff, hb]
    · refine (hc.2 k).congr ?_ ?_
      · intro j hj
        exact putRow_outside (by omega)
      · intro j hj
        exact putRow_outside (by omega)

/-- A module without and with the flag, with what a file has put into both. -/
structure Twin (m m' : FmSubSysMap K) : Prop where
  name : m'.name = m.name
  fmModNum : m'.fmModNum = m.fmModNum
  filters : m'.filters = m.filters
  direct : m.biquad = 0
  biquad : m'.biquad ≠ 0
  fmd : m'.fmd = { m.fmd with filtCoeff := m'.fmd.filtCoeff }
  coeff : ∀ num, SameRow (m.fmd.filtCoeff num) (m'.fmd.filtCoeff num)

/-- Two states of the loop over the lines that differ in the module `i` only. -/
def ReadTwin (i : ℕ) (s s' : ReadState K) : Prop :=
  ∃ m m', s.map[i]? = some m ∧ Twin m m' ∧ s' = { s with map := s.map.set i m' }

variable {fir charSigned : Bool} {strtod : List Char → K × List Char} {i : ℕ}
variable {s s' : ReadState K}

/-- The row of a filter is written in both placeholders. -/
theorem Twin.setRow {m m' : FmSubSysMap K} (ht : Twin m m') (num : ℕ) {row row' : ℕ → K}
    (hrow : SameRow row row') :
    Twin { m with fmd := { m.fmd with filtCoeff := Function.update m.fmd.filtCoeff num row } }
      { m' with fmd := { m'.fmd with
        filtCoeff := Function.update m'.fmd.filtCoeff num row' } } where
  name := ht.name
  fmModNum := ht.fmModNum
  filters := ht.filters
  direct := ht.direct
  biquad := ht.biquad
  fmd := by rw [ht.fmd]
  coeff a := by
    by_cases ha : a = num
    · subst ha
      simpa using hrow
    · simpa [ha] using ht.coeff a

theorem ReadTwin.putCont (hs : ReadTwin i s s') (a inFilter : ℕ) (filtCoeff : ℕ → K) :
    ReadTwin i (putCont fir s a inFilter filtCoeff) (putCont fir s' a inFilter filtCoeff) := by
  obtain ⟨m, m', hm, ht, rfl⟩ := hs
  have hlt := (List.getElem?_eq_some_iff.mp hm).1
  by_cases hai : a = i
  · subst hai
    have hm' : (s.map.set a m')[a]? = some m' := by simp [hlt]
    have htype : m'.fmd.filterType = m.fmd.filterType := by rw [ht.fmd]
    have hsections : m'.fmd.filtSections = m.fmd.filtSections := by rw [ht.fmd]
    simp only [Drv.putCont, hm, hm', htype, hsections]
    split
    · split
      · exact ⟨m, m', hm, ht, rfl⟩
      · exact ⟨m, m', hm, ht, rfl⟩
    · have hrow := (ht.coeff s.curFilterNum).putCont
        (m.fmd.filtSections s.curFilterNum - inFilter - 2) filtCoeff ht.biquad
      rw [← ht.direct] at hrow
      refine ⟨_, _, ?_, ht.setRow s.curFilterNum hrow, ?_⟩
      · simp [hlt]
      · simp [htype, hsections]
  · have hget : (s.map.set i m')[a]? = s.map[a]? := List.getElem?_set_ne (Ne.symm hai)
    simp only [Drv.putCont, hget]
    split
    · exact ⟨m, m', hm, ht, rfl⟩
    · split
      · split
        · exact ⟨m, m', hm, ht, rfl⟩
        · exact ⟨m, m', hm, ht, rfl⟩
      · refine ⟨m, m', ?_, ht, ?_⟩
        · rw [List.getElem?_set_ne hai]
          exact hm
        · simp only [List.set_comm _ _ hai]

/-- The placeholder that a name belongs to is the same one. -/
theorem Twin.findIdx {m m' : FmSubSysMap K} (ht : Twin m m') {map : List (FmSubSysMap K)}
    (hm : map[i]? = some m) (name : List Char) :
    ((map.set i m').findIdx? fun m => m.name = name) = map.findIdx? fun m => m.name = name := by
  have hnames : (map.set i m').map (·.name) = map.map (·.name) := map_set_of_eq hm ht.name
  have hidx := congrArg (List.findIdx? fun n => decide (n = name)) hnames
  rw [List.findIdx?_map, List.findIdx?_map] at hidx
  exact hidx

theorem ReadTwin.putFilter (hs : ReadTwin i s s') (name : List Char) (d : FilterLine K) :
    ReadTwin i (putFilter fir s name d) (putFilter fir s' name d) := by
  obtain ⟨m, m', hm, ht, rfl⟩ := hs
  have hlt := (List.getElem?_eq_some_iff.mp hm).1
  simp only [Drv.putFilter, ht.findIdx hm]
  split
  · exact ⟨m, m', hm, ht, rfl⟩
  · rename_i a _
    by_cases hai : a = i
    · subst hai
      have hm' : (s.map.set a m')[a]? = some m' := by simp [hlt]
      simp only [hm, hm']
      have hfirst := (ht.coeff d.num).putFirst d.filtCoeff ht.biquad
      rw [← ht.direct] at hfirst
      refine ⟨_, _, List.getElem?_set_self hlt, ?_, by rw [List.set_set, List.set_set]⟩
      by_cases hfir : d.filterType > 0
      · simp only [hfir, if_true]
        exact { ht with
          filters := by rw [ht.filters]
          fmd := by rw [ht.fmd, ht.fmModNum] }
      · simp only [hfir, if_false]
        exact { ht with
          filters := by rw [ht.filters]
          fmd := by rw [ht.fmd, ht.fmModNum]
          coeff := (ht.setRow d.num hfirst).coeff }
    · have hget : (s.map.set i m')[a]? = s.map[a]? := List.getElem?_set_ne (Ne.symm hai)
      simp only [hget]
      split
      · exact ⟨m, m', hm, ht, rfl⟩
      · refine ⟨m, m', ?_, ht, ?_⟩
        · rw [List.getElem?_set_ne hai]
          exact hm
        · simp only [List.set_comm _ _ hai]

variable (fir strtod) in
theorem ReadTwin.readLine (hs : ReadTwin i s s') (line : List Char) :
    SameOutcome (ReadTwin i) (readLine fir strtod s line) (readLine fir strtod s' line) := by
  have hin : s'.inFilter = s.inFilter := by
    obtain ⟨m, m', -, -, rfl⟩ := hs
    rfl
  have hcur : s'.curFilter = s.curFilter := by
    obtain ⟨m, m', -, -, rfl⟩ := hs
    rfl
  have hfirs : s'.nFirFilters = s.nFirFilters := by
    obtain ⟨m, m', -, -, rfl⟩ := hs
    rfl
  unfold Drv.readLine
  rw [hin, hcur, hfirs]
  split
  · exact hs
  · dsimp only
    generalize (if s.inFilter ≠ 0 then 4 else maxTokens) = words
    split
    · rfl
    · split
      · split
        · obtain ⟨m, m', hm, ht, rfl⟩ := hs
          exact ⟨m, m', hm, ht, rfl⟩
        · split
          · rfl
          · exact hs.putCont _ _ _
      · split
        · rfl
        · exact hs.putFilter _ _

variable (fir strtod) in
theorem ReadTwin.readLines (hs : ReadTwin i s s') (lines : List (List Char)) :
    SameOutcome (ReadTwin i) (readLines fir strtod s lines) (readLines fir strtod s' lines) := by
  refine foldlM_sameOutcome ?_ hs
  rintro ⟨line, k⟩ - s s' hs
  dsimp only
  have hline := hs.readLine fir strtod line
  cases hread : Drv.readLine fir strtod s line with
  | error e =>
    rw [hread] at hline
    rw [hline.error]
    rfl
  | ok t =>
    rw [hread] at hline
    obtain ⟨t', hread', ht⟩ := hline.ok
    rw [hread']
    exact ht

/-- Before the first line. -/
theorem readTwin_start {map : List (FmSubSysMap K)} {m : FmSubSysMap K} {b : ℤ}
    (hm : map[i]? = some m) (hdirect : m.biquad = 0) (hb : b ≠ 0) (tmp : ℕ → ℕ → ℕ → K) :
    ReadTwin i (ReadState.start map tmp) (ReadState.start (map.set i { m with biquad := b }) tmp)
    := by
  refine ⟨m.clear, ({ m with biquad := b } : FmSubSysMap K).clear, ?_, ?_, ?_⟩
  · rw [ReadState.start, List.getElem?_map, hm]
    rfl
  · exact {
      name := rfl
      fmModNum := rfl
      filters := rfl
      direct := hdirect
      biquad := hb
      fmd := rfl
      coeff := fun _ => ⟨rfl, fun _ => Or.inr ⟨fun _ _ => rfl, fun _ _ => rfl⟩⟩ }
  · rw [ReadState.start, ReadState.start, List.map_set]

variable (fir charSigned strtod) in
/-- The files of a subsystem without and with the flag of one module. -/
theorem fmReadCoeffFile_twin (doubleBytes : K → List (BitVec 8)) (files : InputFiles)
    {map : List (FmSubSysMap K)} {m : FmSubSysMap K} {b : ℤ} (hm : map[i]? = some m)
    (hdirect : m.biquad = 0) (hb : b ≠ 0) (tmp : ℕ → ℕ → ℕ → K) (p p' : VmeCoef K) :
    SameOutcome (fun r r' => ReadTwin i r.1 r'.1)
      (fmReadCoeffFile fir charSigned doubleBytes strtod files map tmp p)
      (fmReadCoeffFile fir charSigned doubleBytes strtod files
        (map.set i { m with biquad := b }) tmp p') := by
  have hstart := readTwin_start hm hdirect hb tmp
  unfold fmReadCoeffFile
  cases files with
  | error code => rfl
  | ok lines =>
    obtain ⟨txt, firFile⟩ := lines
    have htxt := hstart.readLines fir strtod txt
    dsimp only
    cases hread : Drv.readLines fir strtod (ReadState.start map tmp) txt with
    | error e =>
      rw [hread] at htxt
      rw [htxt.error]
      rfl
    | ok s =>
      rw [hread] at htxt
      obtain ⟨s', hread', hs⟩ := htxt.ok
      rw [hread']
      have hfir := hs.readLines fir strtod (firFile.getD [])
      dsimp only
      cases hread2 : Drv.readLines fir strtod s (firFile.getD []) with
      | error e =>
        rw [hread2] at hfir
        rw [hfir.error]
        rfl
      | ok t =>
        rw [hread2] at hfir
        obtain ⟨t', hread2', ht⟩ := hfir.ok
        rw [hread2']
        exact ht

/-! ## Filters from a file -/

/-- A filter reads the coefficients of its sections only. -/
theorem SameFilter.congr {d d' : ℕ → K} (hc : SameFilter c c' n)
    (hd : ∀ k < 1 + n * 4, d k = c k) (hd' : ∀ k < 1 + n * 4, d' k = c' k) :
    SameFilter d d' n := by
  constructor
  · rw [hd 0 (by omega), hd' 0 (by omega), hc.1]
  · intro k hk
    refine (hc.2 k hk).congr ?_ ?_
    · intro j hj
      exact hd _ (by omega)
    · intro j hj
      exact hd' _ (by omega)

/-- The filters of a module that is read without and with the flag for the biquad form: the
file is refused with the same error, or every filter of at most ten sections gives the same
outputs for all inputs from cleared histories, be they computed by `iir_filter` from the one set
of coefficients or by `iir_filter_biquad` from the other. -/
theorem filter_forms_agree (fir charSigned : Bool) (doubleBytes : K → List (BitVec 8))
    (strtod : List Char → K × List Char) (files : InputFiles) (map : List (FmSubSysMap K))
    (hnodup : (map.map (·.fmModNum)).Nodup) (i : ℕ) (m : FmSubSysMap K) (hm : map[i]? = some m)
    (hdirect : m.biquad = 0) (b : ℤ) (hb : b ≠ 0) (tmp : ℕ → ℕ → ℕ → K) (p p' : VmeCoef K) :
    SameOutcome (fun r r' => ∀ j < filters,
        let direct := r.2.vmeCoeffs m.fmModNum
        let biquad := r'.2.vmeCoeffs m.fmModNum
        biquad.filtSections j = direct.filtSections j ∧
          (direct.filtSections j ≤ maxSoSections → ∀ inputs : List K,
            filterRun (iirFilterBiquad (biquad.filtCoeff j) (biquad.filtSections j))
                (fun _ => 0) inputs =
              filterRun (iirFilter (direct.filtCoeff j) (direct.filtSections j))
                (fun _ => 0) inputs))
      (fmReadCoeffFile fir charSigned doubleBytes strtod files map tmp p)
      (fmReadCoeffFile fir charSigned doubleBytes strtod files
        (map.set i { m with biquad := b }) tmp p') := by
  have htwin := fmReadCoeffFile_twin fir charSigned strtod doubleBytes files hm hdirect
    hb tmp p p'
  cases hread : fmReadCoeffFile fir charSigned doubleBytes strtod files map tmp p with
  | error e =>
    rw [hread] at htwin
    rw [htwin.error]
    rfl
  | ok r =>
    rw [hread] at htwin
    obtain ⟨r', hread', n, n', hn, ht, hr'⟩ := htwin.ok
    rw [hread']
    obtain ⟨s, q⟩ := r
    obtain ⟨s', q'⟩ := r'
    dsimp only at hn hr' ⊢
    have hlt := (List.getElem?_eq_some_iff.mp hm).1
    have hnums : (map.set i { m with biquad := b }).map (·.fmModNum) = map.map (·.fmModNum) :=
      map_set_of_eq hm rfl
    obtain ⟨n1, hn1, hcfg, hok, hshared⟩ := inShared_fmReadCoeffFile hnodup hm hread
    obtain ⟨n1', hn1', hcfg', hok', hshared'⟩ :=
      inShared_fmReadCoeffFile (i := i) (hnums ▸ hnodup) (List.getElem?_set_self hlt) hread'
    -- the placeholders of the two reads
    obtain rfl : n1 = n := Option.some.inj (hn1.symm.trans hn)
    have hset : s'.map[i]? = some n' := by
      rw [hr']
      exact List.getElem?_set_self (List.getElem?_eq_some_iff.mp hn).1
    obtain rfl : n1' = n' := Option.some.inj (hn1'.symm.trans hset)
    have hmod : n1.fmModNum = m.fmModNum := congrArg (·.2.1) hcfg
    have hmod' : n1'.fmModNum = m.fmModNum := congrArg (·.2.1) hcfg'
    intro j hj
    have hf := hshared.filter j hj
    have hf' := hshared'.filter j hj
    have hsections : n1'.fmd.filtSections j = n1.fmd.filtSections j := by rw [ht.fmd]
    have htype : n1'.fmd.filterType j = n1.fmd.filterType j := by rw [ht.fmd]
    rw [← hmod, hf.filtSections, hmod, ← hmod', hf'.filtSections, hsections]
    refine ⟨rfl, fun hten inputs => ?_⟩
    have hiir : n1.fmd.filterType j = 0 := by
      rcases hok j with h | h
      · exact h.2
      · omega
    have hcoeff := hf.coeff
    have hcoeff' := hf'.coeff
    simp only [sharedCoeff, tmpCoeff, hf.filterType, hf'.filterType, htype, hiir, ne_eq,
      not_true_eq_false, and_false, if_false] at hcoeff hcoeff'
    rw [hsections] at hcoeff'
    have hrow := ht.coeff j
    have hsame : SameFilter (n1.fmd.filtCoeff j) (n1'.fmd.filtCoeff j)
        (n1.fmd.filtSections j) := ⟨hrow.1, fun k _ => hrow.2 k⟩
    have hfilter := hsame.congr hcoeff hcoeff'
    rw [hmod', ← hmod] at hfilter ⊢
    exact hfilter.run_eq inputs historiesOk_zero

theorem filter_forms_agree_two_sections :
    ∃ r r',
      fmReadCoeffFile false true (fun _ => []) readInteger twoSections [moduleFm]
        (fun _ _ _ => 0) VmeCoef.zero = .ok r ∧
      fmReadCoeffFile false true (fun _ => []) readInteger twoSections
        [{ moduleFm with biquad := 1 }] (fun _ _ _ => 0) VmeCoef.zero = .ok r' ∧
      (r.2.vmeCoeffs 0).filtSections 0 = 2 ∧
      filterRun (iirFilterBiquad ((r'.2.vmeCoeffs 0).filtCoeff 0)
          ((r'.2.vmeCoeffs 0).filtSections 0)) (fun _ => 0) [1, 0, 0] =
        filterRun (iirFilter ((r.2.vmeCoeffs 0).filtCoeff 0)
          ((r.2.vmeCoeffs 0).filtSections 0)) (fun _ => 0) [1, 0, 0] := by
  have h := filter_forms_agree false true (fun _ => []) readInteger twoSections [moduleFm]
    (by decide) 0 moduleFm rfl rfl 1 (by decide) (fun _ _ _ => 0) VmeCoef.zero VmeCoef.zero
  cases hr : fmReadCoeffFile false true (fun _ => []) readInteger twoSections [moduleFm]
      (fun _ _ _ => 0) VmeCoef.zero with
  | error e => cases hr
  | ok r =>
    rw [hr] at h
    obtain ⟨r', hr', hsame⟩ := h.ok
    have h0 := hsame 0 (by decide)
    have h2 : (r.2.vmeCoeffs 0).filtSections 0 = 2 := by
      cases hr
      rfl
    have hten : (r.2.vmeCoeffs 0).filtSections 0 ≤ maxSoSections := by
      rw [h2]
      decide
    exact ⟨r, r', rfl, hr', h2, h0.2 hten [1, 0, 0]⟩

end AdvLigoRts.Drv
