import AdvLigoRts.Drv.FmReadCoeff
import AdvLigoRts.Lib.FallibleLoop
import Mathlib.Data.List.Induction

/-!
# What `fmReadCoeffFile` leaves

`InShared` says that shared memory holds a module as its placeholder has it, with the checksum
of the ten filters. The loop that updates shared memory brings this about for every module of
the subsystem (`inShared_fmReadCoeffFile`).
-/

namespace AdvLigoRts.Drv

open PvLib

section Store

variable {K : Type} {fir charSigned : Bool} {doubleBytes : K → List (BitVec 8)}
variable {tmp : ℕ → ℕ → ℕ → K} {p q : VmeCoef K} {m m' : FmSubSysMap K} {j k : ℕ}

/-- The coefficients of a filter of the placeholder, with the storage of FIR filters. -/
def tmpCoeff (fir : Bool) (tmp : ℕ → ℕ → ℕ → K) (fmd : VmeFmOpCoef K) (j : ℕ) : ℕ → K :=
  if fir ∧ fmd.filterType j ≠ 0 then tmp (fmd.filterType j - 1) j else fmd.filtCoeff j

/-- The coefficients of a filter in shared memory. -/
def sharedCoeff (fir : Bool) (p : VmeCoef K) (mod j : ℕ) : ℕ → K :=
  tmpCoeff fir p.firFiltCoeff (p.vmeCoeffs mod) j

/-- The checksum over the filters before `n`. -/
def coefCrc (charSigned : Bool) (doubleBytes : K → List (BitVec 8)) (fmd : VmeFmOpCoef K)
    (coeff : ℕ → ℕ → K) (n : ℕ) : BitVec 32 :=
  (List.range n).foldl (fun crc j => filterCrc charSigned doubleBytes fmd (coeff j) crc j) 0

theorem coefCrc_succ (fmd : VmeFmOpCoef K) (coeff : ℕ → ℕ → K) (n : ℕ) :
    coefCrc charSigned doubleBytes fmd coeff (n + 1) =
      filterCrc charSigned doubleBytes fmd (coeff n)
        (coefCrc charSigned doubleBytes fmd coeff n) n := by
  simp [coefCrc, List.range_succ]

/-- Shared memory holds the filter `j` of the module `m`. -/
structure FilterInShared (fir : Bool) (tmp : ℕ → ℕ → ℕ → K) (m : FmSubSysMap K) (p : VmeCoef K)
    (j : ℕ) : Prop where
  filtSections : (p.vmeCoeffs m.fmModNum).filtSections j = m.fmd.filtSections j
  filterType : (p.vmeCoeffs m.fmModNum).filterType j = m.fmd.filterType j
  sType : (p.vmeCoeffs m.fmModNum).sType j = m.fmd.sType j
  ramp : (p.vmeCoeffs m.fmModNum).ramp j = m.fmd.ramp j
  timout : (p.vmeCoeffs m.fmModNum).timout j = m.fmd.timout j
  coeff : ∀ k < 1 + m.fmd.filtSections j * 4,
    sharedCoeff fir p m.fmModNum j k = tmpCoeff fir tmp m.fmd j k

/-- Shared memory holds the module `m`. -/
structure InShared (fir charSigned : Bool) (doubleBytes : K → List (BitVec 8))
    (tmp : ℕ → ℕ → ℕ → K) (m : FmSubSysMap K) (p : VmeCoef K) : Prop where
  filter : ∀ j < filters, FilterInShared fir tmp m p j
  biquad : (p.vmeCoeffs m.fmModNum).biquad = m.biquad
  crc : (p.vmeCoeffs m.fmModNum).crc =
    coefCrc charSigned doubleBytes m.fmd (tmpCoeff fir tmp m.fmd) filters

/-- The slots of FIR filters are kept or are the ones of the temporary storage. -/
def FirFrom (tmp : ℕ → ℕ → ℕ → K) (p q : VmeCoef K) : Prop :=
  ∀ t j k, q.firFiltCoeff t j k = p.firFiltCoeff t j k ∨ q.firFiltCoeff t j k = tmp t j k

theorem FirFrom.trans {r : VmeCoef K} (h : FirFrom tmp p q) (h' : FirFrom tmp q r) :
    FirFrom tmp p r := by
  intro t j k
  rcases h' t j k with hr | hr
  · rw [hr]
    exact h t j k
  · exact Or.inr hr

/-- The filter `j` of the module `mod` is not written, and the slots of FIR filters only with
what the temporary storage holds. -/
structure StoreFrame (tmp : ℕ → ℕ → ℕ → K) (mod : ℕ) (p q : VmeCoef K) (j : ℕ) : Prop where
  fir : FirFrom tmp p q
  filtSections : (q.vmeCoeffs mod).filtSections j = (p.vmeCoeffs mod).filtSections j
  filterType : (q.vmeCoeffs mod).filterType j = (p.vmeCoeffs mod).filterType j
  sType : (q.vmeCoeffs mod).sType j = (p.vmeCoeffs mod).sType j
  ramp : (q.vmeCoeffs mod).ramp j = (p.vmeCoeffs mod).ramp j
  timout : (q.vmeCoeffs mod).timout j = (p.vmeCoeffs mod).timout j
  filtCoeff : (q.vmeCoeffs mod).filtCoeff j = (p.vmeCoeffs mod).filtCoeff j

theorem firFrom_storeFilter (s : VmeCoef K × BitVec 32) (j : ℕ) :
    FirFrom tmp s.1 (storeFilter fir charSigned doubleBytes tmp m s j).1 := by
  intro t a k
  by_cases hfir : fir ∧ m.fmd.filterType j ≠ 0
  · by_cases ht : t = m.fmd.filterType j - 1
    · subst ht
      by_cases ha : a = j
      · subst ha
        by_cases hk : k < 1 + m.fmd.filtSections a * 4
        · right
          simp [storeFilter, hfir, copyCoeffs, hk]
        · left
          simp [storeFilter, hfir, copyCoeffs, hk]
      · left
        simp [storeFilter, hfir, ha]
    · left
      simp [storeFilter, hfir, ht]
  · left
    simp [storeFilter, hfir]

theorem storeFilter_frame {i : ℕ} (hij : i ≠ j) (s : VmeCoef K × BitVec 32) :
    StoreFrame tmp m.fmModNum s.1 (storeFilter fir charSigned doubleBytes tmp m s j).1 i where
  fir := firFrom_storeFilter s j
  filtSections := by simp [storeFilter, hij]
  filterType := by simp [storeFilter, hij]
  sType := by simp [storeFilter, hij]
  ramp := by simp [storeFilter, hij]
  timout := by simp [storeFilter, hij]
  filtCoeff := by
    by_cases hfir : fir ∧ m.fmd.filterType j ≠ 0
    · simp [storeFilter, hfir]
    · simp [storeFilter, hfir, hij]

/-- The filter `j` is stored by its pass. -/
theorem storeFilter_self (s : VmeCoef K × BitVec 32) :
    FilterInShared fir tmp m (storeFilter fir charSigned doubleBytes tmp m s j).1 j where
  filtSections := by simp [storeFilter]
  filterType := by simp [storeFilter]
  sType := by simp [storeFilter]
  ramp := by simp [storeFilter]
  timout := by simp [storeFilter]
  coeff k hk := by
    by_cases hfir : fir ∧ m.fmd.filterType j ≠ 0
    · simp [storeFilter, sharedCoeff, tmpCoeff, hfir, copyCoeffs, hk]
    · simp [storeFilter, sharedCoeff, tmpCoeff, hfir, copyCoeffs, hk]

/-- A filter that is stored stays stored when the rest is written. -/
theorem FilterInShared.frame (h : FilterInShared fir tmp m p j)
    (hf : StoreFrame tmp m.fmModNum p q j) : FilterInShared fir tmp m q j where
  filtSections := hf.filtSections.trans h.filtSections
  filterType := hf.filterType.trans h.filterType
  sType := hf.sType.trans h.sType
  ramp := hf.ramp.trans h.ramp
  timout := hf.timout.trans h.timout
  coeff k hk := by
    have hk' := h.coeff k hk
    unfold sharedCoeff tmpCoeff at hk' ⊢
    rw [hf.filterType, hf.filtCoeff]
    rw [h.filterType] at hk' ⊢
    split at hk'
    · -- a slot of the FIR filters is written with what it holds
      rename_i hfir
      rw [if_pos hfir, if_pos hfir]
      rcases hf.fir (m.fmd.filterType j - 1) j k with hq | hq
      · rw [hq]
        exact hk'
      · exact hq
    · rename_i hfir
      rw [if_neg hfir, if_neg hfir]
      exact hk'

/-- The loop over the filters before `n`. -/
theorem storeFilters (p : VmeCoef K) (n : ℕ) :
    ∀ s, s = (List.range n).foldl (storeFilter fir charSigned doubleBytes tmp m) (p, 0) →
      (∀ i < n, FilterInShared fir tmp m s.1 i) ∧
        (∀ a ≠ m.fmModNum, s.1.vmeCoeffs a = p.vmeCoeffs a) ∧ FirFrom tmp p s.1 ∧
        s.2 = coefCrc charSigned doubleBytes m.fmd (tmpCoeff fir tmp m.fmd) n := by
  induction n with
  | zero =>
    rintro s rfl
    exact ⟨nofun, fun _ _ => rfl, fun _ _ _ => Or.inl rfl, rfl⟩
  | succ n ih =>
    rintro s rfl
    obtain ⟨hstored, hother, hfir, hcrc⟩ := ih _ rfl
    rw [List.range_succ, List.foldl_append, List.foldl_cons, List.foldl_nil]
    generalize (List.range n).foldl (storeFilter fir charSigned doubleBytes tmp m) (p, 0) = s
      at hstored hother hfir hcrc
    refine ⟨?_, ?_, hfir.trans (firFrom_storeFilter s n), ?_⟩
    · intro i hi
      by_cases hin : i = n
      · subst hin
        exact storeFilter_self s
      · exact (hstored i (by omega)).frame (storeFilter_frame hin s)
    · intro a ha
      rw [← hother a ha]
      simp [storeFilter, ha]
    · rw [coefCrc_succ, ← hcrc]
      rfl

variable (fir charSigned doubleBytes tmp) in
theorem storeModule_spec (p : VmeCoef K) (m : FmSubSysMap K) :
    InShared fir charSigned doubleBytes tmp m (storeModule fir charSigned doubleBytes tmp p m) ∧
      (∀ a ≠ m.fmModNum, (storeModule fir charSigned doubleBytes tmp p m).vmeCoeffs a =
        p.vmeCoeffs a) ∧ FirFrom tmp p (storeModule fir charSigned doubleBytes tmp p m) := by
  obtain ⟨hstored, hother, hfir, hcrc⟩ := storeFilters p filters _
    (rfl : (List.range filters).foldl (storeFilter fir charSigned doubleBytes tmp m) (p, 0) = _)
  unfold storeModule
  generalize (List.range filters).foldl (storeFilter fir charSigned doubleBytes tmp m) (p, 0) = s
    at hstored hother hfir hcrc
  obtain ⟨q, crc⟩ := s
  refine ⟨⟨?_, by simp, by simpa using hcrc⟩, ?_, hfir⟩
  · intro j hj
    refine (hstored j hj).frame ?_
    constructor <;> simp +contextual [FirFrom]
  · intro a ha
    simp only [Function.update_of_ne ha]
    exact hother a ha

theorem InShared.other (h : InShared fir charSigned doubleBytes tmp m p)
    (hne : m.fmModNum ≠ m'.fmModNum) :
    InShared fir charSigned doubleBytes tmp m
      (storeModule fir charSigned doubleBytes tmp p m') := by
  obtain ⟨-, hother, hfir⟩ :=
    storeModule_spec fir charSigned doubleBytes tmp p m'
  have hsame := hother _ hne
  refine ⟨fun j hj => (h.filter j hj).frame ?_, ?_, ?_⟩
  · refine ⟨hfir, ?_, ?_, ?_, ?_, ?_, ?_⟩
    all_goals rw [hsame]
  · rw [hsame]
    exact h.biquad
  · rw [hsame]
    exact h.crc

/-- What storing a module makes hold, and storing the others keeps, holds after the loop over the
modules. -/
theorem foldl_storeModule {P : VmeCoef K → Prop} {ms : List (FmSubSysMap K)}
    (hself : ∀ p, P (storeModule fir charSigned doubleBytes tmp p m))
    (hother : ∀ p m', m.fmModNum ≠ m'.fmModNum → P p →
      P (storeModule fir charSigned doubleBytes tmp p m'))
    (hnodup : (ms.map (·.fmModNum)).Nodup) (hm : m ∈ ms) (p : VmeCoef K) :
    P (ms.foldl (storeModule fir charSigned doubleBytes tmp) p) := by
  induction ms using List.reverseRecOn with
  | nil => cases hm
  | append_singleton ms m' ih =>
    rw [List.foldl_append, List.foldl_cons, List.foldl_nil]
    rw [List.map_append, List.nodup_append] at hnodup
    rcases List.mem_append.mp hm with hm | hm
    · have hne : m.fmModNum ≠ m'.fmModNum :=
        hnodup.2.2 _ (List.mem_map_of_mem hm) _ (by simp)
      exact hother _ _ hne (ih hnodup.1 hm)
    · rw [← List.mem_singleton.mp hm]
      exact hself _

/-- The loop over the modules stores each of them. -/
theorem inShared_foldl {ms : List (FmSubSysMap K)} (hnodup : (ms.map (·.fmModNum)).Nodup)
    (hm : m ∈ ms) (p : VmeCoef K) :
    InShared fir charSigned doubleBytes tmp m
      (ms.foldl (storeModule fir charSigned doubleBytes tmp) p) :=
  foldl_storeModule (fun p => (storeModule_spec _ _ _ _ p m).1) (fun _ _ hne h => h.other hne)
    hnodup hm p

end Store

/-! ## Reading -/

section Read

variable {K : Type} {fir charSigned : Bool} {strtod : List Char → K × List Char}

/-- The number of sections and the type of a filter belong together. -/
def FilterOk (fir : Bool) (vme : VmeFmOpCoef K) (j : ℕ) : Prop :=
  (vme.filtSections j ≤ maxSoSections ∧ vme.filterType j = 0) ∨
    (fir = true ∧ maxSoSections < vme.filtSections j ∧ vme.filtSections j ≤ maxFirSoSections ∧
      0 < vme.filterType j ∧ vme.filterType j ≤ maxFirModules)

theorem failIf_ok {bad : Prop} [Decidable bad] {e : LineError} {u : Unit}
    (h : failIf bad e = .ok u) : ¬ bad := by
  unfold failIf at h
  split at h
  · cases h
  · assumption

/-- What the checks of a line on which a filter starts let through. -/
structure FilterLine.Ok (fir : Bool) (d : FilterLine K) : Prop where
  num : d.num < filters
  filtSections : 0 < d.filtSections
  kind : (d.filtSections ≤ maxSoSections ∧ d.filterType = 0) ∨
    (fir = true ∧ maxSoSections < d.filtSections ∧ d.filtSections ≤ maxFirSoSections ∧
      0 < d.filterType ∧ d.filterType ≤ maxFirModules)

theorem parseFilterLine_ok [Zero K] {n : ℕ} {tok : List (List Char)} {d : FilterLine K}
    (h : parseFilterLine fir strtod n tok = .ok d) : d.Ok fir := by
  unfold parseFilterLine at h
  obtain ⟨num, -, h⟩ := bind_ok h
  obtain ⟨_, hnum, h⟩ := bind_ok h
  obtain ⟨sType, -, h⟩ := bind_ok h
  obtain ⟨_, -, h⟩ := bind_ok h
  obtain ⟨filtSections, -, h⟩ := bind_ok h
  obtain ⟨_, hsections, h⟩ := bind_ok h
  obtain ⟨_, hfirs, h⟩ := bind_ok h
  obtain ⟨ramp, -, h⟩ := bind_ok h
  obtain ⟨_, -, h⟩ := bind_ok h
  obtain ⟨timeout, -, h⟩ := bind_ok h
  obtain ⟨_, -, h⟩ := bind_ok h
  obtain ⟨_, -, h⟩ := bind_ok h
  obtain ⟨filtCoeff, -, h⟩ := bind_ok h
  cases h
  have hnum := failIf_ok hnum
  have hsections := failIf_ok hsections
  have hfirs := failIf_ok hfirs
  rw [not_not] at hsections
  have hso : maxSoSections = 10 := rfl
  have hfirSo : maxFirSoSections = 128 := rfl
  have hmodules : maxFirModules = 6 := rfl
  have hfilters : filters = 10 := rfl
  refine ⟨?_, ?_, ?_⟩
  · show num.toNat < filters
    omega
  · show 0 < filtSections.toNat
    omega
  · show (filtSections.toNat ≤ maxSoSections ∧ _ = 0) ∨ _
    by_cases hbig : filtSections > maxSoSections
    · right
      simp only [hbig, if_true]
      have hfir : fir = true := by
        by_contra hfir
        simp only [maxSos, hfir] at hsections
        have := hsections.2
        simp at this
        omega
      have hmax := hsections.2
      simp only [maxSos, hfir, if_true] at hmax
      refine ⟨hfir, ?_, ?_, ?_, ?_⟩
      all_goals omega
    · left
      simp only [hbig, if_false]
      refine ⟨?_, trivial⟩
      omega

/-- What the configuration says about a module. -/
def FmSubSysMap.config (m : FmSubSysMap K) : List Char × ℕ × ℤ := (m.name, m.fmModNum, m.biquad)

/-- The placeholders are those of the modules of `map`, and each holds filters that are in
order. -/
def MapOk (fir : Bool) (map : List (FmSubSysMap K)) (s : ReadState K) : Prop :=
  s.map.map FmSubSysMap.config = map.map FmSubSysMap.config ∧
    ∀ m ∈ s.map, ∀ j, FilterOk fir m.fmd j

variable {map : List (FmSubSysMap K)} {s t : ReadState K}

/-- A list in which an entry is replaced by one with the same value of `f`. -/
theorem map_set_of_eq {α β : Type} {f : α → β} {l : List α} {i : ℕ} {a b : α}
    (h : l[i]? = some a) (hb : f b = f a) : (l.set i b).map f = l.map f := by
  refine List.ext_getElem? fun k => ?_
  rw [List.getElem?_map, List.getElem?_map, List.getElem?_set]
  split
  · rename_i hk
    subst hk
    obtain ⟨hlt, rfl⟩ := List.getElem?_eq_some_iff.mp h
    simp [hlt, hb]
  · rfl

/-- A placeholder is written. -/
theorem MapOk.set (h : MapOk fir map s) {i : ℕ} {cur new : FmSubSysMap K}
    (hi : s.map[i]? = some cur) (hcfg : new.config = cur.config)
    (hnew : ∀ j, FilterOk fir new.fmd j) (ht : t.map = s.map.set i new) : MapOk fir map t := by
  obtain ⟨hconfig, hok⟩ := h
  constructor
  · rw [ht, map_set_of_eq hi hcfg]
    exact hconfig
  · intro m hm
    rw [ht] at hm
    rcases List.mem_or_eq_of_mem_set hm with hm | rfl
    · exact hok m hm
    · exact hnew

variable [Add K] [Sub K] [Neg K] [One K]

theorem MapOk.putCont (h : MapOk fir map s) (i inFilter : ℕ) (filtCoeff : ℕ → K) :
    MapOk fir map (putCont fir s i inFilter filtCoeff) := by
  unfold AdvLigoRts.Drv.putCont
  split
  · exact h
  · rename_i cur hi
    dsimp only
    have hcur := h.2 cur (List.mem_of_getElem? hi)
    split
    · split
      · exact h
      · exact h
    · refine h.set hi ?_ ?_ rfl
      · rfl
      · exact hcur

theorem MapOk.putFilter (h : MapOk fir map s) (name : List Char) {d : FilterLine K}
    (hd : d.Ok fir) : MapOk fir map (putFilter fir s name d) := by
  unfold AdvLigoRts.Drv.putFilter
  dsimp only
  split
  · exact h
  · rename_i i _
    split
    · exact h
    · rename_i cur hi
      refine h.set hi ?_ ?_ rfl
      · rfl
      · intro j
        have hj := h.2 cur (List.mem_of_getElem? hi) j
        by_cases hnum : j = d.num
        · subst hnum
          have hkind := hd.kind
          unfold FilterOk
          split
          all_goals simpa using hkind
        · unfold FilterOk at hj ⊢
          split
          all_goals simpa [hnum] using hj

variable [Zero K]

/-- What a line does that is let through. -/
theorem readLine_cases {line : List Char} (h : readLine fir strtod s line = .ok t) :
    t = s ∨ (s.inFilter ≠ 0 ∧ s.curFilter = none ∧ t = { s with inFilter := s.inFilter - 1 }) ∨
      (∃ i filtCoeff, s.inFilter ≠ 0 ∧ s.curFilter = some i ∧
        doubleTokens strtod (lineTok line) 0 4 = some filtCoeff ∧
        t = putCont fir s i (s.inFilter - 1) filtCoeff) ∨
      ∃ d, s.inFilter = 0 ∧ parseFilterLine fir strtod s.nFirFilters (lineTok line) = .ok d ∧
        t = putFilter fir s ((lineTok line).getD 0 []) d := by
  unfold readLine at h
  split at h
  · cases h
    exact Or.inl rfl
  · dsimp only at h
    generalize (if s.inFilter ≠ 0 then 4 else maxTokens) = words at h
    split at h
    · cases h
    · split at h
      · rename_i hin
        split at h
        · rename_i hcur
          cases h
          exact Or.inr (Or.inl ⟨hin, hcur, rfl⟩)
        · rename_i i hcur
          split at h
          · cases h
          · rename_i filtCoeff hcoeff
            cases h
            exact Or.inr (Or.inr (Or.inl ⟨i, filtCoeff, hin, hcur, hcoeff, rfl⟩))
      · rename_i hin
        split at h
        · cases h
        · rename_i d hparse
          cases h
          exact Or.inr (Or.inr (Or.inr ⟨d, not_not.mp hin, hparse, rfl⟩))

theorem MapOk.readLine (h : MapOk fir map s) {line : List Char}
    (hread : readLine fir strtod s line = .ok t) : MapOk fir map t := by
  obtain rfl | ⟨-, -, rfl⟩ | ⟨i, filtCoeff, -, -, -, rfl⟩ | ⟨d, -, hparse, rfl⟩ :=
    readLine_cases hread
  · exact h
  · exact h
  · exact h.putCont _ _ _
  · exact h.putFilter _ (parseFilterLine_ok hparse)

theorem MapOk.readLines (h : MapOk fir map s) {lines : List (List Char)}
    (hread : readLines fir strtod s lines = .ok t) : MapOk fir map t := by
  refine foldlM_invariant (MapOk fir map) ?_ h hread
  rintro ⟨line, k⟩ - s t hs hst
  dsimp only at hst
  split at hst
  · rename_i u hline
    cases hst
    exact hs.readLine hline
  · cases hst

/-! ## The whole file -/

theorem fmReadCoeffFile_ok {doubleBytes : K → List (BitVec 8)} {files : InputFiles}
    {tmp : ℕ → ℕ → ℕ → K} {p q : VmeCoef K}
    (h : fmReadCoeffFile fir charSigned doubleBytes strtod files map tmp p = .ok (s, q)) :
    MapOk fir map s ∧ q = s.map.foldl
      (storeModule fir charSigned doubleBytes s.firFiltCoeff) p := by
  unfold fmReadCoeffFile at h
  split at h
  · cases h
  · split at h
    · cases h
    · rename_i s1 h1
      split at h
      · cases h
      · rename_i s2 h2
        cases h
        refine ⟨MapOk.readLines (MapOk.readLines ⟨?_, ?_⟩ h1) h2, rfl⟩
        · simp [ReadState.start, FmSubSysMap.clear, FmSubSysMap.config, Function.comp_def]
        · intro m hm j
          obtain ⟨m', -, rfl⟩ := List.mem_map.mp hm
          left
          exact ⟨Nat.zero_le _, rfl⟩

theorem inShared_fmReadCoeffFile {doubleBytes : K → List (BitVec 8)} {files : InputFiles}
    {tmp : ℕ → ℕ → ℕ → K} {p q : VmeCoef K} {i : ℕ} {m : FmSubSysMap K}
    (hnodup : (map.map (·.fmModNum)).Nodup) (hi : map[i]? = some m)
    (h : fmReadCoeffFile fir charSigned doubleBytes strtod files map tmp p = .ok (s, q)) :
    ∃ m', s.map[i]? = some m' ∧ m'.config = m.config ∧ (∀ j, FilterOk fir m'.fmd j) ∧
      InShared fir charSigned doubleBytes s.firFiltCoeff m' q := by
  obtain ⟨⟨hconfig, hok⟩, rfl⟩ := fmReadCoeffFile_ok h
  have hget : (s.map.map FmSubSysMap.config)[i]? = some m.config := by
    rw [hconfig, List.getElem?_map, hi]
    rfl
  rw [List.getElem?_map, Option.map_eq_some_iff] at hget
  obtain ⟨m', hm', hcfg⟩ := hget
  have hmem := List.mem_of_getElem? hm'
  refine ⟨m', hm', hcfg, hok m' hmem, inShared_foldl ?_ hmem p⟩
  have hnums : s.map.map (·.fmModNum) = map.map (·.fmModNum) := by
    have := congrArg (List.map (fun c : List Char × ℕ × ℤ => c.2.1)) hconfig
    simpa [FmSubSysMap.config, Function.comp_def] using this
  rw [hnums]
  exact hnodup

end Read

/-- Numbers without a fraction. -/
def readInteger (str : List Char) : ℤ × List Char := (takeInt str).getD (0, str)

def twoSections : InputFiles :=
  .ok (["FM 0 12 2 0 0 LP 2 3 1 4 1\n".toList, "5 9 2 6\n".toList], none)

def moduleFm : FmSubSysMap ℤ where
  name := "FM".toList
  fmModNum := 0
  biquad := 0
  filters := 0
  fmd := VmeFmOpCoef.zero

end AdvLigoRts.Drv
