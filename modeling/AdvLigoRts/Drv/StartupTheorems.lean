import AdvLigoRts.Drv.ReloadTheorems

/-!
# What `readCoefVme` leaves at start-up

On cleared memory and with shared memory that `fmReadCoeffFile` has left, `readCoefVme` returns
with every module as shared memory has it (`readCoefVme_zero`). `Stored` is that shared memory,
`SharedOk` what holds of all its modules.
-/

namespace AdvLigoRts.Drv

open PvLib

/-! ## Shared memory that is read -/

section Stored

variable {K : Type} {fir charSigned : Bool} {doubleBytes : K → List (BitVec 8)}
variable {strtod : List Char → K × List Char} {map : List (FmSubSysMap K)} {p : VmeCoef K}

/-- The filters of all modules are in order. -/
def SharedOk (fir : Bool) (p : VmeCoef K) : Prop :=
  ∀ a, ∀ j < filters, FilterOk fir (p.vmeCoeffs a) j

/-- A module of the subsystem in shared memory, with the checksum of its filters. -/
structure ModuleStored (fir charSigned : Bool) (doubleBytes : K → List (BitVec 8))
    (m : FmSubSysMap K) (p : VmeCoef K) : Prop where
  biquad : (p.vmeCoeffs m.fmModNum).biquad = m.biquad
  crc : (p.vmeCoeffs m.fmModNum).crc = coefCrc charSigned doubleBytes (p.vmeCoeffs m.fmModNum)
    (sharedCoeff fir p m.fmModNum) filters

variable {tmp : ℕ → ℕ → ℕ → K} {m : FmSubSysMap K}

theorem FilterInShared.filterOk {j : ℕ} (h : FilterInShared fir tmp m p j)
    (hok : FilterOk fir m.fmd j) : FilterOk fir (p.vmeCoeffs m.fmModNum) j := by
  unfold FilterOk
  rw [h.filtSections, h.filterType]
  exact hok

theorem FilterInShared.filterCrc {j : ℕ} (h : FilterInShared fir tmp m p j) (crc : BitVec 32) :
    filterCrc charSigned doubleBytes (p.vmeCoeffs m.fmModNum) (sharedCoeff fir p m.fmModNum j)
        crc j = Drv.filterCrc charSigned doubleBytes m.fmd (tmpCoeff fir tmp m.fmd j) crc j := by
  simp only [Drv.filterCrc, h.filtSections, h.sType, h.ramp, h.timout]
  congr 1
  refine List.foldl_ext _ _ _ fun crc k hk => ?_
  rw [h.coeff k (List.mem_range.mp hk)]

theorem coefCrc_inShared {n : ℕ} (h : ∀ j < n, FilterInShared fir tmp m p j) :
    coefCrc charSigned doubleBytes (p.vmeCoeffs m.fmModNum) (sharedCoeff fir p m.fmModNum) n =
      coefCrc charSigned doubleBytes m.fmd (tmpCoeff fir tmp m.fmd) n := by
  induction n with
  | zero => simp only [coefCrc, List.range_zero, List.foldl_nil]
  | succ n ih =>
    have hn := h n (Nat.lt_succ_self n)
    rw [coefCrc_succ, coefCrc_succ, ih fun j hj => h j (by omega), hn.filterCrc]

/-- The modules that are not of the subsystem are left alone. -/
theorem foldl_storeModule_other {ms : List (FmSubSysMap K)} {a : ℕ}
    (ha : ∀ m ∈ ms, a ≠ m.fmModNum) (p : VmeCoef K) :
    (ms.foldl (storeModule fir charSigned doubleBytes tmp) p).vmeCoeffs a = p.vmeCoeffs a := by
  induction ms generalizing p with
  | nil => rfl
  | cons m ms ih =>
    rw [List.foldl_cons, ih fun m' hm' => ha m' (List.mem_cons_of_mem m hm')]
    exact (storeModule_spec _ _ _ _ p m).2.1 a (ha m List.mem_cons_self)

variable [Add K] [Sub K] [Neg K] [One K] [Zero K]

/-- Shared memory that `fmReadCoeffFile` has left, in one call or in several. -/
inductive Stored (fir charSigned : Bool) (doubleBytes : K → List (BitVec 8))
    (strtod : List Char → K × List Char) (map : List (FmSubSysMap K)) : VmeCoef K → Prop
  | first {files tmp s q}
      (h : fmReadCoeffFile fir charSigned doubleBytes strtod files map tmp VmeCoef.zero =
        .ok (s, q)) : Stored fir charSigned doubleBytes strtod map q
  | again {files tmp p s q} (hp : Stored fir charSigned doubleBytes strtod map p)
      (h : fmReadCoeffFile fir charSigned doubleBytes strtod files map tmp p = .ok (s, q)) :
      Stored fir charSigned doubleBytes strtod map q

/-- A call of `fmReadCoeffFile` that succeeds. -/
theorem SharedOk.read {files : InputFiles} {s : ReadState K} {q : VmeCoef K} (hp : SharedOk fir p)
    (hnodup : (map.map (·.fmModNum)).Nodup)
    (h : fmReadCoeffFile fir charSigned doubleBytes strtod files map tmp p = .ok (s, q)) :
    SharedOk fir q := by
  obtain ⟨⟨hconfig, hok⟩, rfl⟩ := fmReadCoeffFile_ok h
  intro a j hj
  by_cases ha : ∃ m ∈ s.map, a = m.fmModNum
  · obtain ⟨m, hm, rfl⟩ := ha
    have hnums : s.map.map (·.fmModNum) = map.map (·.fmModNum) := by
      have hnum := congrArg (List.map (fun c : List Char × ℕ × ℤ => c.2.1)) hconfig
      simpa [FmSubSysMap.config, Function.comp_def] using hnum
    have hshared : InShared fir charSigned doubleBytes s.firFiltCoeff m (s.map.foldl
        (storeModule fir charSigned doubleBytes s.firFiltCoeff) p) :=
      inShared_foldl (hnums ▸ hnodup) hm p
    exact (hshared.filter j hj).filterOk (hok m hm j)
  · rw [foldl_storeModule_other fun m hm heq => ha ⟨m, hm, heq⟩]
    exact hp a j hj

theorem Stored.sharedOk (h : Stored fir charSigned doubleBytes strtod map p)
    (hnodup : (map.map (·.fmModNum)).Nodup) : SharedOk fir p := by
  induction h with
  | first h =>
    have hzero : SharedOk fir (VmeCoef.zero : VmeCoef K) :=
      fun _ _ _ => Or.inl ⟨Nat.zero_le _, rfl⟩
    exact hzero.read hnodup h
  | again _ h ih => exact ih.read hnodup h

theorem moduleStored_read {files : InputFiles} {s : ReadState K} {q : VmeCoef K}
    (hnodup : (map.map (·.fmModNum)).Nodup) (hm : m ∈ map)
    (h : fmReadCoeffFile fir charSigned doubleBytes strtod files map tmp p = .ok (s, q)) :
    ModuleStored fir charSigned doubleBytes m q := by
  obtain ⟨i, hi⟩ := List.getElem?_of_mem hm
  obtain ⟨m', -, hcfg, -, hshared⟩ := inShared_fmReadCoeffFile hnodup hi h
  have hnum : m'.fmModNum = m.fmModNum := congrArg (·.2.1) hcfg
  have hbiquad : m'.biquad = m.biquad := congrArg (·.2.2) hcfg
  constructor
  · rw [← hnum, hshared.biquad, hbiquad]
  · rw [← hnum, hshared.crc, coefCrc_inShared hshared.filter]

theorem Stored.module (h : Stored fir charSigned doubleBytes strtod map p)
    (hnodup : (map.map (·.fmModNum)).Nodup) (hm : m ∈ map) :
    ModuleStored fir charSigned doubleBytes m p := by
  cases h with
  | first h | again _ h => exact moduleStored_read hnodup hm h

end Stored

/-! ## Loading it into cleared memory -/

section Start

variable {K : Type} {fir : Bool} {p : VmeCoef K} {mod j n : ℕ} {s t : Coef K × FiltMod}

/-- The coefficients of a filter in local memory. -/
def localCoeffs (filtC : Coef K) (mod j : ℕ) : ℕ → K :=
  slotCoeff filtC mod j ((filtC.coeffs mod).filterType j)

/-- Local memory holds the filter `j` of the module as shared memory does. -/
structure FilterStarted (fir : Bool) (p : VmeCoef K) (mod j : ℕ) (s : Coef K × FiltMod) :
    Prop where
  filtSections : (s.1.coeffs mod).filtSections j = (p.vmeCoeffs mod).filtSections j
  filterType : (s.1.coeffs mod).filterType j = (p.vmeCoeffs mod).filterType j
  sType : (p.vmeCoeffs mod).filtSections j ≠ 0 →
    (s.1.coeffs mod).sType j = (p.vmeCoeffs mod).sType j
  ramp : (p.vmeCoeffs mod).filtSections j ≠ 0 →
    (s.2.inputs mod).rmpcmp j = (p.vmeCoeffs mod).ramp j
  timeout : (p.vmeCoeffs mod).filtSections j ≠ 0 →
    (s.2.inputs mod).timeout j = (p.vmeCoeffs mod).timout j
  filtCoeff : (p.vmeCoeffs mod).filtSections j ≠ 0 → (p.vmeCoeffs mod).filterType j = 0 →
    ∀ k < (p.vmeCoeffs mod).filtSections j * 4 + 1,
      (s.1.coeffs mod).filtCoeff j k = sharedCoeff fir p mod j k

/-- Local memory holds the module as shared memory does. -/
structure ModuleStarted (fir : Bool) (p : VmeCoef K) (mod : ℕ) (s : Coef K × FiltMod) : Prop where
  filter : ∀ j < filters, FilterStarted fir p mod j s
  biquad : (s.1.coeffs mod).biquad = (p.vmeCoeffs mod).biquad

/-- The FIR filters of shared memory are in local memory. -/
def FirStarted (fir : Bool) (p : VmeCoef K) (s : Coef K × FiltMod) : Prop :=
  fir = true → ∀ t j k, t < maxFirModules → j < filters → k < firTaps + 1 →
    s.1.firFiltCoeff t j k = p.firFiltCoeff t j k

/-- The filters of the module have no sections in local memory yet. -/
def Blank (mod j : ℕ) (s : Coef K × FiltMod) : Prop :=
  (s.1.coeffs mod).filtSections j = 0 ∧ (s.1.coeffs mod).filterType j = 0

/-- The memory but for the module is the same. -/
structure StartFrame (mod : ℕ) (s t : Coef K × FiltMod) : Prop where
  coeffs : ∀ a ≠ mod, t.1.coeffs a = s.1.coeffs a
  inputs : ∀ a ≠ mod, t.2.inputs a = s.2.inputs a
  fir : t.1.firFiltCoeff = s.1.firFiltCoeff

/-- The filter `i` is the same. -/
structure FilterFrame (mod i : ℕ) (s t : Coef K × FiltMod) : Prop where
  filtSections : (t.1.coeffs mod).filtSections i = (s.1.coeffs mod).filtSections i
  filterType : (t.1.coeffs mod).filterType i = (s.1.coeffs mod).filterType i
  sType : (t.1.coeffs mod).sType i = (s.1.coeffs mod).sType i
  ramp : (t.2.inputs mod).rmpcmp i = (s.2.inputs mod).rmpcmp i
  timeout : (t.2.inputs mod).timeout i = (s.2.inputs mod).timeout i
  filtCoeff : (t.1.coeffs mod).filtCoeff i = (s.1.coeffs mod).filtCoeff i

theorem FilterStarted.frame (h : FilterStarted fir p mod j s) (hf : FilterFrame mod j s t) :
    FilterStarted fir p mod j t where
  filtSections := hf.filtSections.trans h.filtSections
  filterType := hf.filterType.trans h.filterType
  sType hn := hf.sType.trans (h.sType hn)
  ramp hn := hf.ramp.trans (h.ramp hn)
  timeout hn := hf.timeout.trans (h.timeout hn)
  filtCoeff hn ht k hk := by
    rw [hf.filtCoeff]
    exact h.filtCoeff hn ht k hk

theorem Blank.frame (h : Blank mod j s) (hf : FilterFrame mod j s t) : Blank mod j t :=
  ⟨hf.filtSections.trans h.1, hf.filterType.trans h.2⟩

/-- A pass of the inner loop of `readCoefVme`, on the filter `j`. -/
structure FilterRead (fir : Bool) (p : VmeCoef K) (mod j : ℕ) (s t : Coef K × FiltMod) :
    Prop where
  started : FilterStarted fir p mod j t
  frame : ∀ i ≠ j, FilterFrame mod i s t
  biquad : (t.1.coeffs mod).biquad = (s.1.coeffs mod).biquad
  other : StartFrame mod s t

theorem readCoefFilter_spec (hok : FilterOk fir (p.vmeCoeffs mod) j) (hs : Blank mod j s) :
    ∃ t, readCoefFilter fir p mod s j = .ok t ∧ FilterRead fir p mod j s t := by
  obtain ⟨hblank, hblank'⟩ := hs
  by_cases hn : (p.vmeCoeffs mod).filtSections j = 0
  · -- a filter without sections is left as it was
    have ht : (p.vmeCoeffs mod).filterType j = 0 := by
      rcases hok with h | h
      · exact h.2
      · omega
    refine ⟨s, if_pos hn, ⟨?_, ?_, rfl, ?_⟩⟩
    · constructor
      all_goals simp [hn, ht, hblank, hblank']
    · exact fun i _ => ⟨rfl, rfl, rfl, rfl, rfl, rfl⟩
    · exact ⟨fun a _ => rfl, fun a _ => rfl, rfl⟩
  · have hfew : ¬ (fir = true ∧ (p.vmeCoeffs mod).filterType j > maxFirModules) := by
      rcases hok with h | h
      · omega
      · omega
    unfold readCoefFilter
    dsimp only
    rw [if_neg hn, if_neg hfew]
    by_cases ht : (p.vmeCoeffs mod).filterType j = 0
    · have hten : ¬ (p.vmeCoeffs mod).filtSections j > 10 := by
        have hso : maxSoSections = 10 := rfl
        rcases hok with h | h
        · omega
        · omega
      rw [if_pos ht, if_neg hten]
      refine ⟨_, rfl, ⟨?_, ?_, by simp, ?_⟩⟩
      · constructor
        case filtCoeff =>
          intro _ _ k hk
          simp only [Function.update_self, if_pos hk, sharedCoeff_iir _ ht]
        all_goals simp
      · intro i hi
        constructor
        all_goals simp [hi]
      · constructor
        all_goals simp +contextual
    · rw [if_neg ht]
      refine ⟨_, rfl, ⟨?_, ?_, by simp, ?_⟩⟩
      · constructor
        all_goals simp [ht]
      · intro i hi
        constructor
        all_goals simp [hi]
      · constructor
        all_goals simp +contextual

theorem StartFrame.trans {u : Coef K × FiltMod} (h : StartFrame mod s t)
    (h' : StartFrame mod t u) : StartFrame mod s u where
  coeffs a ha := (h'.coeffs a ha).trans (h.coeffs a ha)
  inputs a ha := (h'.inputs a ha).trans (h.inputs a ha)
  fir := h'.fir.trans h.fir

/-- The filters before `j` are done, from the memory `s0`. -/
structure FiltersRead (fir : Bool) (p : VmeCoef K) (mod : ℕ) (s0 : Coef K × FiltMod) (j : ℕ)
    (s : Coef K × FiltMod) : Prop where
  started : ∀ i < j, FilterStarted fir p mod i s
  blank : ∀ i ≥ j, Blank mod i s
  biquad : (s.1.coeffs mod).biquad = (p.vmeCoeffs mod).biquad
  other : StartFrame mod s0 s

theorem FiltersRead.next {s0 : Coef K × FiltMod} (h : FiltersRead fir p mod s0 j s)
    (hr : FilterRead fir p mod j s t) : FiltersRead fir p mod s0 (j + 1) t where
  started i hi := by
    by_cases hij : i = j
    · subst hij
      exact hr.started
    · exact (h.started i (by omega)).frame (hr.frame i hij)
  blank i hi := (h.blank i (by omega)).frame (hr.frame i (by omega))
  biquad := hr.biquad.trans h.biquad
  other := h.other.trans hr.other

/-- A pass of the outer loop of `readCoefVme`. -/
theorem readCoefModule_spec (hok : ∀ j < filters, FilterOk fir (p.vmeCoeffs mod) j)
    (hs : ∀ j, Blank mod j s) :
    ∃ t, readCoefModule fir p s mod = .ok t ∧ ModuleStarted fir p mod t ∧ StartFrame mod s t := by
  have hpass : ∀ j < filters, ∀ s', FiltersRead fir p mod s j s' →
      ∃ t, readCoefFilter fir p mod s' j = .ok t ∧ FiltersRead fir p mod s (j + 1) t := by
    intro j hj s' hs'
    obtain ⟨t, ht, hread⟩ := readCoefFilter_spec (hok j hj) (hs'.blank j le_rfl)
    exact ⟨t, ht, hs'.next hread⟩
  have hloop : ∀ s', FiltersRead fir p mod s 0 s' →
      ∃ t, (List.range filters).foldlM (readCoefFilter fir p mod) s' = .ok t ∧
        FiltersRead fir p mod s filters t :=
    fun s' hs' => foldlM_range_ok (FiltersRead fir p mod s) hpass hs'
  unfold readCoefModule
  dsimp only
  let c : FmOpCoef K := { s.1.coeffs mod with biquad := (p.vmeCoeffs mod).biquad }
  obtain ⟨t, ht, hread⟩ := hloop
    ({ s.1 with coeffs := Function.update s.1.coeffs mod c }, s.2) {
    started := fun i hi => absurd hi (Nat.not_lt_zero i)
    blank := fun i _ => by simpa [Blank, c] using hs i
    biquad := by simp [c]
    other := by
      constructor
      all_goals simp +contextual }
  exact ⟨t, ht, ⟨hread.started, hread.biquad⟩, hread.other⟩

theorem ModuleStarted.frame (h : ModuleStarted fir p mod s) {a : ℕ} (ha : mod ≠ a)
    (hf : StartFrame a s t) : ModuleStarted fir p mod t where
  filter j hj := by
    refine (h.filter j hj).frame ?_
    constructor
    all_goals simp [hf.coeffs mod ha, hf.inputs mod ha]
  biquad := by
    rw [hf.coeffs mod ha]
    exact h.biquad

/-- The modules before `n` are done. -/
structure ModulesRead (fir : Bool) (p : VmeCoef K) (n : ℕ) (s : Coef K × FiltMod) : Prop where
  started : ∀ a < n, ModuleStarted fir p a s
  blank : ∀ a ≥ n, ∀ j, Blank a j s
  fir : FirStarted fir p s

theorem ModulesRead.next (h : ModulesRead fir p n s) (hm : ModuleStarted fir p n t)
    (hf : StartFrame n s t) : ModulesRead fir p (n + 1) t where
  started a ha := by
    by_cases han : a = n
    · subst han
      exact hm
    · exact (h.started a (by omega)).frame han hf
  blank a ha j := by
    have hne : a ≠ n := by omega
    unfold Blank
    rw [hf.coeffs a hne]
    exact h.blank a (by omega) j
  fir hfir t j k ht hj hk := by
    rw [hf.fir]
    exact h.fir hfir t j k ht hj hk

theorem ModulesRead.coeff (h : ModulesRead fir p totMod start) (hmod : mod < totMod)
    (hok : FilterOk fir (p.vmeCoeffs mod) j) (hj : j < filters)
    (hn : (p.vmeCoeffs mod).filtSections j ≠ 0) {k : ℕ}
    (hk : k < (p.vmeCoeffs mod).filtSections j * 4 + 1) :
    localCoeffs start.1 mod j k = sharedCoeff fir p mod j k := by
  have hstarted := (h.started mod hmod).filter j hj
  unfold localCoeffs slotCoeff
  rw [hstarted.filterType]
  by_cases ht : (p.vmeCoeffs mod).filterType j > 0
  · obtain ⟨hfir, hlong, hshort, -, hfew⟩ : _ := hok.resolve_left (by omega)
    have htaps : maxFirSoSections * 4 + 1 = firTaps + 1 := rfl
    rw [if_pos ht, h.fir hfir _ j k (by omega) hj (by omega), hok.sharedCoeff_fir ht]
  · rw [if_neg ht, hstarted.filtCoeff hn (Nat.eq_zero_of_not_pos ht) k hk]

variable [Zero K]

/-- Local memory that has been cleared. -/
def FmOpCoef.zero : FmOpCoef K where
  filtCoeff := fun _ _ => 0
  filtHist := fun _ _ => 0
  filtSections := fun _ => 0
  sType := fun _ => 0
  decHist := fun _ => 0
  filterType := fun _ => 0
  biquad := 0

def Coef.zero : Coef K where
  coeffs := fun _ => FmOpCoef.zero
  firFiltCoeff := fun _ _ _ => 0
  firHistory := fun _ _ _ _ => 0

def FiltMod.zero : FiltMod where
  inputs := fun _ => { opSwitchP := 0, rset := 0, rmpcmp := fun _ => 0, timeout := fun _ => 0 }
  coefLoadError := 0

/-- The start of a front end. -/
theorem readCoefVme_zero (hok : SharedOk fir p) (totMod : ℕ) :
    ∃ s, readCoefVme fir Coef.zero FiltMod.zero 0 totMod p = .ok s ∧
      ModulesRead fir p totMod s := by
  unfold readCoefVme
  rw [Nat.sub_zero, ← List.range_eq_range']
  refine foldlM_range_ok (ModulesRead fir p) ?_ ⟨?_, ?_, ?_⟩
  · intro a _ s hs
    obtain ⟨t, ht, hstarted, hframe⟩ := readCoefModule_spec (hok a) (hs.blank a le_rfl)
    exact ⟨t, ht, hs.next hstarted hframe⟩
  · exact fun a ha => absurd ha (Nat.not_lt_zero a)
  · intro a _ j
    split
    · exact ⟨rfl, rfl⟩
    · exact ⟨rfl, rfl⟩
  · intro hfir t j k ht hj hk
    rw [if_pos hfir]
    exact if_pos ⟨ht, hj, hk⟩

end Start

end AdvLigoRts.Drv
