import AdvLigoRts.Drv.StartupTheorems

/-!
# A reload against a start

A reload that is requested from a state the front end can be in is compared with a start of the
front end. It leaves the flag for the biquad form as it was, and it writes the coefficients of
FIR filters into slots that the filters of other modules may use; in everything else it leaves
what the start leaves.
-/

namespace AdvLigoRts.Drv

open PvLib

section ReloadAsStart

variable {K : Type} [BEq K] [Zero K] {fir charSigned : Bool}
variable {doubleBytes : K → List (BitVec 8)} {p : VmeCoef K} {mod pL totMod : ℕ}

/-! ## The request -/

/-- The states a front end can be in: the counters start at 0, and besides `checkFiltResetId` the
filters and the operator change the memories. -/
inductive Reached (fir charSigned : Bool) (doubleBytes : K → List (BitVec 8)) :
    ResetState K → Prop
  | start {s : ResetState K} (hcoeff : s.fmResetCoeff = 0) (hcounter : s.fmResetCounter = 0)
      (hsub : s.fmSubCounter = 0) : Reached fir charSigned doubleBytes s
  | call {s : ResetState K} (h : Reached fir charSigned doubleBytes s) (bank : ℤ)
      (pL totMod : ℕ) (p : VmeCoef K) :
      Reached fir charSigned doubleBytes
        (checkFiltResetId fir charSigned doubleBytes s bank pL totMod p)
  | run {s : ResetState K} (h : Reached fir charSigned doubleBytes s) (filtC : Coef K)
      (fmt dspVme : FiltMod) :
      Reached fir charSigned doubleBytes
        { s with mem := { s.mem with filtC := filtC, fmt := fmt }, dspVme := dspVme }

/-- No reload is going on: both counters are 0. -/
def Idle (s : ResetState K) : Prop :=
  s.fmResetCoeff = 0 → s.fmResetCounter = 0 ∧ s.fmSubCounter = 0

theorem Idle.call {s : ResetState K} (h : Idle s) (bank : ℤ) :
    Idle (checkFiltResetId fir charSigned doubleBytes s bank pL totMod p) := by
  unfold checkFiltResetId
  split
  · rename_i hgoing
    split
    · dsimp only
      split
      · rename_i hzero
        split
        · exact fun _ => ⟨rfl, hzero⟩
        · exact fun hidle => absurd hidle hgoing
      · exact fun hidle => absurd hidle hgoing
    · exact h
  · rename_i hidle
    have hcounters := h (not_not.mp hidle)
    split
    · dsimp only
      split
      · exact fun _ => hcounters
      · exact fun _ => hcounters
    · exact h

theorem Reached.idle {s : ResetState K} (h : Reached fir charSigned doubleBytes s) : Idle s := by
  induction h with
  | start _ hcounter hsub => exact fun _ => ⟨hcounter, hsub⟩
  | call _ bank _ _ _ ih => exact ih.call bank
  | run _ _ _ _ ih => exact ih

variable (p mod pL totMod) in
/-- A request for new coefficients is accepted. -/
theorem Reached.request {s s1 : ResetState K} (h : Reached fir charSigned doubleBytes s)
    (hidle : s.fmResetCoeff = 0) (hmod : mod < totMod)
    (hreq : (s.dspVme.inputs mod).rset &&& 1 ≠ 0)
    (hs1 : s1 = checkFiltResetId fir charSigned doubleBytes s mod pL totMod p) :
    s1 = working mod 0 0 pL s1.mem s1.dspVme ∧
      ∀ a, (s1.mem.filtC.coeffs a).biquad = (s.mem.filtC.coeffs a).biquad := by
  obtain ⟨hcounter, hsub⟩ := h.idle hidle
  have hbank : (0 : ℤ) ≤ mod ∧ (mod : ℤ) < totMod := by omega
  have hnew : (s.dspVme.inputs mod).rset &&& 0x3 &&& 1 ≠ 0 := by
    rw [UInt32.and_assoc]
    exact hreq
  simp only [checkFiltResetId, hidle, ne_eq, not_true_eq_false, if_false, hbank, and_self, if_true,
    Int.toNat_natCast, hnew, not_false_eq_true] at hs1
  refine ⟨?_, ?_⟩
  · rw [hs1, working, hcounter, hsub]
  · intro a
    rw [hs1]
    dsimp only
    split
    · by_cases ha : a = mod
      · subst ha
        simp
      · simp [ha]
    · rfl

/-! ## The comparison -/

/-- The module in two local memories: the same numbers of sections, types and flag, and for each
filter with sections the same switching, ramp, timeout and coefficients. -/
structure SameModule (mod : ℕ) (start reload : Coef K × FiltMod) : Prop where
  filtSections : ∀ j < filters,
    (reload.1.coeffs mod).filtSections j = (start.1.coeffs mod).filtSections j
  filterType : ∀ j < filters,
    (reload.1.coeffs mod).filterType j = (start.1.coeffs mod).filterType j
  biquad : (reload.1.coeffs mod).biquad = (start.1.coeffs mod).biquad
  sType : ∀ j < filters, (start.1.coeffs mod).filtSections j ≠ 0 →
    (reload.1.coeffs mod).sType j = (start.1.coeffs mod).sType j
  ramp : ∀ j < filters, (start.1.coeffs mod).filtSections j ≠ 0 →
    (reload.2.inputs mod).rmpcmp j = (start.2.inputs mod).rmpcmp j
  timeout : ∀ j < filters, (start.1.coeffs mod).filtSections j ≠ 0 →
    (reload.2.inputs mod).timeout j = (start.2.inputs mod).timeout j
  coeff : ∀ j < filters, (start.1.coeffs mod).filtSections j ≠ 0 →
    ∀ k < 4 * (start.1.coeffs mod).filtSections j + 1,
      localCoeffs reload.1 mod j k = localCoeffs start.1 mod j k

/-- The other modules are as before. -/
structure SameOthers (mod totMod : ℕ) (before after : Coef K × FiltMod) : Prop where
  coeffs : ∀ a < totMod, a ≠ mod → after.1.coeffs a = before.1.coeffs a
  inputs : ∀ a < totMod, a ≠ mod → after.2.inputs a = before.2.inputs a
  fir : ∀ a < totMod, a ≠ mod → ∀ j < filters, 0 < (before.1.coeffs a).filterType j →
    after.1.firFiltCoeff ((before.1.coeffs a).filterType j - 1) j =
        before.1.firFiltCoeff ((before.1.coeffs a).filterType j - 1) j ∧
      after.1.firHistory ((before.1.coeffs a).filterType j - 1) j =
        before.1.firHistory ((before.1.coeffs a).filterType j - 1) j

/-- The slot of the FIR filter `j` has the coefficients that are loaded, and if one of them
differs for the comparison of the code then its history is cleared. -/
def SlotLoaded (fir : Bool) (filtC : Coef K) (p : VmeCoef K) (mod j : ℕ) : Prop :=
  (∀ k < (p.vmeCoeffs mod).filtSections j * 4 + 1,
    filtC.firFiltCoeff ((p.vmeCoeffs mod).filterType j - 1) j k = sharedCoeff fir p mod j k) ∧
  (Differs fir filtC p mod j ((p.vmeCoeffs mod).filtSections j * 4 + 1) →
    ∀ kk < firPolyphaseSize, ∀ hh < firTaps,
      filtC.firHistory ((p.vmeCoeffs mod).filterType j - 1) j kk hh = 0)

/-- The local memory in which a reload does what a start does: it has the flag of shared memory,
and a slot for a FIR filter that another module uses too is already loaded. -/
def ReloadFits (fir : Bool) (filtC : Coef K) (p : VmeCoef K) (mod totMod : ℕ) : Prop :=
  (filtC.coeffs mod).biquad = (p.vmeCoeffs mod).biquad ∧
    ∀ a < totMod, a ≠ mod → ∀ j < filters, 0 < (p.vmeCoeffs mod).filterType j →
      (filtC.coeffs a).filterType j = (p.vmeCoeffs mod).filterType j →
        SlotLoaded fir filtC p mod j

variable {m m' : ReloadMem K} {start : Coef K × FiltMod}

theorem Reloaded.coeff (h : Reloaded fir charSigned doubleBytes p mod m m' filters) {j : ℕ}
    (hj : j < filters) (hn : (p.vmeCoeffs mod).filtSections j ≠ 0) {k : ℕ}
    (hk : k < (p.vmeCoeffs mod).filtSections j * 4 + 1) :
    localCoeffs m'.filtC mod j k = sharedCoeff fir p mod j k := by
  have htype : (m'.filtC.coeffs mod).filterType j = (p.vmeCoeffs mod).filterType j := by
    rw [h.filterType, if_pos hj]
  unfold localCoeffs slotCoeff
  rw [htype]
  by_cases ht : (p.vmeCoeffs mod).filterType j > 0
  · rw [if_pos ht, h.firFiltCoeff, if_pos ⟨hj, hn, ht, rfl, hk⟩]
  · rw [if_neg ht, h.filtCoeff j hj hn (Nat.eq_zero_of_not_pos ht) k hk]

/-- After a reload the module is as after a start, if and only if the flag was right before. -/
theorem sameModule_iff (hok : ∀ j < filters, FilterOk fir (p.vmeCoeffs mod) j)
    (hmod : mod < totMod) (hstart : ModulesRead fir p totMod start)
    (h : Reloaded fir charSigned doubleBytes p mod m m' filters) :
    SameModule mod start (m'.filtC, m'.fmt) ↔
      (m.filtC.coeffs mod).biquad = (p.vmeCoeffs mod).biquad := by
  have hmodule := hstart.started mod hmod
  constructor
  · intro hsame
    rw [← h.biquad, ← hmodule.biquad]
    exact hsame.biquad
  · intro hbiquad
    constructor
    case biquad => exact (h.biquad.trans hbiquad).trans hmodule.biquad.symm
    case filtSections =>
      intro j hj
      rw [h.filtSections, if_pos hj, (hmodule.filter j hj).filtSections]
    case filterType =>
      intro j hj
      rw [h.filterType, if_pos hj, (hmodule.filter j hj).filterType]
    all_goals
      intro j hj hn
      have hstarted := hmodule.filter j hj
      rw [hstarted.filtSections] at hn
    case sType => rw [h.sType j hj hn, hstarted.sType hn]
    case ramp => rw [h.ramp j hj hn, hstarted.ramp hn]
    case timeout => rw [h.timeout j hj hn, hstarted.timeout hn]
    case coeff =>
      intro k hk
      rw [hstarted.filtSections, Nat.mul_comm] at hk
      rw [h.coeff hj hn hk, hstart.coeff hmod (hok j hj) hj hn hk]

variable (totMod) in
theorem sameOthers_iff (hok : ∀ j < filters, FilterOk fir (p.vmeCoeffs mod) j)
    (h : Reloaded fir charSigned doubleBytes p mod m m' filters) :
    SameOthers mod totMod (m.filtC, m.fmt) (m'.filtC, m'.fmt) ↔
      ∀ a < totMod, a ≠ mod → ∀ j < filters, 0 < (p.vmeCoeffs mod).filterType j →
        (m.filtC.coeffs a).filterType j = (p.vmeCoeffs mod).filterType j →
          SlotLoaded fir m.filtC p mod j := by
  have hn : ∀ j < filters, 0 < (p.vmeCoeffs mod).filterType j →
      (p.vmeCoeffs mod).filtSections j ≠ 0 := by
    intro j hj ht
    have hj := hok j hj
    unfold FilterOk at hj
    omega
  constructor
  · intro hsame a ha hne j hj ht htype
    obtain ⟨hcoeff, hhist⟩ := hsame.fir a ha hne j hj (htype ▸ ht)
    rw [htype] at hcoeff hhist
    refine ⟨fun k hk => ?_, fun hdiff kk hkk hh hhh => ?_⟩
    · rw [← hcoeff]
      dsimp only
      rw [h.firFiltCoeff, if_pos ⟨hj, hn j hj ht, ht, rfl, hk⟩]
    · rw [← hhist]
      exact h.cleared _ j kk hh ⟨hj, rfl, ht, rfl, hdiff, hkk, hhh⟩
  · intro hslots
    refine ⟨fun a _ hne => (h.other a hne).1, fun a _ hne => (h.other a hne).2, ?_⟩
    intro a ha hne j hj ht
    dsimp only at ht ⊢
    have hslot : ∀ t, t = (p.vmeCoeffs mod).filterType j - 1 →
        t = (m.filtC.coeffs a).filterType j - 1 → 0 < (p.vmeCoeffs mod).filterType j →
          SlotLoaded fir m.filtC p mod j := by
      intro t hp hl htp
      exact hslots a ha hne j hj htp (by omega)
    refine ⟨funext fun k => ?_, funext fun kk => funext fun hh => ?_⟩
    · rw [h.firFiltCoeff]
      split
      · rename_i hc
        obtain ⟨-, -, htp, ht', hk⟩ := hc
        rw [← (hslot _ ht' rfl htp).1 k hk, ht']
      · rfl
    · by_cases hc : Clears fir m.filtC p mod j ((m.filtC.coeffs a).filterType j - 1) j kk hh
      · obtain ⟨-, htp, ht', hdiff, hkk, hhh⟩ := hc
        rw [h.cleared _ j kk hh ⟨hj, rfl, htp, ht', hdiff, hkk, hhh⟩, ht',
          (hslot _ ht' rfl htp).2 hdiff kk hkk hh hhh]
      · exact h.kept _ j kk hh fun hcj => hc hcj.2

/-! ## The whole reload -/

variable (p mod pL totMod) in
theorem Reached.reload {s s1 : ResetState K} (h : Reached fir charSigned doubleBytes s)
    (hidle : s.fmResetCoeff = 0) (hmod : mod < totMod)
    (hreq : (s.dspVme.inputs mod).rset &&& 1 ≠ 0)
    (hs1 : s1 = checkFiltResetId fir charSigned doubleBytes s mod pL totMod p)
    (hok : ∀ j < filters, FilterOk fir (p.vmeCoeffs mod) j) :
    ∃ m', Reloaded fir charSigned doubleBytes p mod s1.mem m' filters ∧
      Drives fir charSigned doubleBytes pL totMod p (filtersCalls p mod filters) s1
        (reloadDone mod pL m' s1.dspVme) := by
  obtain ⟨m', hreloaded, hdrives⟩ := drives_module charSigned doubleBytes pL totMod hok s1.mem
    s1.dspVme
  refine ⟨m', hreloaded, ?_⟩
  rw [(h.request p mod pL totMod hidle hmod hreq hs1).1]
  exact hdrives

variable [Add K] [Sub K] [Neg K] [One K]

/-- A reload of a module that has been read by `fmReadCoeffFile`: any sequence of calls of the
right length ends it, none before does, and it leaves the module as a start of the front end
does, the other modules as they were and the checksum of shared memory, if and only if the local
memory fits. -/
theorem reload_as_start_iff (strtod : List Char → K × List Char) (map : List (FmSubSysMap K))
    (hnodup : (map.map (·.fmModNum)).Nodup) (p : VmeCoef K)
    (hp : Stored fir charSigned doubleBytes strtod map p) (m : FmSubSysMap K) (hm : m ∈ map)
    (totMod pL : ℕ) (hmod : m.fmModNum < totMod) (s : ResetState K)
    (hs : Reached fir charSigned doubleBytes s) (hidle : s.fmResetCoeff = 0)
    (hreq : (s.dspVme.inputs m.fmModNum).rset &&& 1 ≠ 0) (banks : List ℤ)
    (hlen : banks.length = filtersCalls p m.fmModNum filters) :
    let mod := m.fmModNum
    let s1 := checkFiltResetId fir charSigned doubleBytes s mod pL totMod p
    let s' := calls fir charSigned doubleBytes pL totMod p s1 banks
    (∀ k < banks.length,
      (calls fir charSigned doubleBytes pL totMod p s1 (banks.take k)).fmResetCoeff ≠ 0) ∧
    s'.fmResetCoeff = 0 ∧ s'.dspVme.coefLoadError = mod + 1 ∧
    ∃ start, readCoefVme fir Coef.zero FiltMod.zero 0 totMod p = .ok start ∧
      ((SameModule mod start (s'.mem.filtC, s'.mem.fmt) ∧
          SameOthers mod totMod (s1.mem.filtC, s1.mem.fmt) (s'.mem.filtC, s'.mem.fmt) ∧
          s'.mem.localCoeff.crc = (p.vmeCoeffs mod).crc) ↔
        ReloadFits fir s1.mem.filtC p mod totMod) := by
  intro mod s1 s'
  have hok := hp.sharedOk hnodup
  obtain ⟨m', hreloaded, hdrives⟩ := hs.reload _ _ _ _ hidle hmod hreq
    (rfl : s1 = checkFiltResetId fir charSigned doubleBytes s mod pL totMod p) (hok mod)
  obtain ⟨hend, hgoing⟩ := hdrives banks hlen
  obtain ⟨start, hload, hstart⟩ := readCoefVme_zero hok totMod
  have hs' : s' = reloadDone mod pL m' s1.dspVme := hend
  rw [hs']
  refine ⟨hlen ▸ hgoing, rfl, rfl, start, hload, ?_⟩
  have hcrc : m'.localCoeff.crc = (p.vmeCoeffs mod).crc := by
    rw [hreloaded.crc (by decide), (hp.module hnodup hm).crc]
  have hmodule := sameModule_iff (hok mod) hmod hstart hreloaded
  have hothers := sameOthers_iff totMod (hok mod) hreloaded
  unfold ReloadFits
  rw [← hothers, ← hmodule]
  exact ⟨fun ⟨hsame, hother, _⟩ => ⟨hsame, hother⟩, fun ⟨hsame, hother⟩ => ⟨hsame, hother, hcrc⟩⟩

end ReloadAsStart

/-- A front end with cleared memory and a request for each module. -/
def requested : ResetState ℤ where
  fmResetCoeff := 0
  fmResetCounter := 0
  fmSubCounter := 0
  fmResetDsp := 0
  mem := {
    filtC := Coef.zero
    fmt := FiltMod.zero
    localCoeff := VmeFmOpCoef.zero
    localFirFiltCoeff := fun _ _ => 0
    changed := fun _ => 0 }
  dspVme := { FiltMod.zero with
    inputs := fun _ => { opSwitchP := 0, rset := 1, rmpcmp := fun _ => 0, timeout := fun _ => 0 } }

/-- The module `FM` with its filters in biquad form or not. -/
def moduleWith (biquad : ℤ) : FmSubSysMap ℤ := { moduleFm with biquad := biquad }

/-- The shared memory of a module with a filter of two sections. -/
def twoSectionsRead (biquad : ℤ) : Except FmReadError (ReadState ℤ × VmeCoef ℤ) :=
  fmReadCoeffFile false true (fun _ => []) readInteger twoSections [moduleWith biquad]
    (fun _ _ _ => 0) VmeCoef.zero

theorem reload_as_start_two_sections :
    ∃ r start, twoSectionsRead 0 = .ok r ∧
      readCoefVme false Coef.zero FiltMod.zero 0 1 r.2 = .ok start ∧
      let s1 := checkFiltResetId false true (fun _ => []) requested 0 0 1 r.2
      let s' := calls false true (fun _ => []) 0 1 r.2 s1
        (List.replicate (filtersCalls r.2 0 filters) 0)
      s'.dspVme.coefLoadError = 1 ∧ SameModule 0 start (s'.mem.filtC, s'.mem.fmt) ∧
        s'.mem.localCoeff.crc = (r.2.vmeCoeffs 0).crc := by
  cases hr : twoSectionsRead 0 with
  | error e => cases hr
  | ok r =>
    have hstored : Stored false true (fun _ : ℤ => []) readInteger [moduleWith 0] r.2 := .first hr
    have hreached : Reached false true (fun _ => []) requested := .start rfl rfl rfl
    have hnum : (moduleWith 0).fmModNum = 0 := rfl
    have hiff := reload_as_start_iff readInteger [moduleWith 0] (by decide) r.2 hstored
      (moduleWith 0) List.mem_cons_self 1 0 (by decide) requested hreached rfl (by decide)
      (List.replicate (filtersCalls r.2 0 filters) 0) List.length_replicate
    simp only [hnum, Int.natCast_zero, Int.zero_add] at hiff
    obtain ⟨-, -, herror, start, hload, hsame⟩ := hiff
    have hflag : (r.2.vmeCoeffs 0).biquad = 0 := by
      cases hr
      rfl
    have hs1 := hreached.request r.2 0 0 1 rfl Nat.one_pos (by decide) rfl
    simp only [Int.natCast_zero] at hs1
    obtain ⟨hmodule, -, hcrc⟩ := hsame.mpr
      ⟨(hs1.2 0).trans hflag.symm, fun a ha hne => absurd ha (by omega)⟩
    exact ⟨r, start, rfl, hload, herror, hmodule, hcrc⟩

/-- A module that the file has in biquad form keeps its flag for the other form. -/
theorem reload_keeps_biquad :
    ∃ r start, twoSectionsRead 1 = .ok r ∧
      readCoefVme false Coef.zero FiltMod.zero 0 1 r.2 = .ok start ∧
      let s1 := checkFiltResetId false true (fun _ => []) requested 0 0 1 r.2
      let s' := calls false true (fun _ => []) 0 1 r.2 s1
        (List.replicate (filtersCalls r.2 0 filters) 0)
      s'.dspVme.coefLoadError = 1 ∧ ¬ SameModule 0 start (s'.mem.filtC, s'.mem.fmt) := by
  cases hr : twoSectionsRead 1 with
  | error e => cases hr
  | ok r =>
    have hstored : Stored false true (fun _ : ℤ => []) readInteger [moduleWith 1] r.2 := .first hr
    have hok := hstored.sharedOk (by decide)
    obtain ⟨start, hload, hstart⟩ := readCoefVme_zero hok 1
    have hreached : Reached false true (fun _ => []) requested := .start rfl rfl rfl
    obtain ⟨m', hreloaded, hdrives⟩ := hreached.reload r.2 0 0 1 rfl Nat.one_pos (by decide) rfl
      (hok 0)
    obtain ⟨hend, -⟩ := hdrives (List.replicate (filtersCalls r.2 0 filters) 0)
      List.length_replicate
    refine ⟨r, start, rfl, hload, ?_⟩
    simp only [Int.natCast_zero] at hend hreloaded
    dsimp only
    rw [hend]
    refine ⟨rfl, fun hsame => ?_⟩
    have hbiquad := (sameModule_iff (hok 0) Nat.one_pos hstart hreloaded).mp hsame
    cases hr
    cases hbiquad

end AdvLigoRts.Drv
