import AdvLigoRts.Drv.FmFileGrammar
import AdvLigoRts.Drv.FmReadCoeffTheorems

/-!
# What `fmReadCoeffFile` accepts

The loop over the lines reads what `DefinesSoFar` says, and its placeholders hold the last
definitions. At the end of the file nothing asks whether lines are missing: a file that ends in a
filter is accepted.
-/

namespace AdvLigoRts.Drv

open PvLib

section Lines

variable {K : Type} {fir : Bool} {strtod : List Char → K × List Char}
variable {tok : List (List Char)} {d : FilterDef K} {n : ℕ}

theorem need_ok {α : Type} {value : Option α} {e : LineError} {a : α}
    (h : need value e = .ok a) : value = some a := by
  unfold need at h
  split at h
  · cases h
    rfl
  · cases h

theorem failIf_of_not {bad : Prop} [Decidable bad] {e : LineError} (h : ¬bad) :
    failIf bad e = .ok () := if_neg h

theorem switching_iff (sType : ℤ) :
    ¬((sType.tdiv 10 ≠ 1 ∧ sType.tdiv 10 ≠ 2) ∨ sType.tmod 10 < 1 ∨ sType.tmod 10 > 4) ↔
      (11 ≤ sType ∧ sType ≤ 14) ∨ (21 ≤ sType ∧ sType ≤ 24) := by
  rcases le_or_gt 0 sType with h | h
  · rw [Int.tdiv_eq_ediv_of_nonneg h, Int.tmod_eq_emod_of_nonneg h]
    omega
  · have hdiv : sType.tdiv 10 ≤ 0 := by
      have hneg : (-sType).tdiv 10 = -(sType.tdiv 10) := Int.neg_tdiv _ _
      have hpos : 0 ≤ (-sType).tdiv 10 := Int.tdiv_nonneg (by omega) (by omega)
      omega
    omega

variable [Zero K]

/-- What the code keeps of a filter, behind `n` FIR filters. -/
def FilterDef.line (n : ℕ) (d : FilterDef K) : FilterLine K where
  num := d.num
  sType := d.sType
  filtSections := d.filtSections
  filterType := if maxSoSections < d.filtSections then n + 1 else 0
  ramp := d.ramp
  timeout := d.timeout
  filtName := d.filtName
  filtCoeff := fun i => d.coeffs.getD i 0

theorem parseFilterLine_sound {p : FilterLine K} (hwords : maxTokens ≤ tok.length)
    (h : parseFilterLine fir strtod n tok = .ok p) :
    ∃ d, HeadLine strtod (maxSos fir) tok d ∧
      (maxSoSections < d.filtSections → n < maxFirModules) ∧ p = d.line n := by
  unfold parseFilterLine at h
  obtain ⟨num, hnum, h⟩ := bind_ok h
  obtain ⟨_, hrange, h⟩ := bind_ok h
  obtain ⟨sType, htype, h⟩ := bind_ok h
  obtain ⟨_, hswitching, h⟩ := bind_ok h
  obtain ⟨filtSections, hsections, h⟩ := bind_ok h
  obtain ⟨_, hmost, h⟩ := bind_ok h
  obtain ⟨_, hroom, h⟩ := bind_ok h
  obtain ⟨ramp, hramp, h⟩ := bind_ok h
  obtain ⟨_, hramp0, h⟩ := bind_ok h
  obtain ⟨timeout, htimeout, h⟩ := bind_ok h
  obtain ⟨_, htimeout0, h⟩ := bind_ok h
  obtain ⟨_, hname, h⟩ := bind_ok h
  obtain ⟨filtCoeff, hcoeff, h⟩ := bind_ok h
  cases h
  have hrange := failIf_ok hrange
  have hswitching := (switching_iff sType).mp (failIf_ok hswitching)
  have hmost := not_not.mp (failIf_ok hmost)
  have hroom := failIf_ok hroom
  have hramp0 := failIf_ok hramp0
  have htimeout0 := failIf_ok htimeout0
  have hname := failIf_ok hname
  obtain ⟨row, hrow, rfl⟩ := Option.map_eq_some_iff.mp (need_ok hcoeff)
  obtain ⟨num', rfl⟩ := Int.eq_ofNat_of_zero_le (a := num) (by omega)
  obtain ⟨sections', rfl⟩ := Int.eq_ofNat_of_zero_le (a := filtSections) (by omega)
  have hnum9 : num' ≤ 9 := by omega
  have hpos : 1 ≤ sections' := by omega
  have hle : sections' ≤ maxSos fir := by omega
  refine ⟨⟨tok.getD 0 [], num', sType, sections', ramp, timeout, tok.getD 6 [], row⟩, ?_, ?_, ?_⟩
  · exact ⟨hwords, rfl, need_ok hnum, hnum9, need_ok htype, hswitching, need_ok hsections, hpos,
      hle, need_ok hramp, not_lt.mp hramp0, need_ok htimeout, not_lt.mp htimeout0, rfl,
      not_lt.mp hname, hrow⟩
  · intro hbig
    dsimp only at hbig
    by_contra hfull
    exact hroom ⟨by exact_mod_cast hbig, by omega⟩
  · simp [FilterDef.line]

theorem parseFilterLine_complete (h : HeadLine strtod (maxSos fir) tok d)
    (hroom : maxSoSections < d.filtSections → n < maxFirModules) :
    parseFilterLine fir strtod n tok = .ok (d.line n) := by
  have hnum : ¬((d.num : ℤ) < 0 ∨ (d.num : ℤ) > 9) := by
    have := h.num_le
    omega
  have hsections : (d.filtSections : ℤ) > 0 ∧ (d.filtSections : ℤ) ≤ maxSos fir := by
    have hpos := h.pos
    have hle := h.le_most
    omega
  have hfirs : ¬((d.filtSections : ℤ) > maxSoSections ∧ n ≥ maxFirModules) := by
    rintro ⟨hbig, hfull⟩
    have := hroom (by exact_mod_cast hbig)
    omega
  have hcoeffs : doubleTokens strtod tok 7 5 = some fun i => d.coeffs.getD i 0 := by
    unfold doubleTokens
    rw [show _ = _ from h.coeffs]
    rfl
  have hname : ¬(tok.getD 6 []).length > 31 := by
    rw [h.filtName]
    exact not_lt.mpr h.filtName_le
  have hramp := h.ramp_nonneg
  have htimeout := h.timeout_nonneg
  have hswitching := (switching_iff d.sType).mpr h.switching
  unfold parseFilterLine
  rw [h.num, h.sType, h.filtSections, h.ramp, h.timeout, hcoeffs]
  show (failIf _ _ >>= fun _ => failIf _ _ >>= fun _ => failIf _ _ >>= fun _ => failIf _ _ >>=
    fun _ => failIf _ _ >>= fun _ => failIf _ _ >>= fun _ => failIf _ _ >>= fun _ => _) = _
  rw [failIf_of_not hnum, failIf_of_not hswitching, failIf_of_not (not_not.mpr hsections),
    failIf_of_not hfirs, failIf_of_not (by omega), failIf_of_not (by omega), failIf_of_not hname]
  show Except.ok _ = Except.ok _
  unfold FilterDef.line
  rw [h.filtName]
  simp

end Lines

section Reading

variable {K : Type} {fir : Bool} {strtod : List Char → K × List Char}
variable {tok : List (List Char)} {row : List K} {d : FilterDef K} {ds : List (FilterDef K)}
variable {missing : ℕ} {map : List (FmSubSysMap K)} {s t : ReadState K}

/-- The modules of the subsystem. -/
def Own (map : List (FmSubSysMap K)) (name : List Char) : Prop := name ∈ map.map (·.name)

/-- The last definition of the filter `j` of a module. -/
def lastDefinition (ds : List (FilterDef K)) (name : List Char) (j : ℕ) : Option (FilterDef K) :=
  (ds.filter fun d => d.name = name ∧ d.num = j).getLast?

theorem lastDefinition_concat (name : List Char) (j : ℕ) :
    lastDefinition (ds ++ [d]) name j =
      if d.name = name ∧ d.num = j then some d else lastDefinition ds name j := by
  unfold lastDefinition
  rw [List.filter_append]
  by_cases h : d.name = name ∧ d.num = j
  · simp [h]
  · simp [h]

/-- A filter of a module is as it was defined, or has no section. -/
def HoldsDef (vme : VmeFmOpCoef K) (biquad : ℤ) (j : ℕ) : Option (FilterDef K) → Prop
  | none => vme.filtSections j = 0
  | some d => vme.filtSections j = d.filtSections ∧ vme.sType j = d.sType ∧
      vme.ramp j = d.ramp ∧ vme.timout j = d.timeout ∧ vme.filtName j = d.filtName ∧
      (d.filtSections ≤ maxSoSections → vme.filterType j = 0 ∧
        (biquad = 0 → ∀ i < d.coeffs.length, d.coeffs[i]? = some (vme.filtCoeff j i)))

/-- The filter whose further sections are read. -/
structure Current (map : List (FmSubSysMap K)) (s : ReadState K) (d : FilterDef K) (missing : ℕ) :
    Prop where
  curFilter : s.curFilter = (map.map (·.name)).findIdx? (· = d.name)
  curFilterNum : Own map d.name → s.curFilterNum = d.num
  missing_lt : missing < d.filtSections
  coeffs : Own map d.name → d.coeffs.length = 5 + 4 * (d.filtSections - 1 - missing)

/-- The variables of the loop when it has read definitions. -/
structure Reads (map : List (FmSubSysMap K)) (s : ReadState K) (ds : List (FilterDef K))
    (missing : ℕ) : Prop where
  config : s.map.map FmSubSysMap.config = map.map FmSubSysMap.config
  inFilter : s.inFilter = missing
  nFirFilters : s.nFirFilters = firCount ds
  current : missing ≠ 0 → ∃ ds0 d, ds = ds0 ++ [d] ∧ Current map s d missing
  holds : ∀ (i : ℕ) (m : FmSubSysMap K), s.map[i]? = some m →
    ∀ j, HoldsDef m.fmd m.biquad j (lastDefinition ds m.name j)

theorem Reads.names (h : Reads map s ds missing) : s.map.map (·.name) = map.map (·.name) := by
  have hnames := congrArg (List.map fun c : List Char × ℕ × ℤ => c.1) h.config
  simpa [FmSubSysMap.config, Function.comp_def] using hnames

/-- A module of the subsystem has a placeholder, and only one. -/
theorem Reads.find (h : Reads map s ds missing) (hnodup : (map.map (·.name)).Nodup)
    (name : List Char) :
    (¬Own map name ∧ (map.map (·.name)).findIdx? (· = name) = none ∧
      ∀ (i : ℕ) (m : FmSubSysMap K), s.map[i]? = some m → m.name ≠ name) ∨
    ∃ (i : ℕ) (cur : FmSubSysMap K), Own map name ∧
      (map.map (·.name)).findIdx? (· = name) = some i ∧
      s.map[i]? = some cur ∧ cur.name = name ∧
      ∀ (k : ℕ) (m : FmSubSysMap K), s.map[k]? = some m → k ≠ i → m.name ≠ name := by
  have hnames := h.names
  cases hfind : (map.map (·.name)).findIdx? (· = name) with
  | none =>
    have hnone := List.findIdx?_eq_none_iff.mp hfind
    refine Or.inl ⟨fun hown => ?_, rfl, fun i m hm heq => ?_⟩
    · simpa using hnone _ hown
    · have hmem : m.name ∈ map.map (·.name) :=
        hnames ▸ List.mem_map_of_mem (List.mem_of_getElem? hm)
      simpa [heq] using hnone _ hmem
  | some i =>
    obtain ⟨hlt, heq, -⟩ := List.findIdx?_eq_some_iff_getElem.mp hfind
    have hname : (map.map (·.name))[i] = name := by simpa using heq
    have hget : (s.map.map (·.name))[i]? = some name := by
      rw [hnames, List.getElem?_eq_getElem hlt, hname]
    obtain ⟨cur, hcur, hcurname⟩ := Option.map_eq_some_iff.mp (List.getElem?_map ▸ hget)
    refine Or.inr ⟨i, cur, ?_, rfl, hcur, hcurname, fun k m hm hne heq => hne ?_⟩
    · exact hname ▸ List.getElem_mem hlt
    · have hk : (s.map.map (·.name))[k]? = some name := by
        rw [List.getElem?_map, hm, Option.map_some, heq]
      rw [hnames] at hk hget
      exact ((List.getElem?_inj hlt hnodup).mp (hget.trans hk.symm)).symm

theorem lastDefinition_extend {name : List Char} (row : List K) (j : ℕ) (hne : d.name ≠ name) :
    lastDefinition (ds ++ [d.extend row]) name j = lastDefinition (ds ++ [d]) name j := by
  rw [lastDefinition_concat, lastDefinition_concat, if_neg (fun h => hne h.1),
    if_neg (fun h => hne h.1)]

theorem firCount_concat : firCount (ds ++ [d]) =
    if maxSoSections < d.filtSections then firCount ds + 1 else firCount ds := by
  unfold firCount
  rw [List.countP_append, List.countP_singleton]
  split
  · rename_i h
    simp [of_decide_eq_true h]
  · rename_i h
    simp only [decide_eq_true_eq] at h
    simp [h]

theorem Reads.currentFilter (h : Reads map s (ds ++ [d]) missing) (h0 : missing ≠ 0) :
    Current map s d missing := by
  obtain ⟨ds0, d0, hds, hcur⟩ := h.current h0
  obtain ⟨-, hd⟩ := List.append_inj' hds rfl
  cases hd
  exact hcur

/-- A line with a further section of a module of another subsystem. -/
theorem Reads.contOther (h : Reads map s (ds ++ [d]) (missing + 1))
    (hnodup : (map.map (·.name)).Nodup) (hown : ¬Own map d.name)
    (hc : ContLine strtod (Own map) d.name tok row) :
    s.curFilter = none ∧
      Reads map { s with inFilter := s.inFilter - 1 } (ds ++ [d.extend row]) missing := by
  have hcur := h.currentFilter (Nat.succ_ne_zero missing)
  have hlt := hcur.missing_lt
  rw [hc.unread hown, FilterDef.extend_nil]
  have hin : s.inFilter - 1 = missing := by
    rw [h.inFilter]
    rfl
  refine ⟨?_, h.config, hin, h.nFirFilters, fun _ => ⟨ds, d, rfl, ?_⟩, h.holds⟩
  · rcases h.find hnodup d.name with ⟨-, hfind, -⟩ | ⟨i, cur, hyes, -, -⟩
    · exact hcur.curFilter.trans hfind
    · exact absurd hyes hown
  · exact ⟨hcur.curFilter, fun hyes => absurd hyes hown, by omega, fun hyes => absurd hyes hown⟩

theorem getElem?_of_getD [Zero K] {row : List K} {i : ℕ} (hi : i < row.length) :
    row[i]? = some (row.getD i 0) := by
  rw [List.getD_eq_getElem?_getD, List.getElem?_eq_getElem hi]
  rfl

theorem holdsDef_extend {fmd : VmeFmOpCoef K} {biquad : ℤ} {j : ℕ} {row : List K}
    (h : HoldsDef fmd biquad j (some d)) (hbig : maxSoSections < d.filtSections) :
    HoldsDef fmd biquad j (some (d.extend row)) := by
  obtain ⟨hsections, htype, hramp, htimout, hfilt, -⟩ := h
  exact ⟨hsections, htype, hramp, htimout, hfilt, fun hle => absurd hbig (not_lt.mpr hle)⟩

variable [Zero K] [Add K] [Sub K] [Neg K] [One K]

def putHead (cur : FmSubSysMap K) (p : FilterLine K) : FmSubSysMap K :=
  let fmd := { cur.fmd with
    bankNum := cur.fmModNum
    filtSections := Function.update cur.fmd.filtSections p.num p.filtSections
    sType := Function.update cur.fmd.sType p.num p.sType
    ramp := Function.update cur.fmd.ramp p.num p.ramp
    timout := Function.update cur.fmd.timout p.num p.timeout
    filtName := Function.update cur.fmd.filtName p.num p.filtName
    filterType := Function.update cur.fmd.filterType p.num p.filterType }
  { cur with
    filters := cur.filters + 1
    fmd := if p.filterType > 0 then fmd else { fmd with
      filtCoeff := Function.update fmd.filtCoeff p.num
        (putRow (fmd.filtCoeff p.num) 0 5 (firstCoeff cur.biquad p.filtCoeff)) } }

omit [Zero K] in
theorem putHead_config (cur : FmSubSysMap K) (p : FilterLine K) :
    (putHead cur p).config = cur.config := rfl

omit [Zero K] in
theorem putHead_fmd (cur : FmSubSysMap K) (p : FilterLine K) :
    (putHead cur p).fmd.filtSections =
        Function.update cur.fmd.filtSections p.num p.filtSections ∧
      (putHead cur p).fmd.sType = Function.update cur.fmd.sType p.num p.sType ∧
      (putHead cur p).fmd.ramp = Function.update cur.fmd.ramp p.num p.ramp ∧
      (putHead cur p).fmd.timout = Function.update cur.fmd.timout p.num p.timeout ∧
      (putHead cur p).fmd.filtName = Function.update cur.fmd.filtName p.num p.filtName ∧
      (putHead cur p).fmd.filterType = Function.update cur.fmd.filterType p.num p.filterType ∧
      (putHead cur p).fmd.filtCoeff = if p.filterType > 0 then cur.fmd.filtCoeff else
        Function.update cur.fmd.filtCoeff p.num
          (putRow (cur.fmd.filtCoeff p.num) 0 5 (firstCoeff cur.biquad p.filtCoeff)) := by
  unfold putHead
  dsimp only
  split
  · exact ⟨rfl, rfl, rfl, rfl, rfl, rfl, rfl⟩
  · exact ⟨rfl, rfl, rfl, rfl, rfl, rfl, rfl⟩

omit [Zero K] in
theorem firstCoeff_direct (c : ℕ → K) : firstCoeff 0 c = c := rfl

omit [Zero K] in
theorem contCoeff_direct (c : ℕ → K) : contCoeff 0 c = c := rfl

/-- Its filter is as it was defined, the others as they were. -/
theorem holdsDef_putHead (cur : FmSubSysMap K) (n j : ℕ) (hcoeffs : d.coeffs.length = 5)
    (hbefore : HoldsDef cur.fmd cur.biquad j (lastDefinition ds cur.name j))
    (hname : cur.name = d.name) :
    HoldsDef (putHead cur (d.line n)).fmd cur.biquad j
      (lastDefinition (ds ++ [d]) cur.name j) := by
  obtain ⟨hsections, htype, hramp, htimout, hfilt, hfir, hrow⟩ := putHead_fmd cur (d.line n)
  rw [lastDefinition_concat]
  by_cases hj : d.num = j
  · subst hj
    rw [if_pos ⟨hname.symm, rfl⟩, HoldsDef, hsections, htype, hramp, htimout, hfilt, hfir, hrow]
    refine ⟨Function.update_self _ _ _, Function.update_self _ _ _, Function.update_self _ _ _,
      Function.update_self _ _ _, Function.update_self _ _ _, fun hle => ?_⟩
    have hiir : (d.line n).filterType = 0 := if_neg (not_lt.mpr hle)
    refine ⟨(Function.update_self _ _ _).trans hiir, fun h0 i hi => ?_⟩
    rw [hiir, if_neg (lt_irrefl 0), h0, firstCoeff_direct]
    show _ = some (Function.update cur.fmd.filtCoeff d.num _ d.num i)
    rw [Function.update_self, putRow, if_pos ⟨Nat.zero_le i, by omega⟩]
    exact getElem?_of_getD hi
  · have hne : j ≠ (d.line n).num := fun h => hj h.symm
    have hcoeff : (putHead cur (d.line n)).fmd.filtCoeff j = cur.fmd.filtCoeff j := by
      rw [hrow]
      split
      · rfl
      · exact Function.update_of_ne hne _ _
    rw [if_neg (fun h => hj h.2)]
    cases hlast : lastDefinition ds cur.name j with
    | none =>
      rw [hlast] at hbefore
      rw [HoldsDef, hsections, Function.update_of_ne hne]
      exact hbefore
    | some e =>
      rw [hlast] at hbefore
      rw [HoldsDef, hsections, htype, hramp, htimout, hfilt, hfir, hcoeff,
        Function.update_of_ne hne, Function.update_of_ne hne, Function.update_of_ne hne,
        Function.update_of_ne hne, Function.update_of_ne hne, Function.update_of_ne hne]
      exact hbefore

/-- The placeholder with a line of a further section. -/
def putMore (cur : FmSubSysMap K) (num base : ℕ) (filtCoeff : ℕ → K) : FmSubSysMap K :=
  { cur with fmd := { cur.fmd with
      filtCoeff := Function.update cur.fmd.filtCoeff num
        (putRow (cur.fmd.filtCoeff num) base 4 (contCoeff cur.biquad filtCoeff)) } }

omit [Zero K] in
theorem putMore_config (cur : FmSubSysMap K) (num base : ℕ) (c : ℕ → K) :
    (putMore cur num base c).config = cur.config := rfl

/-- Its filter has the numbers of the line, the others are as they were. -/
theorem holdsDef_putMore (cur : FmSubSysMap K) (j : ℕ) {row : List K} (hrow : row.length = 4)
    (hbefore : HoldsDef cur.fmd cur.biquad j (lastDefinition (ds ++ [d]) cur.name j))
    (hname : cur.name = d.name) :
    HoldsDef (putMore cur d.num d.coeffs.length fun i => row.getD i 0).fmd cur.biquad j
      (lastDefinition (ds ++ [d.extend row]) cur.name j) := by
  rw [lastDefinition_concat] at hbefore ⊢
  by_cases hj : d.num = j
  · subst hj
    rw [if_pos ⟨hname.symm, rfl⟩] at hbefore
    rw [if_pos ⟨hname.symm, rfl⟩]
    obtain ⟨hsections, htype, hramp, htimout, hfilt, hcoeffs⟩ := hbefore
    refine ⟨hsections, htype, hramp, htimout, hfilt, fun hle => ⟨(hcoeffs hle).1, ?_⟩⟩
    intro h0 i hi
    have hold := (hcoeffs hle).2 h0
    have hi' : i < d.coeffs.length + 4 := by
      rw [← hrow, ← List.length_append]
      exact hi
    show (d.coeffs ++ row)[i]? = some (Function.update cur.fmd.filtCoeff d.num _ d.num i)
    rw [Function.update_self, putRow, h0, contCoeff_direct]
    by_cases hlt : i < d.coeffs.length
    · rw [List.getElem?_append_left hlt, if_neg (by omega)]
      exact hold i hlt
    · rw [List.getElem?_append_right (not_lt.mp hlt), if_pos ⟨not_lt.mp hlt, hi'⟩]
      exact getElem?_of_getD (by omega)
  · have hne : j ≠ d.num := fun h => hj h.symm
    have hcoeff : (putMore cur d.num d.coeffs.length fun i => row.getD i 0).fmd.filtCoeff j =
        cur.fmd.filtCoeff j := Function.update_of_ne hne _ _
    rw [if_neg (fun h => hj h.2)] at hbefore
    rw [if_neg (fun h => hj h.2)]
    cases hlast : lastDefinition ds cur.name j with
    | none =>
      rw [hlast] at hbefore
      exact hbefore
    | some e =>
      rw [hlast] at hbefore
      rw [HoldsDef, hcoeff]
      exact hbefore

variable (fir) in
omit [Zero K] in
theorem putFilter_own {i : ℕ} {cur : FmSubSysMap K} (name : List Char) (p : FilterLine K)
    (hfind : s.map.findIdx? (fun m => m.name = name) = some i) (hi : s.map[i]? = some cur) :
    (putFilter fir s name p).inFilter = p.filtSections - 1 ∧
      (putFilter fir s name p).nFirFilters =
        (if p.filterType > 0 then s.nFirFilters + 1 else s.nFirFilters) ∧
      (putFilter fir s name p).curFilter = some i ∧
      (putFilter fir s name p).curFilterNum = p.num ∧
      (putFilter fir s name p).map = s.map.set i (putHead cur p) := by
  unfold putFilter
  dsimp only
  rw [hfind]
  dsimp only
  rw [hi]
  exact ⟨rfl, rfl, rfl, rfl, rfl⟩

variable (fir) in
omit [Zero K] in
theorem putFilter_other (name : List Char) (p : FilterLine K)
    (hfind : s.map.findIdx? (fun m => m.name = name) = none) :
    (putFilter fir s name p).inFilter = p.filtSections - 1 ∧
      (putFilter fir s name p).nFirFilters =
        (if p.filterType > 0 then s.nFirFilters + 1 else s.nFirFilters) ∧
      (putFilter fir s name p).curFilter = none ∧ (putFilter fir s name p).map = s.map := by
  unfold putFilter
  dsimp only
  rw [hfind]
  exact ⟨rfl, rfl, rfl, rfl⟩

omit [Add K] [Sub K] [Neg K] [One K] in
theorem nFirFilters_line : (if (d.line s.nFirFilters).filterType > 0 then s.nFirFilters + 1
    else s.nFirFilters) =
      if maxSoSections < d.filtSections then s.nFirFilters + 1 else s.nFirFilters := by
  unfold FilterDef.line
  dsimp only
  by_cases hbig : maxSoSections < d.filtSections
  · rw [if_pos hbig, if_pos hbig, if_pos (Nat.succ_pos _)]
  · rw [if_neg hbig, if_neg hbig, if_neg (lt_irrefl 0)]

theorem Reads.head (h : Reads map s ds 0) (hnodup : (map.map (·.name)).Nodup) {most : ℕ}
    (hhead : HeadLine strtod most tok d) :
    Reads map (putFilter fir s d.name (d.line s.nFirFilters)) (ds ++ [d]) (d.filtSections - 1) := by
  have hpos := hhead.pos
  have hcoeffs := hhead.coeffs.length
  have hmap : s.map.findIdx? (fun m => m.name = d.name) =
      (map.map (·.name)).findIdx? (· = d.name) := by
    rw [← h.names, List.findIdx?_map]
    rfl
  have hlen : Own map d.name →
      d.coeffs.length = 5 + 4 * (d.filtSections - 1 - (d.filtSections - 1)) := fun _ => by omega
  rcases h.find hnodup d.name with ⟨hown, hfind, hother⟩ | ⟨i, cur, -, hfind, hi, hname, hother⟩
  · obtain ⟨hin, hfirs, hcur, hsame⟩ :=
      putFilter_other fir d.name (d.line s.nFirFilters) (hmap.trans hfind)
    refine ⟨hsame ▸ h.config, hin, ?_, fun _ => ⟨ds, d, rfl, ?_⟩, ?_⟩
    · rw [hfirs, nFirFilters_line, firCount_concat, h.nFirFilters]
    · exact ⟨hcur.trans hfind.symm, fun ho => absurd ho hown, by omega, hlen⟩
    · intro k m hm j
      rw [hsame] at hm
      rw [lastDefinition_concat, if_neg (fun he => hother k m hm he.1.symm)]
      exact h.holds k m hm j
  · obtain ⟨hin, hfirs, hcur, hnum, hset⟩ :=
      putFilter_own fir d.name (d.line s.nFirFilters) (hmap.trans hfind) hi
    refine ⟨?_, hin, ?_, fun _ => ⟨ds, d, rfl, ?_⟩, ?_⟩
    · rw [hset, map_set_of_eq hi (putHead_config cur _)]
      exact h.config
    · rw [hfirs, nFirFilters_line, firCount_concat, h.nFirFilters]
    · exact ⟨hcur.trans hfind.symm, fun _ => hnum, by omega, hlen⟩
    · intro k m hm j
      rw [hset, List.getElem?_set] at hm
      split at hm
      · rename_i hk
        subst hk
        have hlt : i < s.map.length := (List.getElem?_eq_some_iff.mp hi).1
        rw [if_pos hlt] at hm
        cases hm
        exact holdsDef_putHead cur s.nFirFilters j hcoeffs (h.holds i cur hi j) hname
      · rename_i hk
        rw [lastDefinition_concat, if_neg (fun he => hother k m hm (Ne.symm hk) he.1.symm)]
        exact h.holds k m hm j

omit [Zero K] [One K] in
theorem putCont_iir [One K] {i k : ℕ} {cur : FmSubSysMap K} (c : ℕ → K)
    (hi : s.map[i]? = some cur) (htype : cur.fmd.filterType s.curFilterNum = 0) :
    putCont fir s i k c = { s with
      inFilter := k
      map := s.map.set i (putMore cur s.curFilterNum
        (5 + 4 * (cur.fmd.filtSections s.curFilterNum - k - 2)) c) } := by
  unfold putCont
  rw [hi]
  dsimp only
  rw [if_neg (not_not.mpr htype)]
  rfl

variable (fir) in
omit [Zero K] in
theorem putCont_fir {i : ℕ} (k : ℕ) {cur : FmSubSysMap K} (c : ℕ → K) (hi : s.map[i]? = some cur)
    (htype : cur.fmd.filterType s.curFilterNum ≠ 0) :
    ∃ f, putCont fir s i k c = { s with inFilter := k, firFiltCoeff := f } := by
  unfold putCont
  rw [hi]
  dsimp only
  rw [if_pos htype]
  split
  · exact ⟨_, rfl⟩
  · exact ⟨s.firFiltCoeff, rfl⟩

variable (fir) in
/-- A line with a further section of a module of the subsystem. -/
theorem Reads.contOwn (h : Reads map s (ds ++ [d]) (missing + 1))
    (hnodup : (map.map (·.name)).Nodup) (hown : Own map d.name)
    (hc : ContLine strtod (Own map) d.name tok row) :
    ∃ i, s.curFilter = some i ∧
      Reads map (putCont fir s i (s.inFilter - 1) fun k => row.getD k 0) (ds ++ [d.extend row])
        missing := by
  have hrow := (hc.numbers hown).length
  have hcur := h.currentFilter (Nat.succ_ne_zero missing)
  have hlt := hcur.missing_lt
  have hlen := hcur.coeffs hown
  have hnum := hcur.curFilterNum hown
  rcases h.find hnodup d.name with ⟨hno, -, -⟩ | ⟨i, cur, -, hfind, hi, hname, hother⟩
  · exact absurd hown hno
  · have hin : s.inFilter - 1 = missing := by
      rw [h.inFilter]
      rfl
    have hcurrent : ∀ t : ReadState K, t.curFilter = s.curFilter →
        t.curFilterNum = s.curFilterNum → Current map t (d.extend row) missing := by
      intro t h1 h2
      have hmore : (d.coeffs ++ row).length = 5 + 4 * (d.filtSections - 1 - missing) := by
        rw [List.length_append, hlen, hrow]
        omega
      exact ⟨h1.trans hcur.curFilter, fun _ => h2.trans hnum, Nat.lt_of_succ_lt hlt,
        fun _ => hmore⟩
    have hothers : ∀ (k : ℕ) (m : FmSubSysMap K), s.map[k]? = some m → k ≠ i →
        ∀ j, HoldsDef m.fmd m.biquad j (lastDefinition (ds ++ [d.extend row]) m.name j) := by
      intro k m hm hk j
      rw [lastDefinition_extend row j (Ne.symm (hother k m hm hk))]
      exact h.holds k m hm j
    have hthis := h.holds i cur hi d.num
    rw [lastDefinition_concat, if_pos ⟨hname.symm, rfl⟩] at hthis
    refine ⟨i, hcur.curFilter.trans hfind, ?_⟩
    rw [hin]
    by_cases htype : cur.fmd.filterType s.curFilterNum = 0
    · have hbase : 5 + 4 * (cur.fmd.filtSections s.curFilterNum - missing - 2) =
          d.coeffs.length := by
        rw [hnum, hthis.1, hlen]
        omega
      rw [putCont_iir _ hi htype, hbase, hnum]
      refine ⟨?_, rfl, ?_, fun _ => ⟨ds, _, rfl, hcurrent _ rfl hnum.symm⟩, ?_⟩
      · show (s.map.set i _).map FmSubSysMap.config = _
        rw [map_set_of_eq hi (putMore_config cur _ _ _)]
        exact h.config
      · rw [firCount_concat]
        exact h.nFirFilters.trans firCount_concat
      · intro k m hm j
        rw [List.getElem?_set] at hm
        split at hm
        · rename_i hk
          subst hk
          rw [if_pos (List.getElem?_eq_some_iff.mp hi).1] at hm
          cases hm
          exact holdsDef_putMore cur j hrow (h.holds i cur hi j) hname
        · rename_i hk
          exact hothers k m hm (Ne.symm hk) j
    · have hbig : maxSoSections < d.filtSections := by
        by_contra hsmall
        obtain ⟨-, -, -, -, -, hcoeffs⟩ := hthis
        exact htype (hnum ▸ (hcoeffs (not_lt.mp hsmall)).1)
      obtain ⟨f, hf⟩ := putCont_fir fir missing (fun k => row.getD k 0) hi htype
      rw [hf]
      refine ⟨h.config, rfl, ?_, fun _ => ⟨ds, _, rfl, hcurrent _ rfl rfl⟩, ?_⟩
      · rw [firCount_concat]
        exact h.nFirFilters.trans firCount_concat
      · intro k m hm j
        by_cases hk : k = i
        · subst hk
          cases hi.symm.trans hm
          have hj := h.holds k cur hi j
          have hnew : lastDefinition (ds ++ [d.extend row]) cur.name j =
              if d.name = cur.name ∧ d.num = j then some (d.extend row)
              else lastDefinition ds cur.name j := lastDefinition_concat _ _
          rw [lastDefinition_concat] at hj
          rw [hnew]
          by_cases he : d.name = cur.name ∧ d.num = j
          · rw [if_pos he] at hj
            rw [if_pos he]
            exact holdsDef_extend hj hbig
          · rw [if_neg he] at hj
            rw [if_neg he]
            exact hj
        · exact hothers k m hm hk j

/-! ## Lines and files -/

omit [Add K] [Sub K] [Neg K] [One K] in
theorem doubleTokens_some_iff {first n : ℕ} {c : ℕ → K} :
    doubleTokens strtod tok first n = some c ↔
      ∃ row, Numbers strtod tok first n row ∧ (fun i => row.getD i 0) = c :=
  Option.map_eq_some_iff

variable {line : List Char} {ls : List (List (List Char))} {ds' : List (FilterDef K)}
variable {missing' : ℕ}

theorem Reads.readLine_sound (h : Reads map s ds missing) (hnodup : (map.map (·.name)).Nodup)
    (hsofar : DefinesSoFar strtod (Own map) (maxSos fir) ls ds missing)
    (hinfo : infoLine line = true) (hread : readLine fir strtod s line = .ok t) :
    ∃ ds' missing', DefinesSoFar strtod (Own map) (maxSos fir) (ls ++ [lineTok line]) ds' missing' ∧
      Reads map t ds' missing' := by
  unfold readLine at hread
  rw [hinfo, h.inFilter] at hread
  cases missing with
  | zero =>
    simp only [Bool.not_true, Bool.false_eq_true, if_false, ne_eq, not_true_eq_false] at hread
    split at hread
    · cases hread
    · rename_i hwords
      split at hread
      · cases hread
      · rename_i p hparse
        cases hread
        obtain ⟨d, hhead, hroom, rfl⟩ := parseFilterLine_sound (not_lt.mp hwords) hparse
        rw [hhead.name]
        exact ⟨_, _, hsofar.head hhead (h.nFirFilters ▸ hroom), h.head hnodup hhead⟩
  | succ missing =>
    obtain ⟨ds0, d, rfl, -⟩ := h.current (Nat.succ_ne_zero missing)
    simp only [Bool.not_true, Bool.false_eq_true, if_false, ne_eq, Nat.succ_ne_zero,
      not_false_eq_true, if_true] at hread
    split at hread
    · cases hread
    · rename_i hwords
      by_cases hown : Own map d.name
      · obtain ⟨i, hcur⟩ : ∃ i, s.curFilter = some i := by
          rcases h.find hnodup d.name with ⟨hno, -, -⟩ | ⟨i, cur, -, hfind, -⟩
          · exact absurd hown hno
          · exact ⟨i, (h.currentFilter (Nat.succ_ne_zero missing)).curFilter.trans hfind⟩
        rw [hcur] at hread
        dsimp only at hread
        split at hread
        · cases hread
        · rename_i c hc
          obtain ⟨row, hrow, rfl⟩ := doubleTokens_some_iff.mp hc
          have hcont : ContLine strtod (Own map) d.name (lineTok line) row :=
            ⟨not_lt.mp hwords, fun _ => hrow, fun hno => absurd hown hno⟩
          obtain ⟨i', hcur', hnext⟩ := h.contOwn fir hnodup hown hcont
          cases hcur.symm.trans hcur'
          rw [h.inFilter] at hnext
          cases hread
          exact ⟨_, _, hsofar.cont hcont, hnext⟩
      · have hcont : ContLine strtod (Own map) d.name (lineTok line) [] :=
          ⟨not_lt.mp hwords, fun hyes => absurd hyes hown, fun _ => rfl⟩
        obtain ⟨hcur, hnext⟩ := h.contOther hnodup hown hcont
        rw [h.inFilter, hcur] at hnext
        rw [hcur] at hread
        cases hread
        exact ⟨_, _, hsofar.cont hcont, hnext⟩

theorem Reads.readLine_complete (h : Reads map s ds missing) (hnodup : (map.map (·.name)).Nodup)
    (hsofar : DefinesSoFar strtod (Own map) (maxSos fir) ls ds missing)
    (hinfo : infoLine line = true)
    (hnext : DefinesSoFar strtod (Own map) (maxSos fir) (ls ++ [lineTok line]) ds' missing') :
    ∃ t, readLine fir strtod s line = .ok t := by
  unfold readLine
  rw [hinfo, h.inFilter]
  rcases definesSoFar_concat hnext with ⟨ds0, d, hbefore, hhead, hroom, -, -⟩ |
    ⟨ds0, d, row, hbefore, hcont, -⟩
  · obtain ⟨rfl, rfl⟩ := hsofar.unique hbefore
    have hwords : ¬(lineTok line).length < maxTokens := not_lt.mpr hhead.words
    simp only [Bool.not_true, Bool.false_eq_true, if_false, ne_eq, not_true_eq_false, hwords]
    rw [parseFilterLine_complete hhead (h.nFirFilters ▸ hroom)]
    exact ⟨_, rfl⟩
  · obtain ⟨rfl, rfl⟩ := hsofar.unique hbefore
    have hwords : ¬(lineTok line).length < 4 := not_lt.mpr hcont.words
    simp only [Bool.not_true, Bool.false_eq_true, if_false, ne_eq, Nat.succ_ne_zero,
      not_false_eq_true, if_true, hwords]
    by_cases hown : Own map d.name
    · obtain ⟨i, hcur, -⟩ := h.contOwn fir hnodup hown hcont
      rw [hcur, doubleTokens_some_iff.mpr ⟨row, hcont.numbers hown, rfl⟩]
      exact ⟨_, rfl⟩
    · obtain ⟨hcur, -⟩ := h.contOther hnodup hown hcont
      rw [hcur]
      exact ⟨_, rfl⟩

omit [Add K] [Sub K] [Neg K] [One K] in
theorem reads_start (map : List (FmSubSysMap K)) (tmp : ℕ → ℕ → ℕ → K) :
    Reads map (ReadState.start map tmp) [] 0 where
  config := by simp [ReadState.start, FmSubSysMap.clear, FmSubSysMap.config, Function.comp_def]
  inFilter := rfl
  nFirFilters := rfl
  current h := absurd rfl h
  holds i m hm j := by
    obtain ⟨m', -, rfl⟩ := List.mem_map.mp (List.mem_of_getElem? hm)
    rfl

theorem wordLines_concat (lines : List (List Char)) (line : List Char) :
    wordLines (lines ++ [line]) =
      if infoLine line = true then wordLines lines ++ [lineTok line] else wordLines lines := by
  unfold wordLines
  rw [List.filter_append, List.map_append]
  by_cases h : infoLine line = true
  · simp [h]
  · simp [h]

theorem readLines_ok_iff {lines : List (List Char)} :
    readLines fir strtod s lines = .ok t ↔ lines.foldlM (readLine fir strtod) s = .ok t := by
  unfold readLines
  generalize 0 = k
  induction lines generalizing s k with
  | nil =>
    constructor
    · intro h
      cases h
      rfl
    · intro h
      cases h
      rfl
  | cons line lines ih =>
    rw [List.zipIdx_cons, List.foldlM_cons, List.foldlM_cons]
    dsimp only
    cases readLine fir strtod s line with
    | error e => exact iff_of_false nofun nofun
    | ok u => exact ih (k + 1)

variable {lines : List (List Char)} {tmp : ℕ → ℕ → ℕ → K}

theorem reads_of_foldlM (hnodup : (map.map (·.name)).Nodup)
    (h : lines.foldlM (readLine fir strtod) (ReadState.start map tmp) = .ok t) :
    ∃ ds missing, DefinesSoFar strtod (Own map) (maxSos fir) (wordLines lines) ds missing ∧
      Reads map t ds missing := by
  induction lines using List.reverseRecOn generalizing t with
  | nil =>
    cases h
    exact ⟨[], 0, DefinesSoFar.nil, reads_start map tmp⟩
  | append_singleton lines line ih =>
    obtain ⟨s, hs, hline⟩ := foldlM_concat_ok_iff.mp h
    obtain ⟨ds, missing, hsofar, hreads⟩ := ih hs
    rw [wordLines_concat]
    by_cases hinfo : infoLine line = true
    · rw [if_pos hinfo]
      exact hreads.readLine_sound hnodup hsofar hinfo hline
    · rw [if_neg hinfo]
      unfold readLine at hline
      rw [if_pos (by simpa using hinfo)] at hline
      cases hline
      exact ⟨ds, missing, hsofar, hreads⟩

variable (tmp) in
theorem foldlM_of_definesSoFar (hnodup : (map.map (·.name)).Nodup)
    (h : DefinesSoFar strtod (Own map) (maxSos fir) (wordLines lines) ds missing) :
    ∃ t, lines.foldlM (readLine fir strtod) (ReadState.start map tmp) = .ok t := by
  induction lines using List.reverseRecOn generalizing ds missing with
  | nil => exact ⟨_, rfl⟩
  | append_singleton lines line ih =>
    rw [wordLines_concat] at h
    by_cases hinfo : infoLine line = true
    · rw [if_pos hinfo] at h
      obtain ⟨ds0, missing0, hbefore⟩ : ∃ ds0 missing0,
          DefinesSoFar strtod (Own map) (maxSos fir) (wordLines lines) ds0 missing0 := by
        rcases definesSoFar_concat h with ⟨_, _, hbefore, -⟩ | ⟨_, _, _, hbefore, -⟩
        · exact ⟨_, _, hbefore⟩
        · exact ⟨_, _, hbefore⟩
      obtain ⟨s, hs⟩ := ih hbefore
      obtain ⟨ds1, missing1, hsofar, hreads⟩ := reads_of_foldlM hnodup hs
      obtain ⟨t, ht⟩ := hreads.readLine_complete hnodup hsofar hinfo h
      exact ⟨t, foldlM_concat_ok_iff.mpr ⟨s, hs, ht⟩⟩
    · rw [if_neg hinfo] at h
      obtain ⟨s, hs⟩ := ih h
      refine ⟨s, foldlM_concat_ok_iff.mpr ⟨s, hs, ?_⟩⟩
      unfold readLine
      rw [if_pos (by simpa using hinfo)]

end Reading

/-! ## Shared memory -/

section Stored

variable {K : Type} {fir charSigned : Bool} {doubleBytes : K → List (BitVec 8)}
variable {tmp : ℕ → ℕ → ℕ → K} {p q : VmeCoef K} {m : FmSubSysMap K} {j : ℕ}

variable (fir charSigned doubleBytes tmp m) in
theorem filtName_storeFilters (s : VmeCoef K × BitVec 32) (n : ℕ) (hj : j < n) :
    (((List.range n).foldl (storeFilter fir charSigned doubleBytes tmp m) s).1.vmeCoeffs
      m.fmModNum).filtName j = m.fmd.filtName j := by
  induction n with
  | zero => exact absurd hj (Nat.not_lt_zero j)
  | succ n ih =>
    rw [List.range_succ, List.foldl_append, List.foldl_cons, List.foldl_nil]
    generalize (List.range n).foldl (storeFilter fir charSigned doubleBytes tmp m) s = s' at ih
    by_cases hn : j = n
    · subst hn
      simp [storeFilter]
    · have hlt : j < n := by omega
      simpa [storeFilter, hn] using ih hlt

theorem filtName_foldl {ms : List (FmSubSysMap K)} (hnodup : (ms.map (·.fmModNum)).Nodup)
    (hm : m ∈ ms) (hj : j < filters) (p : VmeCoef K) :
    ((ms.foldl (storeModule fir charSigned doubleBytes tmp) p).vmeCoeffs m.fmModNum).filtName j =
      m.fmd.filtName j := by
  apply foldl_storeModule (P := fun p => (p.vmeCoeffs m.fmModNum).filtName j = m.fmd.filtName j) _ _
    hnodup hm
  · intro p
    have hname := filtName_storeFilters fir charSigned doubleBytes tmp m (p, 0) filters hj
    simpa [storeModule] using hname
  · intro p m' hne h
    obtain ⟨-, hother, -⟩ := storeModule_spec fir charSigned doubleBytes tmp p m'
    rw [hother _ hne]
    exact h

end Stored

/-! ## The whole function -/

section Accepted

variable {K : Type} [Add K] [Sub K] [Neg K] [One K] [Zero K]
variable (fir charSigned : Bool) (doubleBytes : K → List (BitVec 8))
variable (strtod : List Char → K × List Char) (lines : List (List Char))
variable (map : List (FmSubSysMap K)) (tmp : ℕ → ℕ → ℕ → K) (p : VmeCoef K)

def fmEmptyInputFile : ℕ := 2

def fmInvalidInputFile : ℕ := 6

/-- A text file of these lines and no file of FIR filters; an empty file is refused. -/
def txtFile : InputFiles :=
  if lines = [] then .error fmEmptyInputFile else .ok (lines, none)

/-- What `fmReadCoeffFile` returns for a text file, and the shared memory it leaves. -/
def readTxtFile : ℕ × VmeCoef K :=
  match fmReadCoeffFile fir charSigned doubleBytes strtod (txtFile lines) map tmp p with
  | .ok (_, q) => (0, q)
  | .error (.line _ _ _) => (fmInvalidInputFile, p)
  | .error (.file code) => (code, p)

/-- Shared memory has the data of a definition, or no section. -/
def LoadedDef (vme : VmeFmOpCoef K) (biquad : ℤ) (j : ℕ) : Option (FilterDef K) → Prop
  | none => vme.filtSections j = 0
  | some d => vme.filtSections j = d.filtSections ∧ vme.sType j = d.sType ∧
      vme.ramp j = d.ramp ∧ vme.timout j = d.timeout ∧ vme.filtName j = d.filtName ∧
      (biquad = 0 → ∀ i < 1 + 4 * d.filtSections, d.coeffs[i]? = some (vme.filtCoeff j i))

/-- The file is accepted if and only if it is complete, and then loaded; if it is not accepted,
nothing is. -/
structure ReadFaithfully : Prop where
  accepted : (readTxtFile fir charSigned doubleBytes strtod lines map tmp p).1 = 0 ↔
    ∃ ds, Defines strtod (Own map) maxSoSections (wordLines lines) ds
  loaded : (readTxtFile fir charSigned doubleBytes strtod lines map tmp p).1 = 0 →
    ∀ ds, Defines strtod (Own map) maxSoSections (wordLines lines) ds → ∀ m ∈ map, ∀ j < filters,
      LoadedDef ((readTxtFile fir charSigned doubleBytes strtod lines map tmp p).2.vmeCoeffs
        m.fmModNum) m.biquad j (lastDefinition ds m.name j)
  kept : (readTxtFile fir charSigned doubleBytes strtod lines map tmp p).1 ≠ 0 →
    (readTxtFile fir charSigned doubleBytes strtod lines map tmp p).2 = p

/-- The file does not end in a filter, and no filter has more than `MAX_SO_SECTIONS` sections. -/
def EndsWhole : Prop :=
  lines ≠ [] ∧ ∀ ds missing,
    DefinesSoFar strtod (Own map) (maxSos fir) (wordLines lines) ds missing →
      missing = 0 ∧ ∀ d ∈ ds, d.filtSections ≤ maxSoSections

variable {fir charSigned doubleBytes strtod lines map tmp p}

theorem le_maxSos : maxSoSections ≤ maxSos fir := by
  cases fir
  · exact le_rfl
  · decide

theorem fmReadCoeffFile_txt (hne : lines ≠ []) :
    fmReadCoeffFile fir charSigned doubleBytes strtod (txtFile lines) map tmp p =
      match readLines fir strtod (ReadState.start map tmp) lines with
      | .error (lineNo, e) => .error (.line 0 lineNo e)
      | .ok s =>
        .ok (s, s.map.foldl (storeModule fir charSigned doubleBytes s.firFiltCoeff) p) := by
  unfold fmReadCoeffFile txtFile
  rw [if_neg hne]
  dsimp only
  cases readLines fir strtod (ReadState.start map tmp) lines with
  | error e => rfl
  | ok s => rfl

theorem readTxtFile_empty (hempty : lines = []) :
    readTxtFile fir charSigned doubleBytes strtod lines map tmp p = (fmEmptyInputFile, p) := by
  unfold readTxtFile fmReadCoeffFile txtFile
  rw [if_pos hempty]

variable (fir charSigned doubleBytes strtod map tmp p) in
theorem readTxtFile_cases (hne : lines ≠ []) :
    (∃ s, lines.foldlM (readLine fir strtod) (ReadState.start map tmp) = .ok s ∧
      fmReadCoeffFile fir charSigned doubleBytes strtod (txtFile lines) map tmp p =
        .ok (s, (readTxtFile fir charSigned doubleBytes strtod lines map tmp p).2) ∧
      (readTxtFile fir charSigned doubleBytes strtod lines map tmp p).1 = 0) ∨
    ((∀ s, lines.foldlM (readLine fir strtod) (ReadState.start map tmp) ≠ .ok s) ∧
      readTxtFile fir charSigned doubleBytes strtod lines map tmp p = (fmInvalidInputFile, p)) := by
  unfold readTxtFile
  rw [fmReadCoeffFile_txt hne]
  cases hread : readLines fir strtod (ReadState.start map tmp) lines with
  | error e =>
    refine Or.inr ⟨fun s hs => ?_, rfl⟩
    rw [← readLines_ok_iff, hread] at hs
    cases hs
  | ok s => exact Or.inl ⟨s, readLines_ok_iff.mp hread, rfl, rfl⟩

variable (fir charSigned doubleBytes strtod lines tmp p) in
theorem readTxtFile_accepts_iff (hnames : (map.map (·.name)).Nodup) :
    (readTxtFile fir charSigned doubleBytes strtod lines map tmp p).1 = 0 ↔
      lines ≠ [] ∧ ∃ ds missing,
        DefinesSoFar strtod (Own map) (maxSos fir) (wordLines lines) ds missing := by
  by_cases hne : lines = []
  · rw [readTxtFile_empty hne]
    exact iff_of_false (Nat.succ_ne_zero 1) (fun h => h.1 hne)
  · rw [and_iff_right hne]
    rcases readTxtFile_cases fir charSigned doubleBytes strtod map tmp p hne with
      ⟨s, hs, -, hcode⟩ | ⟨hno, hcode⟩
    · obtain ⟨ds, missing, hsofar, -⟩ := reads_of_foldlM hnames hs
      exact iff_of_true hcode ⟨ds, missing, hsofar⟩
    · rw [hcode]
      refine iff_of_false (Nat.succ_ne_zero 5) ?_
      rintro ⟨ds, missing, hsofar⟩
      obtain ⟨s, hs⟩ := foldlM_of_definesSoFar tmp hnames hsofar
      exact hno s hs

theorem loaded_of_reads {s : ReadState K} {q : VmeCoef K} {ds : List (FilterDef K)}
    {m : FmSubSysMap K} {j : ℕ} (hnums : (map.map (·.fmModNum)).Nodup)
    (hread : fmReadCoeffFile fir charSigned doubleBytes strtod (txtFile lines) map tmp p =
      .ok (s, q)) (hreads : Reads map s ds 0)
    (hdefines : Defines strtod (Own map) maxSoSections (wordLines lines) ds)
    (hm : m ∈ map) (hj : j < filters) :
    LoadedDef (q.vmeCoeffs m.fmModNum) m.biquad j (lastDefinition ds m.name j) := by
  obtain ⟨i, hi⟩ := List.mem_iff_getElem?.mp hm
  obtain ⟨m', hm', hcfg, -, hshared⟩ := inShared_fmReadCoeffFile hnums hi hread
  obtain ⟨hname, hnum, hbiquad⟩ : m'.name = m.name ∧ m'.fmModNum = m.fmModNum ∧
      m'.biquad = m.biquad := by simpa [FmSubSysMap.config] using hcfg
  have hnums' : (s.map.map (·.fmModNum)).Nodup := by
    have hsame := congrArg (List.map fun c : List Char × ℕ × ℤ => c.2.1) hreads.config
    simp only [List.map_map] at hsame
    exact hsame ▸ hnums
  have hfilt : (q.vmeCoeffs m'.fmModNum).filtName j = m'.fmd.filtName j := by
    rw [(fmReadCoeffFile_ok hread).2]
    exact filtName_foldl hnums' (List.mem_of_getElem? hm') hj p
  have hfilter := hshared.filter j hj
  have hholds := hreads.holds i m' hm' j
  rw [hname, hbiquad] at hholds
  rw [← hnum]
  cases hlast : lastDefinition ds m.name j with
  | none =>
    rw [hlast] at hholds
    exact hfilter.filtSections.trans hholds
  | some d =>
    rw [hlast] at hholds
    obtain ⟨hsections, htype, hramp, htimout, hfiltName, hcoeffs⟩ := hholds
    have hmem : d ∈ ds ∧ d.name = m.name := by
      have h := List.mem_of_getLast? hlast
      rw [List.mem_filter, decide_eq_true_eq] at h
      exact ⟨h.1, h.2.1⟩
    have hle := ((defines_iff_soFar le_rfl).mp hdefines).2 d hmem.1
    have hown : Own map d.name := hmem.2 ▸ List.mem_map_of_mem hm
    have hlen := hdefines.coeffs_length d hmem.1 hown
    obtain ⟨hiir, hrow⟩ := hcoeffs hle
    refine ⟨hfilter.filtSections.trans hsections, hfilter.sType.trans htype,
      hfilter.ramp.trans hramp, hfilter.timout.trans htimout, hfilt.trans hfiltName, ?_⟩
    intro h0 k hk
    have hcoeff := hfilter.coeff k (by omega)
    unfold sharedCoeff tmpCoeff at hcoeff
    rw [if_neg (fun h => h.2 (hfilter.filterType.trans hiir)), if_neg (fun h => h.2 hiir)] at hcoeff
    rw [hcoeff]
    exact hrow h0 k (by omega)

theorem ReadFaithfully.endsWhole (hnames : (map.map (·.name)).Nodup)
    (h : ReadFaithfully fir charSigned doubleBytes strtod lines map tmp p) :
    EndsWhole fir strtod lines map := by
  have hne : lines ≠ [] := by
    intro hempty
    have hcode := h.accepted.mpr ⟨[], by rw [hempty]; exact Defines.nil⟩
    rw [readTxtFile_empty hempty] at hcode
    exact Nat.succ_ne_zero 1 hcode
  refine ⟨hne, fun ds missing hsofar => ?_⟩
  have hcode := (readTxtFile_accepts_iff fir charSigned doubleBytes strtod lines tmp p hnames).mpr
    ⟨hne, ds, missing, hsofar⟩
  obtain ⟨ds', hdefines⟩ := h.accepted.mp hcode
  obtain ⟨hsofar', hle⟩ := (defines_iff_soFar le_maxSos).mp hdefines
  obtain ⟨rfl, rfl⟩ := hsofar.unique hsofar'
  exact ⟨rfl, hle⟩

/-- `fmReadCoeffFile` does with a text file what is expected of it if and only if the file ends
whole. -/
theorem readFaithfully_iff (hnames : (map.map (·.name)).Nodup)
    (hnums : (map.map (·.fmModNum)).Nodup) :
    ReadFaithfully fir charSigned doubleBytes strtod lines map tmp p ↔
      EndsWhole fir strtod lines map := by
  constructor
  · exact ReadFaithfully.endsWhole hnames
  · rintro ⟨hne, hends⟩
    have hdefines : ∀ ds missing,
        DefinesSoFar strtod (Own map) (maxSos fir) (wordLines lines) ds missing →
          missing = 0 ∧ Defines strtod (Own map) maxSoSections (wordLines lines) ds := by
      intro ds missing hsofar
      obtain ⟨rfl, hle⟩ := hends ds missing hsofar
      exact ⟨rfl, (defines_iff_soFar le_maxSos).mpr ⟨hsofar, hle⟩⟩
    have haccepts := readTxtFile_accepts_iff fir charSigned doubleBytes strtod lines tmp p hnames
    refine ⟨haccepts.trans ⟨?_, ?_⟩, ?_, ?_⟩
    · rintro ⟨-, ds, missing, hsofar⟩
      exact ⟨ds, (hdefines ds missing hsofar).2⟩
    · rintro ⟨ds, hds⟩
      exact ⟨hne, ds, 0, ((defines_iff_soFar le_maxSos).mp hds).1⟩
    · intro hcode ds hds m hm j hj
      rcases readTxtFile_cases fir charSigned doubleBytes strtod map tmp p hne with
        ⟨s, hs, hread, -⟩ | ⟨-, hno⟩
      · obtain ⟨ds', missing, hsofar, hreads⟩ := reads_of_foldlM hnames hs
        obtain ⟨rfl, -⟩ := hdefines ds' missing hsofar
        obtain ⟨rfl, -⟩ := ((defines_iff_soFar le_maxSos).mp hds).1.unique hsofar
        exact loaded_of_reads hnums hread hreads hds hm hj
      · rw [hno] at hcode
        exact absurd hcode (Nat.succ_ne_zero 5)
    · intro hcode
      rcases readTxtFile_cases fir charSigned doubleBytes strtod map tmp p hne with
        ⟨s, -, -, h0⟩ | ⟨-, hno⟩
      · exact absurd h0 hcode
      · rw [hno]

end Accepted

/-! ## A file that ends in a filter -/

/-- The line of a filter of two sections. -/
def headOfTwo : List Char := "FM 0 12 2 0 0 LP 2 3 1 4 1\n".toList

def contOfTwo : List Char := "5 9 2 6\n".toList

def lowPass : FilterDef ℤ where
  name := "FM".toList
  num := 0
  sType := 12
  filtSections := 2
  ramp := 0
  timeout := 0
  filtName := "LP".toList
  coeffs := [2, 3, 1, 4, 1]

theorem soFar_headOfTwo : DefinesSoFar readInteger (Own [moduleFm]) (maxSos false)
    (wordLines [headOfTwo]) [lowPass] 1 := by
  have hhead : HeadLine readInteger (maxSos false) (lineTok headOfTwo) lowPass := by
    constructor
    all_goals decide +kernel
  exact DefinesSoFar.nil.head hhead (by decide)

theorem endsWhole_two : EndsWhole false readInteger [headOfTwo, contOfTwo] [moduleFm] := by
  refine ⟨nofun, fun ds missing hsofar => ?_⟩
  have hcont : ContLine readInteger (Own [moduleFm]) lowPass.name (lineTok contOfTwo)
      [5, 9, 2, 6] := by
    refine ⟨by decide +kernel, fun _ => by decide +kernel, fun hno => absurd ?_ hno⟩
    exact List.mem_singleton.mpr rfl
  have hlines : wordLines [headOfTwo, contOfTwo] =
      wordLines [headOfTwo] ++ [lineTok contOfTwo] := by
    decide +kernel
  have hfirst : DefinesSoFar readInteger (Own [moduleFm]) (maxSos false) (wordLines [headOfTwo])
      ([] ++ [lowPass]) (0 + 1) := soFar_headOfTwo
  rw [hlines] at hsofar
  obtain ⟨rfl, rfl⟩ := hsofar.unique (hfirst.cont hcont)
  exact ⟨rfl, by decide⟩

theorem readFaithfully_iff_two : ReadFaithfully false true (fun _ => []) readInteger
    [headOfTwo, contOfTwo] [moduleFm] (fun _ _ _ => 0) VmeCoef.zero :=
  (readFaithfully_iff (by decide) (by decide)).mpr endsWhole_two

/-- Without its second line the file is accepted too. -/
theorem not_readFaithfully_half :
    (readTxtFile false true (fun _ => []) readInteger [headOfTwo] [moduleFm] (fun _ _ _ => 0)
      VmeCoef.zero).1 = 0 ∧
    ¬ReadFaithfully false true (fun _ => []) readInteger [headOfTwo] [moduleFm] (fun _ _ _ => 0)
      VmeCoef.zero := by
  refine ⟨(readTxtFile_accepts_iff false true _ readInteger _ _ _ (by decide)).mpr
    ⟨nofun, _, _, soFar_headOfTwo⟩, fun h => ?_⟩
  obtain ⟨-, hends⟩ := h.endsWhole (by decide)
  exact absurd (hends _ _ soFar_headOfTwo).1 one_ne_zero

end AdvLigoRts.Drv
