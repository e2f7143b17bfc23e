import AdvLigoRts.Drv.FmReadCoeffTheorems

/-!
# Coefficients in a running front end and at start-up

`readCoefVme2` is followed through one filter: `Staged` says what the static copies hold while its
sections are copied, `Loaded` what the filter is afterwards.
-/

namespace AdvLigoRts.Drv

open PvLib

section Reload

variable {K : Type} {fir charSigned : Bool} {doubleBytes : K → List (BitVec 8)}
variable {p : VmeCoef K} {mod j q : ℕ} {m0 m m' : ReloadMem K}

/-! ## One filter -/

/-- The coefficients of a filter of the given type in local memory. -/
def slotCoeff (filtC : Coef K) (mod j type : ℕ) : ℕ → K :=
  if type > 0 then filtC.firFiltCoeff (type - 1) j else (filtC.coeffs mod).filtCoeff j

/-- The coefficients of a filter of the given type in the static copies. -/
def stagedCoeff (m : ReloadMem K) (j type : ℕ) : ℕ → K :=
  if type > 0 then m.localFirFiltCoeff j else m.localCoeff.filtCoeff j

/-- The checksum before the filter `j`. -/
def crcBefore (m : ReloadMem K) (j : ℕ) : BitVec 32 := if j = 0 then 0 else m.localCoeff.crc

/-- The checksum behind the numbers that stand before the coefficients of a filter. -/
def headCrc (charSigned : Bool) (vme : VmeFmOpCoef K) (j : ℕ) (crc : BitVec 32) : BitVec 32 :=
  let crc := crcPtr charSigned (intBytes (vme.filtSections j)) crc
  let crc := crcPtr charSigned (intBytes (vme.sType j)) crc
  let crc := crcPtr charSigned (intBytes (vme.ramp j)) crc
  crcPtr charSigned (intBytes (vme.timout j)) crc

/-- The checksum behind the first `q` coefficients. -/
def coeffsCrc (charSigned : Bool) (doubleBytes : K → List (BitVec 8)) (coeff : ℕ → K) (q : ℕ)
    (crc : BitVec 32) : BitVec 32 :=
  (List.range q).foldl (fun crc k => crcPtr charSigned (doubleBytes (coeff k)) crc) crc

theorem coeffsCrc_succ (coeff : ℕ → K) (q : ℕ) (crc : BitVec 32) :
    coeffsCrc charSigned doubleBytes coeff (q + 1) crc =
      crcPtr charSigned (doubleBytes (coeff q))
        (coeffsCrc charSigned doubleBytes coeff q crc) := by
  simp [coeffsCrc, List.range_succ]

theorem filterCrc_eq (vme : VmeFmOpCoef K) (coeff : ℕ → K) (crc : BitVec 32) (j : ℕ) :
    filterCrc charSigned doubleBytes vme coeff crc j =
      if vme.filtSections j > 0 then
        coeffsCrc charSigned doubleBytes coeff (1 + vme.filtSections j * 4)
          (headCrc charSigned vme j crc)
      else crcPtr charSigned (intBytes (vme.filtSections j)) crc := rfl

theorem FilterOk.fir_of_type (h : FilterOk fir (p.vmeCoeffs mod) j)
    (ht : 0 < (p.vmeCoeffs mod).filterType j) : fir = true := by
  rcases h with h | h
  · omega
  · exact h.1

theorem FilterOk.sharedCoeff_fir (h : FilterOk fir (p.vmeCoeffs mod) j)
    (ht : 0 < (p.vmeCoeffs mod).filterType j) :
    sharedCoeff fir p mod j = p.firFiltCoeff ((p.vmeCoeffs mod).filterType j - 1) j := by
  have hne : (p.vmeCoeffs mod).filterType j ≠ 0 := by omega
  simp [sharedCoeff, tmpCoeff, h.fir_of_type ht, hne]

variable (fir) in
theorem sharedCoeff_iir (ht : (p.vmeCoeffs mod).filterType j = 0) :
    sharedCoeff fir p mod j = (p.vmeCoeffs mod).filtCoeff j := by
  simp [sharedCoeff, tmpCoeff, ht]

/-- The calls that reload the filter `j`. -/
def filterCalls (p : VmeCoef K) (mod j : ℕ) : ℕ := (p.vmeCoeffs mod).filtSections j + 2

/-- The calls that reload the filters before `n`. -/
def filtersCalls (p : VmeCoef K) (mod n : ℕ) : ℕ := ((List.range n).map (filterCalls p mod)).sum

theorem filtersCalls_succ (n : ℕ) :
    filtersCalls p mod (n + 1) = filtersCalls p mod n + filterCalls p mod n := by
  simp [filtersCalls, List.range_succ]

variable [BEq K]

/-- Some coefficient before `q` differs from the one in shared memory. -/
def Differs (fir : Bool) (filtC : Coef K) (p : VmeCoef K) (mod j q : ℕ) : Prop :=
  ∃ k < q, (slotCoeff filtC mod j ((p.vmeCoeffs mod).filterType j) k !=
    sharedCoeff fir p mod j k) = true

theorem differs_succ {filtC : Coef K} :
    Differs fir filtC p mod j (q + 1) ↔ Differs fir filtC p mod j q ∨
      (slotCoeff filtC mod j ((p.vmeCoeffs mod).filterType j) q !=
        sharedCoeff fir p mod j q) = true := by
  constructor
  · rintro ⟨k, hk, hne⟩
    by_cases hkq : k = q
    · exact Or.inr (hkq ▸ hne)
    · exact Or.inl ⟨k, by omega, hne⟩
  · rintro (⟨k, hk, hne⟩ | hne)
    · exact ⟨k, by omega, hne⟩
    · exact ⟨q, by omega, hne⟩

/-- The first `q` coefficients of the filter `j` have been copied, from the memory `m0`. -/
structure Staged (fir charSigned : Bool) (doubleBytes : K → List (BitVec 8)) (p : VmeCoef K)
    (mod j : ℕ) (m0 m : ReloadMem K) (q : ℕ) : Prop where
  filtC : m.filtC = m0.filtC
  fmt : m.fmt = m0.fmt
  filtSections : m.localCoeff.filtSections j = (p.vmeCoeffs mod).filtSections j
  filterType : m.localCoeff.filterType j = (p.vmeCoeffs mod).filterType j
  sType : m.localCoeff.sType j = (p.vmeCoeffs mod).sType j
  ramp : m.localCoeff.ramp j = (p.vmeCoeffs mod).ramp j
  timout : m.localCoeff.timout j = (p.vmeCoeffs mod).timout j
  coeff : ∀ k < q, stagedCoeff m j ((p.vmeCoeffs mod).filterType j) k = sharedCoeff fir p mod j k
  crc : m.localCoeff.crc = coeffsCrc charSigned doubleBytes (sharedCoeff fir p mod j) q
    (headCrc charSigned (p.vmeCoeffs mod) j (crcBefore m0 j))
  unchanged : ∀ i ≠ j, m.changed i = 0
  changed : m.changed j ≠ 0 ↔ Differs fir m0.filtC p mod j q

/-- The only filter that counts as changed is `j`. -/
theorem Staged.changed_iff (h : Staged fir charSigned doubleBytes p mod j m0 m q) {i : ℕ} :
    m.changed i ≠ 0 ↔ i = j ∧ Differs fir m0.filtC p mod j q := by
  by_cases hi : i = j
  · subst hi
    simpa using h.changed
  · simp [hi, h.unchanged i hi]

variable (charSigned doubleBytes m0) in
theorem staged_head (h : FilterOk fir (p.vmeCoeffs mod) j)
    (hn : 0 < (p.vmeCoeffs mod).filtSections j) :
    (reloadHead fir charSigned m0 mod j p).1 = 1 ∧ Staged fir charSigned doubleBytes p mod j m0
      (reloadHead fir charSigned m0 mod j p).2 0 := by
  have hcond : ((p.vmeCoeffs mod).filtSections j > 0 ∧ (p.vmeCoeffs mod).filtSections j < 11) ∨
      ((p.vmeCoeffs mod).filtSections j > 10 ∧ (p.vmeCoeffs mod).filterType j > 0) := by
    have hso : maxSoSections = 10 := rfl
    rcases h with h | h
    · left
      omega
    · right
      omega
  simp only [reloadHead, hcond, if_true]
  refine ⟨trivial, ?_⟩
  constructor
  all_goals simp [Differs, coeffsCrc, headCrc, crcBefore]

/-- One more coefficient differs: the count of the filter is positive. -/
theorem count_ne_zero {changed : ℕ → ℕ} {old new : K} :
    (if old != new then Function.update changed j (changed j + 1) else changed) j ≠ 0 ↔
      changed j ≠ 0 ∨ (old != new) = true := by
  by_cases hne : (old != new) = true
  · simp [hne]
  · simp [hne]

theorem count_other {changed : ℕ → ℕ} {old new : K} {i : ℕ} (hi : i ≠ j) :
    (if old != new then Function.update changed j (changed j + 1) else changed) i =
      changed i := by
  split
  · exact Function.update_of_ne hi _ _
  · rfl

/-- The copy of one coefficient. -/
theorem Staged.next (h : Staged fir charSigned doubleBytes p mod j m0 m q)
    (hok : FilterOk fir (p.vmeCoeffs mod) j) :
    Staged fir charSigned doubleBytes p mod j m0
      (reloadCoeff fir charSigned doubleBytes mod j p m q) (q + 1) := by
  have hlast : ∀ k < q + 1, k ≠ q → k < q := by omega
  by_cases ht : (p.vmeCoeffs mod).filterType j > 0
  case' pos =>
    obtain rfl := hok.fir_of_type ht
    have hshared := hok.sharedCoeff_fir ht
    simp only [reloadCoeff, ht, if_true]
  case' neg =>
    have hshared := sharedCoeff_iir fir (Nat.eq_zero_of_not_pos ht)
    simp only [reloadCoeff, ht, if_false]
  all_goals
    refine ⟨h.filtC, h.fmt, h.filtSections, h.filterType, h.sType, h.ramp, h.timout, ?_, ?_,
      fun i hi => (count_other hi).trans (h.unchanged i hi), ?_⟩
    · intro k hk
      by_cases hkq : k = q
      · subst hkq
        simp [stagedCoeff, ht, hshared]
      · have hold := h.coeff k (hlast k hk hkq)
        simpa [stagedCoeff, ht, hkq] using hold
    · rw [coeffsCrc_succ, ← h.crc, hshared]
    · refine count_ne_zero.trans ?_
      rw [h.changed, differs_succ, ← h.filtC, hshared]
      simp only [slotCoeff, ht, if_true, if_false]

/-- The coefficients that have been copied before the cycle `c`. -/
def copiedBefore (c : ℕ) : ℕ := if c ≤ 1 then 0 else (c - 1) * 4 + 1

/-- What the copy of one coefficient after the other keeps, with the number of copies. -/
structure Copying (fir charSigned : Bool) (doubleBytes : K → List (BitVec 8)) (p : VmeCoef K)
    (mod j : ℕ) (I : ReloadMem K → ℕ → Prop) : Prop where
  filtSections : ∀ {m q}, I m q → m.localCoeff.filtSections j = (p.vmeCoeffs mod).filtSections j
  next : ∀ {m q}, I m q → I (reloadCoeff fir charSigned doubleBytes mod j p m q) (q + 1)

theorem FilterOk.copying (hok : FilterOk fir (p.vmeCoeffs mod) j) :
    Copying fir charSigned doubleBytes p mod j (Staged fir charSigned doubleBytes p mod j m0) where
  filtSections h := h.filtSections
  next h := h.next hok

variable {I : ReloadMem K → ℕ → Prop}

theorem Copying.copies (hI : Copying fir charSigned doubleBytes p mod j I) (h : I m q) (r : ℕ) :
    I ((List.range' q r).foldl (reloadCoeff fir charSigned doubleBytes mod j p) m) (q + r) := by
  induction r with
  | zero => exact h
  | succ r ih =>
    rw [List.range'_concat, List.foldl_append, Nat.one_mul]
    exact hI.next ih

theorem Copying.section {c : ℕ} (hI : Copying fir charSigned doubleBytes p mod j I)
    (h : I m (copiedBefore c)) (hc : 0 < c) :
    (reloadSection fir charSigned doubleBytes m mod j c p).1 =
        (if (p.vmeCoeffs mod).filtSections j > c then c + 1 else maxUpdateCycle fir) ∧
      I (reloadSection fir charSigned doubleBytes m mod j c p).2 (copiedBefore (c + 1)) := by
  have hgain : I (if c = 1 then reloadCoeff fir charSigned doubleBytes mod j p m 0 else m)
      (c * 4 - 3) := by
    by_cases hc1 : c = 1
    · subst hc1
      exact hI.next h
    · rw [if_neg hc1]
      have hq : copiedBefore c = c * 4 - 3 := by
        rw [copiedBefore, if_neg (by omega)]
        omega
      exact hq ▸ h
  have hall := hI.copies hgain 4
  have hq : copiedBefore (c + 1) = c * 4 - 3 + 4 := by
    rw [copiedBefore, if_neg (by omega)]
    omega
  refine ⟨?_, ?_⟩
  · unfold reloadSection
    dsimp only
    rw [hI.filtSections hall]
  · rw [hq]
    exact hall

variable [Zero K]

/-! ## What a filter is afterwards -/

/-- The reload of the filter `j` clears this place of the histories of FIR filters. -/
def Clears (fir : Bool) (filtC : Coef K) (p : VmeCoef K) (mod j t i kk hh : ℕ) : Prop :=
  i = j ∧ 0 < (p.vmeCoeffs mod).filterType j ∧ t = (p.vmeCoeffs mod).filterType j - 1 ∧
    Differs fir filtC p mod j ((p.vmeCoeffs mod).filtSections j * 4 + 1) ∧
    kk < firPolyphaseSize ∧ hh < firTaps

/-- The reload of the filter `j`. -/
structure Loaded (fir charSigned : Bool) (doubleBytes : K → List (BitVec 8)) (p : VmeCoef K)
    (mod j : ℕ) (m0 m : ReloadMem K) : Prop where
  filtSections : ∀ i, (m.filtC.coeffs mod).filtSections i =
    if i = j then (p.vmeCoeffs mod).filtSections j else (m0.filtC.coeffs mod).filtSections i
  filterType : ∀ i, (m.filtC.coeffs mod).filterType i =
    if i = j then (p.vmeCoeffs mod).filterType j else (m0.filtC.coeffs mod).filterType i
  biquad : (m.filtC.coeffs mod).biquad = (m0.filtC.coeffs mod).biquad
  sType : ∀ i, (m.filtC.coeffs mod).sType i =
    if i = j ∧ (p.vmeCoeffs mod).filtSections j ≠ 0 then (p.vmeCoeffs mod).sType j
    else (m0.filtC.coeffs mod).sType i
  ramp : ∀ i, (m.fmt.inputs mod).rmpcmp i =
    if i = j ∧ (p.vmeCoeffs mod).filtSections j ≠ 0 then (p.vmeCoeffs mod).ramp j
    else (m0.fmt.inputs mod).rmpcmp i
  timeout : ∀ i, (m.fmt.inputs mod).timeout i =
    if i = j ∧ (p.vmeCoeffs mod).filtSections j ≠ 0 then (p.vmeCoeffs mod).timout j
    else (m0.fmt.inputs mod).timeout i
  filtCoeff : ∀ i k, (m.filtC.coeffs mod).filtCoeff i k =
    if i = j ∧ (p.vmeCoeffs mod).filtSections j ≠ 0 ∧ (p.vmeCoeffs mod).filterType j = 0 ∧
      k < (p.vmeCoeffs mod).filtSections j * 4 + 1 then sharedCoeff fir p mod j k
    else (m0.filtC.coeffs mod).filtCoeff i k
  other : ∀ a ≠ mod, m.filtC.coeffs a = m0.filtC.coeffs a ∧ m.fmt.inputs a = m0.fmt.inputs a
  firFiltCoeff : ∀ t i k, m.filtC.firFiltCoeff t i k =
    if i = j ∧ (p.vmeCoeffs mod).filtSections j ≠ 0 ∧ 0 < (p.vmeCoeffs mod).filterType j ∧
      t = (p.vmeCoeffs mod).filterType j - 1 ∧ k < (p.vmeCoeffs mod).filtSections j * 4 + 1
    then sharedCoeff fir p mod j k else m0.filtC.firFiltCoeff t i k
  cleared : ∀ t i kk hh, Clears fir m0.filtC p mod j t i kk hh →
    m.filtC.firHistory t i kk hh = 0
  kept : ∀ t i kk hh, ¬ Clears fir m0.filtC p mod j t i kk hh →
    m.filtC.firHistory t i kk hh = m0.filtC.firHistory t i kk hh
  crc : m.localCoeff.crc = filterCrc charSigned doubleBytes (p.vmeCoeffs mod)
    (sharedCoeff fir p mod j) (crcBefore m0 j) j

variable (charSigned doubleBytes m0) in
theorem loaded_absent (h : FilterOk fir (p.vmeCoeffs mod) j)
    (hn : (p.vmeCoeffs mod).filtSections j = 0) :
    (reloadHead fir charSigned m0 mod j p).1 = maxUpdateCycle fir ∧
      (reloadHead fir charSigned m0 mod j p).2.localCoeff.filtSections j = 0 ∧
      Loaded fir charSigned doubleBytes p mod j m0 (reloadHead fir charSigned m0 mod j p).2 := by
  have ht : (p.vmeCoeffs mod).filterType j = 0 := by
    rcases h with h | h
    · exact h.2
    · omega
  have hcond : ¬ (((p.vmeCoeffs mod).filtSections j > 0 ∧ (p.vmeCoeffs mod).filtSections j < 11) ∨
      ((p.vmeCoeffs mod).filtSections j > 10 ∧ (p.vmeCoeffs mod).filterType j > 0)) := by
    omega
  simp only [reloadHead, hcond, if_false]
  refine ⟨trivial, by simp, ?_⟩
  constructor
  case other =>
    intro a ha
    simp [ha]
  case filtSections =>
    intro i
    simp [Function.update_apply, hn]
  case filterType =>
    intro i
    simp [Function.update_apply, ht]
  all_goals simp [hn, crcBefore, filterCrc, Clears, ht]

/-- The cycle in which the static copies become the filter. -/
theorem Staged.loaded (h : Staged fir charSigned doubleBytes p mod j m0 m
      ((p.vmeCoeffs mod).filtSections j * 4 + 1)) (hok : FilterOk fir (p.vmeCoeffs mod) j)
    (hj : j < filters) (hn : (p.vmeCoeffs mod).filtSections j ≠ 0) :
    Loaded fir charSigned doubleBytes p mod j m0 (reloadFilter fir m mod j p) := by
  have hcrc : (reloadFilter fir m mod j p).localCoeff = m.localCoeff := by
    unfold reloadFilter
    dsimp only
    split
    · rfl
    · split
      · rfl
      · rfl
  have hcrc' : m.localCoeff.crc = filterCrc charSigned doubleBytes (p.vmeCoeffs mod)
      (sharedCoeff fir p mod j) (crcBefore m0 j) j := by
    rw [h.crc, filterCrc_eq, if_pos (Nat.pos_of_ne_zero hn), Nat.add_comm]
  have hcoeff := h.coeff
  by_cases ht : (p.vmeCoeffs mod).filterType j > 0
  · obtain rfl := hok.fir_of_type ht
    have htype : (p.vmeCoeffs mod).filterType j ≠ 0 := by omega
    rw [stagedCoeff, if_pos ht] at hcoeff
    constructor
    case crc => rw [hcrc, hcrc']
    all_goals simp only [reloadFilter, clearHistories, h.filtSections, hn, ht, htype, if_true,
      if_false, ne_eq, not_false_eq_true, h.filtC, h.fmt, h.filterType, h.sType, h.ramp,
      h.timout, and_true, and_false, false_and, Function.update_self]
    case filtSections | filterType | sType | ramp | timeout =>
      exact fun i => Function.update_apply _ _ _ _
    case other =>
      intro a ha
      exact ⟨Function.update_of_ne ha _ _, Function.update_of_ne ha _ _⟩
    case firFiltCoeff =>
      intro t i k
      by_cases hti : t = (p.vmeCoeffs mod).filterType j - 1
      · subst hti
        by_cases hi : i = j
        · subst hi
          rw [Function.update_self, Function.update_self]
          by_cases hk : k < (p.vmeCoeffs mod).filtSections i * 4 + 1
          · rw [if_pos hk, if_pos ⟨rfl, trivial, trivial, rfl, hk⟩, hcoeff k hk]
          · rw [if_neg hk, if_neg fun h => hk h.2.2.2.2]
        · simp [hi]
      · simp [hti]
    case cleared =>
      rintro t i kk hh ⟨rfl, -, rfl, hdiff, hkk, hhh⟩
      have hchanged := h.changed_iff.mpr ⟨rfl, hdiff⟩
      rw [if_pos ⟨rfl, hj, hchanged, hkk, hhh⟩]
    case kept =>
      intro t i kk hh hnot
      rw [if_neg]
      rintro ⟨hti, -, hchanged, hkk, hhh⟩
      obtain ⟨hi, hdiff⟩ := h.changed_iff.mp hchanged
      exact hnot ⟨hi, ht, hti, hdiff, hkk, hhh⟩
    case filtCoeff =>
      intro i k
      simp
  · have ht0 := Nat.eq_zero_of_not_pos ht
    rw [stagedCoeff, if_neg ht] at hcoeff
    constructor
    case crc => rw [hcrc, hcrc']
    all_goals simp only [reloadFilter, clearHistories, h.filtSections, hn, ht0, if_false, ne_eq,
      not_false_eq_true, h.filtC, h.fmt, h.filterType, h.sType, h.ramp, h.timout, and_true,
      and_false, false_and, Function.update_self, lt_irrefl, not_true_eq_false, true_and]
    case filtSections | filterType | sType | ramp | timeout =>
      exact fun i => Function.update_apply _ _ _ _
    case other =>
      intro a ha
      simp [ha]
    case firFiltCoeff =>
      intro t i k
      simp
    case cleared =>
      rintro t i kk hh ⟨-, hpos, -⟩
      omega
    case kept =>
      intro t i kk hh _
      trivial
    case filtCoeff =>
      intro i k
      by_cases hi : i = j
      · subst hi
        rw [Function.update_self]
        by_cases hk : k < (p.vmeCoeffs mod).filtSections i * 4 + 1
        · rw [if_pos hk, if_pos ⟨rfl, hk⟩, hcoeff k hk]
        · rw [if_neg hk, if_neg fun h => hk h.2]
      · simp [hi]

/-! ## All filters -/

/-- The filters before `j` have been reloaded, from the memory `m0`. -/
structure Reloaded (fir charSigned : Bool) (doubleBytes : K → List (BitVec 8)) (p : VmeCoef K)
    (mod : ℕ) (m0 m : ReloadMem K) (j : ℕ) : Prop where
  filtSections : ∀ i, (m.filtC.coeffs mod).filtSections i =
    if i < j then (p.vmeCoeffs mod).filtSections i else (m0.filtC.coeffs mod).filtSections i
  filterType : ∀ i, (m.filtC.coeffs mod).filterType i =
    if i < j then (p.vmeCoeffs mod).filterType i else (m0.filtC.coeffs mod).filterType i
  biquad : (m.filtC.coeffs mod).biquad = (m0.filtC.coeffs mod).biquad
  sType : ∀ i < j, (p.vmeCoeffs mod).filtSections i ≠ 0 →
    (m.filtC.coeffs mod).sType i = (p.vmeCoeffs mod).sType i
  ramp : ∀ i < j, (p.vmeCoeffs mod).filtSections i ≠ 0 →
    (m.fmt.inputs mod).rmpcmp i = (p.vmeCoeffs mod).ramp i
  timeout : ∀ i < j, (p.vmeCoeffs mod).filtSections i ≠ 0 →
    (m.fmt.inputs mod).timeout i = (p.vmeCoeffs mod).timout i
  filtCoeff : ∀ i < j, (p.vmeCoeffs mod).filtSections i ≠ 0 →
    (p.vmeCoeffs mod).filterType i = 0 → ∀ k < (p.vmeCoeffs mod).filtSections i * 4 + 1,
      (m.filtC.coeffs mod).filtCoeff i k = sharedCoeff fir p mod i k
  other : ∀ a ≠ mod, m.filtC.coeffs a = m0.filtC.coeffs a ∧ m.fmt.inputs a = m0.fmt.inputs a
  firFiltCoeff : ∀ t i k, m.filtC.firFiltCoeff t i k =
    if i < j ∧ (p.vmeCoeffs mod).filtSections i ≠ 0 ∧ 0 < (p.vmeCoeffs mod).filterType i ∧
      t = (p.vmeCoeffs mod).filterType i - 1 ∧ k < (p.vmeCoeffs mod).filtSections i * 4 + 1
    then sharedCoeff fir p mod i k else m0.filtC.firFiltCoeff t i k
  cleared : ∀ t i kk hh, i < j ∧ Clears fir m0.filtC p mod i t i kk hh →
    m.filtC.firHistory t i kk hh = 0
  kept : ∀ t i kk hh, ¬ (i < j ∧ Clears fir m0.filtC p mod i t i kk hh) →
    m.filtC.firHistory t i kk hh = m0.filtC.firHistory t i kk hh
  crc : 0 < j → m.localCoeff.crc =
    coefCrc charSigned doubleBytes (p.vmeCoeffs mod) (sharedCoeff fir p mod) j

theorem reloaded_zero : Reloaded fir charSigned doubleBytes p mod m0 m0 0 where
  filtSections i := by simp
  filterType i := by simp
  biquad := rfl
  sType i hi := by omega
  ramp i hi := by omega
  timeout i hi := by omega
  filtCoeff i hi := by omega
  other a _ := ⟨rfl, rfl⟩
  firFiltCoeff t i k := by simp
  cleared t i kk hh h := by omega
  kept t i kk hh _ := rfl
  crc h := by omega

/-- A FIR filter that is still to come differs in the same coefficients as at the start. -/
theorem Reloaded.clears_iff (h : Reloaded fir charSigned doubleBytes p mod m0 m j)
    {t i kk hh : ℕ} :
    Clears fir m.filtC p mod j t i kk hh ↔ Clears fir m0.filtC p mod j t i kk hh := by
  by_cases ht : 0 < (p.vmeCoeffs mod).filterType j
  · have hslot : slotCoeff m.filtC mod j ((p.vmeCoeffs mod).filterType j) =
        slotCoeff m0.filtC mod j ((p.vmeCoeffs mod).filterType j) := by
      rw [slotCoeff, slotCoeff, if_pos ht, if_pos ht]
      funext k
      rw [h.firFiltCoeff, if_neg (by omega)]
    simp only [Clears, Differs, hslot]
  · simp only [Clears, ht, false_and, and_false]

/-- One filter more. -/
theorem Reloaded.next (h : Reloaded fir charSigned doubleBytes p mod m0 m j)
    (hl : Loaded fir charSigned doubleBytes p mod j m m') :
    Reloaded fir charSigned doubleBytes p mod m0 m' (j + 1) where
  filtSections i := by
    rw [hl.filtSections, h.filtSections]
    grind
  filterType i := by
    rw [hl.filterType, h.filterType]
    grind
  biquad := hl.biquad.trans h.biquad
  sType i hi hn := by
    have hold := h.sType i
    have hnew := hl.sType i
    grind
  ramp i hi hn := by
    have hold := h.ramp i
    have hnew := hl.ramp i
    grind
  timeout i hi hn := by
    have hold := h.timeout i
    have hnew := hl.timeout i
    grind
  filtCoeff i hi hn ht k hk := by
    have hold := h.filtCoeff i
    have hnew := hl.filtCoeff i k
    grind
  other a ha := ⟨(hl.other a ha).1.trans (h.other a ha).1, (hl.other a ha).2.trans (h.other a ha).2⟩
  firFiltCoeff t i k := by
    have hold := h.firFiltCoeff t i k
    have hnew := hl.firFiltCoeff t i k
    grind
  cleared t i kk hh hc := by
    obtain ⟨hi, hc⟩ := hc
    by_cases hij : i = j
    · subst hij
      exact hl.cleared t i kk hh (h.clears_iff.mpr hc)
    · have hold := h.cleared t i kk hh ⟨by omega, hc⟩
      rw [hl.kept t i kk hh fun hcj => hij hcj.1]
      exact hold
  kept t i kk hh hc := by
    by_cases hij : i = j
    · subst hij
      rw [hl.kept t i kk hh fun hcj => hc ⟨by omega, h.clears_iff.mp hcj⟩]
      exact h.kept t i kk hh (by omega)
    · rw [hl.kept t i kk hh fun hcj => hij hcj.1]
      exact h.kept t i kk hh fun hci => hc ⟨by omega, hci.2⟩
  crc _ := by
    rw [hl.crc, coefCrc_succ]
    congr 1
    unfold crcBefore
    split
    · rename_i hj
      subst hj
      rfl
    · exact h.crc (by omega)

/-! ## The calls of `checkFiltResetId` -/

def calls (fir charSigned : Bool) (doubleBytes : K → List (BitVec 8)) (pL totMod : ℕ)
    (p : VmeCoef K) (s : ResetState K) (banks : List ℤ) : ResetState K :=
  banks.foldl (fun s bank => checkFiltResetId fir charSigned doubleBytes s bank pL totMod p) s

/-- Any `n` calls take the reload from `s` to `u`, and it goes on until the last one. -/
def Drives (fir charSigned : Bool) (doubleBytes : K → List (BitVec 8)) (pL totMod : ℕ)
    (p : VmeCoef K) (n : ℕ) (s u : ResetState K) : Prop :=
  ∀ banks : List ℤ, banks.length = n →
    calls fir charSigned doubleBytes pL totMod p s banks = u ∧
      ∀ k < n, (calls fir charSigned doubleBytes pL totMod p s (banks.take k)).fmResetCoeff ≠ 0

variable {pL totMod : ℕ} {s u w : ResetState K} {n n' : ℕ}

theorem Drives.refl : Drives fir charSigned doubleBytes pL totMod p 0 s s := by
  intro banks hlen
  obtain rfl := List.length_eq_zero_iff.mp hlen
  exact ⟨rfl, nofun⟩

/-- A call, and the ones that follow. -/
theorem Drives.cons (hs : s.fmResetCoeff ≠ 0)
    (hstep : ∀ bank, checkFiltResetId fir charSigned doubleBytes s bank pL totMod p = u)
    (h : Drives fir charSigned doubleBytes pL totMod p n u w) :
    Drives fir charSigned doubleBytes pL totMod p (n + 1) s w := by
  intro banks hlen
  cases banks with
  | nil => cases hlen
  | cons bank banks =>
    obtain ⟨hend, hgoing⟩ := h banks (Nat.succ.inj hlen)
    refine ⟨?_, ?_⟩
    · rw [calls, List.foldl_cons, hstep]
      exact hend
    · intro k hk
      cases k with
      | zero => exact hs
      | succ k =>
        rw [List.take_succ_cons, calls, List.foldl_cons, hstep]
        exact hgoing k (by omega)

theorem Drives.trans (h : Drives fir charSigned doubleBytes pL totMod p n s u)
    (h' : Drives fir charSigned doubleBytes pL totMod p n' u w) :
    Drives fir charSigned doubleBytes pL totMod p (n + n') s w := by
  intro banks hlen
  have hsplit : ∀ l : List ℤ, calls fir charSigned doubleBytes pL totMod p s (banks.take n ++ l) =
      calls fir charSigned doubleBytes pL totMod p u l := by
    intro l
    rw [calls, List.foldl_append]
    exact congrArg (fun s => calls fir charSigned doubleBytes pL totMod p s l)
      (h (banks.take n) (by simp; omega)).1
  refine ⟨?_, ?_⟩
  · rw [← List.take_append_drop n banks, hsplit]
    exact (h' (banks.drop n) (by simp; omega)).1
  · intro k hk
    by_cases hkn : k < n
    · have hgoing := (h (banks.take n) (by simp; omega)).2 k hkn
      rwa [List.take_take, min_eq_left (by omega)] at hgoing
    · have htake : banks.take k = banks.take n ++ (banks.drop n).take (k - n) := by
        rw [← List.take_add]
        congr 1
        omega
      rw [htake, hsplit]
      exact (h' (banks.drop n) (by simp; omega)).2 (k - n) (by omega)

/-- The state in which the cycle `c` of the filter `j` is to come. -/
def working (mod j c pL : ℕ) (m : ReloadMem K) (d : FiltMod) : ResetState K where
  fmResetCoeff := mod + 1
  fmResetCounter := j
  fmSubCounter := c
  fmResetDsp := pL
  mem := m
  dspVme := d

/-- The state behind the filter `j`. -/
def afterFilter (mod j pL : ℕ) (m : ReloadMem K) (d : FiltMod) : ResetState K :=
  if j + 1 ≥ filters then
    { working 0 0 0 pL m { d with coefLoadError := mod + 1 } with fmResetCoeff := 0 }
  else working mod (j + 1) 0 pL m d

variable {c : ℕ} {d : FiltMod}

theorem check_working (bank : ℤ) :
    checkFiltResetId fir charSigned doubleBytes (working mod j c pL m d) bank pL totMod p =
      if (readCoefVme2 fir charSigned doubleBytes m mod j c p).1 = 0 then
        afterFilter mod j pL (readCoefVme2 fir charSigned doubleBytes m mod j c p).2 d
      else working mod j (readCoefVme2 fir charSigned doubleBytes m mod j c p).1 pL
        (readCoefVme2 fir charSigned doubleBytes m mod j c p).2 d := by
  simp only [checkFiltResetId, working, afterFilter, ne_eq, Nat.add_eq_zero_iff, one_ne_zero,
    and_false, not_false_eq_true, if_true, Nat.add_sub_cancel]
  split
  · rename_i hzero
    split
    · simp [hzero]
    · simp [hzero]
  · rfl

/-- The first call of a filter. -/
theorem check_head (hne : (reloadHead fir charSigned m mod j p).1 ≠ 0) (bank : ℤ) :
    checkFiltResetId fir charSigned doubleBytes (working mod j 0 pL m d) bank pL totMod p =
      working mod j (reloadHead fir charSigned m mod j p).1 pL
        (reloadHead fir charSigned m mod j p).2 d := by
  rw [check_working, readCoefVme2, if_pos rfl, if_neg hne]

theorem check_last (bank : ℤ) : checkFiltResetId fir charSigned doubleBytes
    (working mod j (maxUpdateCycle fir) pL m d) bank pL totMod p =
      afterFilter mod j pL (reloadFilter fir m mod j p) d := by
  have hmax : maxUpdateCycle fir ≠ 0 := Nat.succ_ne_zero _
  rw [check_working, readCoefVme2, if_neg hmax, if_neg (lt_irrefl _), if_pos rfl, if_pos rfl]

/-- The cycles of a filter that copy sections. -/
def sectionCycles (fir : Bool) (p : VmeCoef K) (mod j : ℕ) : ℕ :=
  min ((p.vmeCoeffs mod).filtSections j) (maxUpdateCycle fir - 1)

variable (pL totMod d) in
/-- The cycles from `c` on that copy sections. -/
theorem Copying.drives (hI : Copying fir charSigned doubleBytes p mod j I) (r : ℕ) :
    ∀ (c : ℕ) (m : ReloadMem K), 0 < c → c + r = sectionCycles fir p mod j →
      I m (copiedBefore c) → ∃ m', I m' (sectionCycles fir p mod j * 4 + 1) ∧
        Drives fir charSigned doubleBytes pL totMod p (r + 1) (working mod j c pL m d)
          (working mod j (maxUpdateCycle fir) pL m' d) := by
  have hmax : 0 < maxUpdateCycle fir := Nat.succ_pos _
  have hgo : ∀ c m, 0 < c → c ≤ sectionCycles fir p mod j → readCoefVme2 fir charSigned doubleBytes
      m mod j c p = reloadSection fir charSigned doubleBytes m mod j c p := by
    intro c m hc hle
    unfold sectionCycles at hle
    rw [readCoefVme2, if_neg (by omega), if_pos (by omega)]
  induction r with
  | zero =>
    intro c m hc hlast h
    obtain ⟨hnext, h⟩ := hI.section h hc
    refine ⟨(reloadSection fir charSigned doubleBytes m mod j c p).2, ?_,
      Drives.cons (Nat.succ_ne_zero mod) ?_ Drives.refl⟩
    · have hq : copiedBefore (c + 1) = sectionCycles fir p mod j * 4 + 1 := by
        rw [copiedBefore, if_neg (by omega)]
        omega
      exact hq ▸ h
    · intro bank
      have hend : (reloadSection fir charSigned doubleBytes m mod j c p).1 =
          maxUpdateCycle fir := by
        rw [hnext]
        unfold sectionCycles at hlast
        split
        · omega
        · rfl
      rw [check_working, hgo c m hc (by omega), hend, if_neg (by omega)]
  | succ r ih =>
    intro c m hc hlast h
    obtain ⟨hnext, h⟩ := hI.section h hc
    have hmore : (p.vmeCoeffs mod).filtSections j > c := by
      unfold sectionCycles at hlast
      omega
    rw [if_pos hmore] at hnext
    obtain ⟨m', h', hdrives⟩ := ih (c + 1) _ (by omega) (by omega) h
    refine ⟨m', h', Drives.cons (Nat.succ_ne_zero mod) ?_ hdrives⟩
    intro bank
    rw [check_working, hgo c m hc (by omega), hnext, if_neg (by omega)]

variable (charSigned doubleBytes pL totMod) in
theorem drives_filter (hok : FilterOk fir (p.vmeCoeffs mod) j) (hj : j < filters)
    (m : ReloadMem K) (d : FiltMod) :
    ∃ m', Loaded fir charSigned doubleBytes p mod j m m' ∧
      Drives fir charSigned doubleBytes pL totMod p (filterCalls p mod j)
        (working mod j 0 pL m d) (afterFilter mod j pL m' d) := by
  by_cases hn : (p.vmeCoeffs mod).filtSections j = 0
  · obtain ⟨hnext, habsent, hloaded⟩ := loaded_absent charSigned doubleBytes m hok hn
    refine ⟨_, hloaded, ?_⟩
    rw [filterCalls, hn]
    refine Drives.cons (Nat.succ_ne_zero mod) (check_head (by rw [hnext]; exact Nat.succ_ne_zero _))
      (Drives.cons (Nat.succ_ne_zero mod) ?_ Drives.refl)
    intro bank
    rw [hnext, check_last, reloadFilter, if_pos habsent]
  · have hcycles : sectionCycles fir p mod j = (p.vmeCoeffs mod).filtSections j := by
      have hso : maxSoSections = 10 := rfl
      have hfirSo : maxFirSoSections = 128 := rfl
      unfold sectionCycles maxUpdateCycle
      rcases hok with h | h
      · split
        all_goals omega
      · rw [if_pos h.1]
        omega
    obtain ⟨hnext, hstaged⟩ := staged_head charSigned doubleBytes m hok
      (Nat.pos_of_ne_zero hn)
    obtain ⟨m', hstaged', hdrives⟩ := hok.copying.drives pL totMod d
      ((p.vmeCoeffs mod).filtSections j - 1) 1 _ Nat.one_pos (by omega) hstaged
    rw [hcycles] at hstaged'
    refine ⟨reloadFilter fir m' mod j p, hstaged'.loaded hok hj hn, ?_⟩
    have hend := hdrives.trans (Drives.cons (Nat.succ_ne_zero mod) check_last Drives.refl)
    have hcount : filterCalls p mod j =
        (p.vmeCoeffs mod).filtSections j - 1 + 1 + (0 + 1) + 1 := by
      unfold filterCalls
      omega
    rw [hcount]
    refine Drives.cons (Nat.succ_ne_zero mod) (fun bank => ?_) hend
    rw [check_head (by rw [hnext]; exact one_ne_zero), hnext]

variable (charSigned doubleBytes pL totMod) in
theorem drives_filters (hok : ∀ j < filters, FilterOk fir (p.vmeCoeffs mod) j)
    (m : ReloadMem K) (d : FiltMod) {n : ℕ} (hn : n < filters) :
    ∃ m', Reloaded fir charSigned doubleBytes p mod m m' n ∧
      Drives fir charSigned doubleBytes pL totMod p (filtersCalls p mod n)
        (working mod 0 0 pL m d) (working mod n 0 pL m' d) := by
  induction n with
  | zero => exact ⟨m, reloaded_zero, Drives.refl⟩
  | succ n ih =>
    obtain ⟨m', hreloaded, hdrives⟩ := ih (by omega)
    obtain ⟨m'', hloaded, hfilter⟩ := drives_filter charSigned doubleBytes pL totMod
      (hok n (by omega)) (by omega) m' d
    refine ⟨m'', hreloaded.next hloaded, ?_⟩
    rw [afterFilter, if_neg (by omega)] at hfilter
    rw [filtersCalls_succ]
    exact hdrives.trans hfilter

def reloadDone (mod pL : ℕ) (m : ReloadMem K) (d : FiltMod) : ResetState K where
  fmResetCoeff := 0
  fmResetCounter := 0
  fmSubCounter := 0
  fmResetDsp := pL
  mem := m
  dspVme := { d with coefLoadError := mod + 1 }

variable (charSigned doubleBytes pL totMod) in
theorem drives_module (hok : ∀ j < filters, FilterOk fir (p.vmeCoeffs mod) j)
    (m : ReloadMem K) (d : FiltMod) :
    ∃ m', Reloaded fir charSigned doubleBytes p mod m m' filters ∧
      Drives fir charSigned doubleBytes pL totMod p (filtersCalls p mod filters)
        (working mod 0 0 pL m d) (reloadDone mod pL m' d) := by
  obtain ⟨m', hreloaded, hdrives⟩ := drives_filters charSigned doubleBytes pL totMod hok m d
    (n := 9) (by decide)
  obtain ⟨m'', hloaded, hfilter⟩ := drives_filter charSigned doubleBytes pL totMod
    (hok 9 (by decide)) (by decide) m' d
  refine ⟨m'', hreloaded.next hloaded, ?_⟩
  rw [afterFilter, if_pos (by decide)] at hfilter
  have hcalls : filtersCalls p mod filters = filtersCalls p mod 9 + filterCalls p mod 9 :=
    filtersCalls_succ 9
  rw [hcalls]
  exact hdrives.trans hfilter

end Reload

end AdvLigoRts.Drv
