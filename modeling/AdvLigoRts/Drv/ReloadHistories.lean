import AdvLigoRts.Drv.StartupTheorems

/-!
# The histories of a module that is reloaded

`readCoefVme2` counts in `changed` the coefficients of a filter that differ from the ones in local
memory, and clears the history of the filter with its last cycle if there are any.
-/

namespace AdvLigoRts.Drv

section Histories

variable {K : Type} {fir charSigned : Bool} {doubleBytes : K → List (BitVec 8)}
variable {p : VmeCoef K} {mod j q : ℕ} {m0 m m' : ReloadMem K}

/-! ## One filter -/

/-- `readCoefVme2` loads the filter `j`; it switches off the other ones. -/
def HasSections (p : VmeCoef K) (mod j : ℕ) : Prop :=
  ((p.vmeCoeffs mod).filtSections j > 0 ∧ (p.vmeCoeffs mod).filtSections j < 11) ∨
    ((p.vmeCoeffs mod).filtSections j > 10 ∧ (p.vmeCoeffs mod).filterType j > 0)

instance (p : VmeCoef K) (mod j : ℕ) : Decidable (HasSections p mod j) :=
  inferInstanceAs (Decidable (_ ∨ _))

variable [BEq K]

/-- Some coefficient before `q` differs from the one of the row in local memory. -/
def RowDiffers (filtC : Coef K) (p : VmeCoef K) (mod j q : ℕ) : Prop :=
  ∃ k < q, ((filtC.coeffs mod).filtCoeff j k != (p.vmeCoeffs mod).filtCoeff j k) = true

theorem rowDiffers_succ {filtC : Coef K} :
    RowDiffers filtC p mod j (q + 1) ↔ RowDiffers filtC p mod j q ∨
      ((filtC.coeffs mod).filtCoeff j q != (p.vmeCoeffs mod).filtCoeff j q) = true := by
  unfold RowDiffers
  rw [Nat.exists_lt_succ_right]

/-- The first `q` coefficients of the filter `j` have been compared, from the memory `m0`. -/
structure Compared (p : VmeCoef K) (mod j : ℕ) (m0 m : ReloadMem K) (q : ℕ) : Prop where
  filtC : m.filtC = m0.filtC
  fmt : m.fmt = m0.fmt
  filtSections : m.localCoeff.filtSections j = (p.vmeCoeffs mod).filtSections j
  filterType : m.localCoeff.filterType j = (p.vmeCoeffs mod).filterType j
  sType : m.localCoeff.sType j = (p.vmeCoeffs mod).sType j
  ramp : m.localCoeff.ramp j = (p.vmeCoeffs mod).ramp j
  unchanged : ∀ i ≠ j, m.changed i = 0
  changed : (p.vmeCoeffs mod).filterType j = 0 →
    (m.changed j ≠ 0 ↔ RowDiffers m0.filtC p mod j q)

variable (fir charSigned m0) in
theorem compared_head (h : HasSections p mod j) :
    (reloadHead fir charSigned m0 mod j p).1 = 1 ∧
      Compared p mod j m0 (reloadHead fir charSigned m0 mod j p).2 0 := by
  have hcond := h
  unfold HasSections at hcond
  simp only [reloadHead, hcond, if_true]
  refine ⟨trivial, ?_⟩
  constructor
  all_goals simp [RowDiffers]

theorem Compared.next (h : Compared p mod j m0 m q) :
    Compared p mod j m0 (reloadCoeff fir charSigned doubleBytes mod j p m q) (q + 1) := by
  by_cases ht : (p.vmeCoeffs mod).filterType j > 0
  · have hne : (p.vmeCoeffs mod).filterType j ≠ 0 := by omega
    simp only [reloadCoeff, ht, if_true]
    split
    · exact ⟨h.filtC, h.fmt, h.filtSections, h.filterType, h.sType, h.ramp,
        fun i hi => (count_other hi).trans (h.unchanged i hi), fun h0 => absurd h0 hne⟩
    · exact ⟨h.filtC, h.fmt, h.filtSections, h.filterType, h.sType, h.ramp, h.unchanged,
        fun h0 => absurd h0 hne⟩
  · simp only [reloadCoeff, ht, if_false]
    refine ⟨h.filtC, h.fmt, h.filtSections, h.filterType, h.sType, h.ramp,
      fun i hi => (count_other hi).trans (h.unchanged i hi), fun h0 => ?_⟩
    apply count_ne_zero.trans
    rw [h.changed h0, rowDiffers_succ, h.filtC]

variable (fir charSigned doubleBytes) in
theorem compared_copying :
    Copying fir charSigned doubleBytes p mod j (Compared p mod j m0) where
  filtSections h := h.filtSections
  next h := h.next

/-- The reload of the filter `j` clears its history. -/
def ClearsHist (filtC : Coef K) (p : VmeCoef K) (mod j : ℕ) : Prop :=
  (p.vmeCoeffs mod).filterType j = 0 ∧ HasSections p mod j ∧
    RowDiffers filtC p mod j ((p.vmeCoeffs mod).filtSections j * 4 + 1)

variable [Zero K]

/-- What the reload of the filter `j` makes of the module, but for coefficients. -/
structure Renewed (p : VmeCoef K) (mod j : ℕ) (m0 m : ReloadMem K) : Prop where
  filtSections : ∀ i, (m.filtC.coeffs mod).filtSections i = if i = j then
      if HasSections p mod j then (p.vmeCoeffs mod).filtSections j else 0
    else (m0.filtC.coeffs mod).filtSections i
  sType : ∀ i, (m.filtC.coeffs mod).sType i = if i = j ∧ HasSections p mod j then
      (p.vmeCoeffs mod).sType j
    else (m0.filtC.coeffs mod).sType i
  rmpcmp : ∀ i, (m.fmt.inputs mod).rmpcmp i = if i = j ∧ HasSections p mod j then
      (p.vmeCoeffs mod).ramp j
    else (m0.fmt.inputs mod).rmpcmp i
  opSwitchP : (m.fmt.inputs mod).opSwitchP = if HasSections p mod j then
    (m0.fmt.inputs mod).opSwitchP else (m0.fmt.inputs mod).opSwitchP &&& ~~~pow2Out j
  rows : ∀ i ≠ j, (m.filtC.coeffs mod).filtCoeff i = (m0.filtC.coeffs mod).filtCoeff i
  cleared : ClearsHist m0.filtC p mod j → ∀ k < maxHistry, (m.filtC.coeffs mod).filtHist j k = 0
  kept : ∀ i k, ¬(i = j ∧ ClearsHist m0.filtC p mod j) →
    (m.filtC.coeffs mod).filtHist i k = (m0.filtC.coeffs mod).filtHist i k

variable (fir charSigned m0) in
theorem renewed_off (h : ¬HasSections p mod j) :
    (reloadHead fir charSigned m0 mod j p).1 = maxUpdateCycle fir ∧
      (reloadHead fir charSigned m0 mod j p).2.localCoeff.filtSections j = 0 ∧
      Renewed p mod j m0 (reloadHead fir charSigned m0 mod j p).2 := by
  have hcond := h
  unfold HasSections at hcond
  simp only [reloadHead, hcond, if_false]
  refine ⟨trivial, by simp, ?_⟩
  constructor
  case filtSections => exact fun i => by simp [h, Function.update_apply]
  all_goals simp [h, ClearsHist]

/-- The cycle in which the static copies become the filter. -/
theorem Compared.renewed (h : Compared p mod j m0 m q) (hs : HasSections p mod j)
    (hj : j < filters)
    (hq : (p.vmeCoeffs mod).filterType j = 0 → q = (p.vmeCoeffs mod).filtSections j * 4 + 1) :
    Renewed p mod j m0 (reloadFilter fir m mod j p) := by
  have hn : (p.vmeCoeffs mod).filtSections j ≠ 0 := by
    unfold HasSections at hs
    omega
  by_cases ht : (p.vmeCoeffs mod).filterType j > 0
  · have htype : (p.vmeCoeffs mod).filterType j ≠ 0 := by omega
    have hkeep : (clearHistories fir m mod ((p.vmeCoeffs mod).filterType j)).coeffs =
        m.filtC.coeffs := by
      unfold clearHistories
      rw [if_pos htype]
      split
      · rfl
      · rfl
    constructor
    all_goals simp only [reloadFilter, h.filtSections, hn, ht, if_true, if_false, hkeep, h.filtC,
      h.fmt, h.filterType, h.sType, h.ramp, hs, and_true, Function.update_self]
    case filtSections | sType | rmpcmp => exact fun i => Function.update_apply _ _ _ _
    case rows => exact fun i _ => trivial
    case cleared => exact fun hc => absurd hc.1 htype
    case kept => exact fun i k _ => trivial
  · have ht0 := Nat.eq_zero_of_not_pos ht
    have hchanged : ∀ i, m.changed i ≠ 0 ↔ i = j ∧ ClearsHist m0.filtC p mod j := by
      intro i
      by_cases hi : i = j
      · subst hi
        rw [h.changed ht0, hq ht0]
        simp [ClearsHist, ht0, hs]
      · simp [hi, h.unchanged i hi]
    constructor
    all_goals simp only [reloadFilter, clearHistories, h.filtSections, hn, ht0, if_true, if_false,
      h.filtC, h.fmt, h.filterType, h.sType, h.ramp, hs, and_true, ne_eq, not_true_eq_false,
      lt_irrefl, Function.update_self]
    case filtSections | sType | rmpcmp => exact fun i => Function.update_apply _ _ _ _
    case rows => exact fun i hi => Function.update_of_ne hi _ _
    case cleared =>
      intro hc k hk
      rw [if_pos ⟨hj, (hchanged j).mpr ⟨rfl, hc⟩, hk⟩]
    case kept =>
      intro i k hnot
      rw [if_neg fun hik => hnot ((hchanged i).mp hik.2.1)]

/-! ## All filters -/

variable {pL totMod : ℕ} {d : FiltMod}

variable (fir charSigned doubleBytes p mod pL totMod) in
/-- One filter, whatever is in shared memory. -/
theorem drives_renewed (hj : j < filters) (m : ReloadMem K) (d : FiltMod) :
    ∃ n m', Renewed p mod j m m' ∧ Drives fir charSigned doubleBytes pL totMod p n
      (working mod j 0 pL m d) (afterFilter mod j pL m' d) := by
  by_cases hs : HasSections p mod j
  · have hcycles : 0 < sectionCycles fir p mod j := by
      unfold sectionCycles maxUpdateCycle maxFirSoSections firTaps maxSoSections
      unfold HasSections at hs
      split
      all_goals omega
    obtain ⟨hnext, hcompared⟩ := compared_head fir charSigned m hs
    obtain ⟨m', hcompared', hdrives⟩ := (compared_copying fir charSigned doubleBytes).drives
      pL totMod d (sectionCycles fir p mod j - 1) 1 _ Nat.one_pos (by omega) hcompared
    refine ⟨_, reloadFilter fir m' mod j p, hcompared'.renewed hs hj fun ht => ?_,
      Drives.cons (Nat.succ_ne_zero mod) (fun bank => ?_)
        (hdrives.trans (Drives.cons (Nat.succ_ne_zero mod) check_last Drives.refl))⟩
    · have hall : sectionCycles fir p mod j = (p.vmeCoeffs mod).filtSections j := by
        unfold sectionCycles maxUpdateCycle maxFirSoSections firTaps maxSoSections
        unfold HasSections at hs
        split
        all_goals omega
      rw [hall]
    · rw [check_head (by rw [hnext]; exact one_ne_zero), hnext]
  · obtain ⟨hnext, habsent, hrenewed⟩ := renewed_off fir charSigned m hs
    refine ⟨_, _, hrenewed, Drives.cons (Nat.succ_ne_zero mod)
      (check_head (by rw [hnext]; exact Nat.succ_ne_zero _))
      (Drives.cons (Nat.succ_ne_zero mod) ?_ Drives.refl)⟩
    intro bank
    rw [hnext, check_last, reloadFilter, if_pos habsent]

/-- There is one way to the end of a reload. -/
theorem Drives.unique {n n' : ℕ} {s u u' : ResetState K}
    (h : Drives fir charSigned doubleBytes pL totMod p n s u)
    (h' : Drives fir charSigned doubleBytes pL totMod p n' s u') (hu : u.fmResetCoeff = 0)
    (hu' : u'.fmResetCoeff = 0) : u = u' := by
  have hle : ∀ {n n' : ℕ} {u u' : ResetState K},
      Drives fir charSigned doubleBytes pL totMod p n s u →
      Drives fir charSigned doubleBytes pL totMod p n' s u' → u.fmResetCoeff = 0 → n' ≤ n := by
    intro n n' u u' h h' hu
    by_contra hlt
    have hgoing := (h' (List.replicate n' 0) List.length_replicate).2 n (by omega)
    rw [List.take_replicate, min_eq_left (by omega),
      (h (List.replicate n 0) List.length_replicate).1] at hgoing
    exact hgoing hu
  obtain rfl : n = n' := le_antisymm (hle h' h hu') (hle h h' hu)
  exact (h (List.replicate n 0) List.length_replicate).1.symm.trans
    (h' (List.replicate n 0) List.length_replicate).1

/-- The readbacks of two filters are different bits. -/
theorem pow2Out_apart {i j : ℕ} (hij : i ≠ j) (hi : i < filters) (x : UInt32) :
    x &&& ~~~pow2Out j &&& pow2Out i = x &&& pow2Out i := by
  have hbits : ~~~pow2Out j &&& pow2Out i = pow2Out i := by
    by_cases hj : j < filters
    · have hall : ∀ i < filters, ∀ j < filters, i ≠ j →
          ~~~pow2Out j &&& pow2Out i = pow2Out i := by decide
      exact hall i hi j hj hij
    · have hzero : pow2Out j = 0 := by
        rw [pow2Out, List.getD_eq_getElem?_getD,
          List.getElem?_eq_none (by simpa [filters] using hj)]
        rfl
      rw [hzero]
      simp
  rw [UInt32.and_assoc, hbits]

/-- The filters before `j` have been renewed, from the memory `m0`. -/
structure AllRenewed (p : VmeCoef K) (mod : ℕ) (m0 m : ReloadMem K) (j : ℕ) : Prop where
  rows : ∀ i, j ≤ i → (m.filtC.coeffs mod).filtCoeff i = (m0.filtC.coeffs mod).filtCoeff i
  cleared : ∀ i < j, ClearsHist m0.filtC p mod i →
    ∀ k < maxHistry, (m.filtC.coeffs mod).filtHist i k = 0
  kept : ∀ i k, ¬(i < j ∧ ClearsHist m0.filtC p mod i) →
    (m.filtC.coeffs mod).filtHist i k = (m0.filtC.coeffs mod).filtHist i k
  filtSections : ∀ i < j, HasSections p mod i →
    (m.filtC.coeffs mod).filtSections i = (p.vmeCoeffs mod).filtSections i
  sType : ∀ i < j, HasSections p mod i →
    (m.filtC.coeffs mod).sType i = (p.vmeCoeffs mod).sType i
  rmpcmp : ∀ i < j, HasSections p mod i →
    (m.fmt.inputs mod).rmpcmp i = (p.vmeCoeffs mod).ramp i
  opSwitchP : ∀ i < filters, HasSections p mod i →
    (m.fmt.inputs mod).opSwitchP &&& pow2Out i = (m0.fmt.inputs mod).opSwitchP &&& pow2Out i

theorem allRenewed_zero : AllRenewed p mod m0 m0 0 where
  rows _ _ := rfl
  cleared i hi := by omega
  kept _ _ _ := rfl
  filtSections i hi := by omega
  sType i hi := by omega
  rmpcmp i hi := by omega
  opSwitchP _ _ _ := rfl

/-- The comparison of a filter that is still to come is with the row there was at the start. -/
theorem AllRenewed.clearsHist_iff (h : AllRenewed p mod m0 m j) :
    ClearsHist m.filtC p mod j ↔ ClearsHist m0.filtC p mod j := by
  unfold ClearsHist RowDiffers
  rw [h.rows j le_rfl]

theorem AllRenewed.next (h : AllRenewed p mod m0 m j) (hr : Renewed p mod j m m') :
    AllRenewed p mod m0 m' (j + 1) where
  rows i hi := by
    rw [hr.rows i (by omega), h.rows i (by omega)]
  cleared i hi hc k hk := by
    by_cases hij : i = j
    · subst hij
      exact hr.cleared (h.clearsHist_iff.mpr hc) k hk
    · rw [hr.kept i k fun hik => hij hik.1]
      exact h.cleared i (by omega) hc k hk
  kept i k hnot := by
    rw [hr.kept i k, h.kept i k fun hik => hnot ⟨by omega, hik.2⟩]
    rintro ⟨rfl, hc⟩
    exact hnot ⟨by omega, h.clearsHist_iff.mp hc⟩
  filtSections i hi hs := by
    have hold := h.filtSections i
    have hnew := hr.filtSections i
    grind
  sType i hi hs := by
    have hold := h.sType i
    have hnew := hr.sType i
    grind
  rmpcmp i hi hs := by
    have hold := h.rmpcmp i
    have hnew := hr.rmpcmp i
    grind
  opSwitchP i hi hs := by
    rw [← h.opSwitchP i hi hs, hr.opSwitchP]
    split
    · rfl
    · rename_i hoff
      have hij : i ≠ j := fun hij => hoff (hij ▸ hs)
      exact pow2Out_apart hij hi _

variable (fir charSigned doubleBytes p mod pL totMod) in
theorem drives_allRenewed (m : ReloadMem K) (d : FiltMod) {j : ℕ} (hj : j < filters) :
    ∃ n m', AllRenewed p mod m m' j ∧ Drives fir charSigned doubleBytes pL totMod p n
      (working mod 0 0 pL m d) (working mod j 0 pL m' d) := by
  induction j with
  | zero => exact ⟨0, m, allRenewed_zero, Drives.refl⟩
  | succ j ih =>
    obtain ⟨n, m', hall, hdrives⟩ := ih (by omega)
    obtain ⟨n', m'', hrenewed, hfilter⟩ := drives_renewed fir charSigned doubleBytes p mod pL
      totMod (j := j) (by omega) m' d
    rw [afterFilter, if_neg (by omega)] at hfilter
    exact ⟨n + n', m'', hall.next hrenewed, hdrives.trans hfilter⟩

variable (fir charSigned doubleBytes p mod pL totMod) in
/-- The whole module, whatever is in shared memory. -/
theorem drives_renewal (m : ReloadMem K) (d : FiltMod) :
    ∃ n m', AllRenewed p mod m m' filters ∧ Drives fir charSigned doubleBytes pL totMod p n
      (working mod 0 0 pL m d) (reloadDone mod pL m' d) := by
  obtain ⟨n, m', hall, hdrives⟩ := drives_allRenewed fir charSigned doubleBytes p mod pL totMod m d
    (show 9 < filters by decide)
  obtain ⟨n', m'', hrenewed, hfilter⟩ := drives_renewed fir charSigned doubleBytes p mod pL totMod
    (show 9 < filters by decide) m' d
  rw [afterFilter, if_pos (by decide)] at hfilter
  exact ⟨n + n', m'', hall.next hrenewed, hdrives.trans hfilter⟩

/-! ## Histories and changes -/

/-- The coefficients the front end runs the filter `j` with. -/
def runningCoeff (fir : Bool) (filtC : Coef K) (mod j : ℕ) : ℕ → K :=
  slotCoeff filtC mod j (if fir then (filtC.coeffs mod).filterType j else 0)

/-- The filter `j` in shared memory differs from the one the front end runs. -/
def FilterChanged (fir : Bool) (filtC : Coef K) (p : VmeCoef K) (mod j : ℕ) : Prop :=
  (filtC.coeffs mod).filtSections j ≠ (p.vmeCoeffs mod).filtSections j ∨
    ∃ k < (p.vmeCoeffs mod).filtSections j * 4 + 1,
      (runningCoeff fir filtC mod j k != (p.vmeCoeffs mod).filtCoeff j k) = true

def HistoryZero (filtC : Coef K) (mod j : ℕ) : Prop :=
  ∀ k < maxHistry, (filtC.coeffs mod).filtHist j k = 0

/-- The histories of the filters with sections in shared memory are zero behind a reload if the
filter changed, and as they were if it did not. -/
def HistoriesFollow (fir : Bool) (p : VmeCoef K) (mod : ℕ) (filtC filtC' : Coef K) : Prop :=
  ∀ j < filters, 0 < (p.vmeCoeffs mod).filtSections j → (p.vmeCoeffs mod).filterType j = 0 →
    (FilterChanged fir filtC p mod j → HistoryZero filtC' mod j) ∧
    (¬FilterChanged fir filtC p mod j → ∀ k < maxHistry,
      (filtC'.coeffs mod).filtHist j k = (filtC.coeffs mod).filtHist j k)

omit [BEq K] [Zero K] in
theorem hasSections_iir (hn : 0 < (p.vmeCoeffs mod).filtSections j)
    (ht : (p.vmeCoeffs mod).filterType j = 0) :
    HasSections p mod j ↔ (p.vmeCoeffs mod).filtSections j ≤ maxSoSections := by
  unfold HasSections maxSoSections
  omega

theorem AllRenewed.follows_iff (h : AllRenewed p mod m0 m filters) (hj : j < filters)
    (changed : Prop) :
    ((changed → HistoryZero m.filtC mod j) ∧
        (¬changed → ∀ k < maxHistry,
          (m.filtC.coeffs mod).filtHist j k = (m0.filtC.coeffs mod).filtHist j k)) ↔
      (HistoryZero m0.filtC mod j ∨ (changed ↔ ClearsHist m0.filtC p mod j)) := by
  by_cases hc : ClearsHist m0.filtC p mod j
  · have hzero : HistoryZero m.filtC mod j := h.cleared j hj hc
    constructor
    · rintro ⟨-, hsame⟩
      by_cases hch : changed
      · exact Or.inr ⟨fun _ => hc, fun _ => hch⟩
      · exact Or.inl fun k hk => (hsame hch k hk).symm.trans (hzero k hk)
    · rintro (hold | hiff)
      · exact ⟨fun _ => hzero, fun _ k hk => (hzero k hk).trans (hold k hk).symm⟩
      · exact ⟨fun _ => hzero, fun hch => absurd (hiff.mpr hc) hch⟩
  · have hkept : ∀ k, (m.filtC.coeffs mod).filtHist j k = (m0.filtC.coeffs mod).filtHist j k :=
      fun k => h.kept j k fun hik => hc hik.2
    constructor
    · rintro ⟨hzero, -⟩
      by_cases hch : changed
      · exact Or.inl fun k hk => (hkept k).symm.trans (hzero hch k hk)
      · exact Or.inr ⟨fun h => absurd h hch, fun h => absurd h hc⟩
    · rintro (hold | hiff)
      · exact ⟨fun _ k hk => (hkept k).trans (hold k hk), fun _ k _ => hkept k⟩
      · exact ⟨fun hch => absurd (hiff.mp hch) hc, fun _ k _ => hkept k⟩

variable (fir charSigned doubleBytes p mod pL totMod) in
/-- A reload of any module with anything in shared memory, from any local memory: it ends with some
number of calls, whatever modules these are for, and its histories follow the changes if and only
if each filter with sections has a history that is zero already, or is changed exactly if some
coefficient differs from what local memory holds in its row. -/
theorem histories_follow_iff (m : ReloadMem K) (d : FiltMod) :
    ∃ n m', Drives fir charSigned doubleBytes pL totMod p n
        (working mod 0 0 pL m d) (reloadDone mod pL m' d) ∧
      (HistoriesFollow fir p mod m.filtC m'.filtC ↔
        ∀ j < filters, 0 < (p.vmeCoeffs mod).filtSections j →
          (p.vmeCoeffs mod).filterType j = 0 →
          HistoryZero m.filtC mod j ∨ (FilterChanged fir m.filtC p mod j ↔
            (p.vmeCoeffs mod).filtSections j ≤ maxSoSections ∧
              RowDiffers m.filtC p mod j ((p.vmeCoeffs mod).filtSections j * 4 + 1))) := by
  obtain ⟨n, m', hall, hdrives⟩ := drives_renewal fir charSigned doubleBytes p mod pL totMod m d
  refine ⟨n, m', hdrives, ?_⟩
  apply forall_congr'
  intro j
  apply forall_congr'
  intro hj
  apply forall_congr'
  intro hn
  apply forall_congr'
  intro ht
  have hclears : ClearsHist m.filtC p mod j ↔
      (p.vmeCoeffs mod).filtSections j ≤ maxSoSections ∧
        RowDiffers m.filtC p mod j ((p.vmeCoeffs mod).filtSections j * 4 + 1) := by
    rw [ClearsHist, hasSections_iir hn ht]
    exact and_iff_right ht
  rw [hall.follows_iff hj, hclears]

end Histories

/-- A module whose first filter was taken away: its coefficients and its history are still there. -/
def removedFilter : ReloadMem ℤ where
  filtC := { Coef.zero with coeffs := fun _ => { FmOpCoef.zero with
    filtCoeff := fun _ _ => 1
    filtHist := fun _ _ => 7 } }
  fmt := FiltMod.zero
  localCoeff := VmeFmOpCoef.zero
  localFirFiltCoeff := fun _ _ => 0
  changed := fun _ => 0

/-- The filter in shared memory again, with one section. -/
def filterBack : VmeCoef ℤ where
  firFiltCoeff := fun _ _ _ => 0
  vmeCoeffs := fun _ => { (VmeFmOpCoef.zero : VmeFmOpCoef ℤ) with
    filtCoeff := fun _ _ => 1
    filtSections := fun j => if j = 0 then 1 else 0 }

/-- The filter comes back with its old history. -/
theorem filter_back_keeps_history :
    ∃ banks : List ℤ,
      (calls false true (fun _ => []) 0 1 filterBack (working 0 0 0 0 removedFilter FiltMod.zero)
        banks).fmResetCoeff = 0 ∧
      ¬HistoriesFollow false filterBack 0 removedFilter.filtC
        (calls false true (fun _ => []) 0 1 filterBack
          (working 0 0 0 0 removedFilter FiltMod.zero) banks).mem.filtC := by
  refine ⟨List.replicate 21 0, by decide +kernel, fun h => ?_⟩
  obtain ⟨hzero, -⟩ := h 0 (by decide) (by decide) rfl
  have hfirst := hzero (Or.inl (by decide)) 0 (by decide)
  revert hfirst
  decide +kernel

end AdvLigoRts.Drv
