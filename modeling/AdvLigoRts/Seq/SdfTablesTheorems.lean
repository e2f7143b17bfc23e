import AdvLigoRts.Lib.Machine
import AdvLigoRts.Seq.SdfRead
import AdvLigoRts.Seq.SdfTables

/-!
# Filters in step with their switch channels

A filter is in step if it is initialised exactly when both of its switch channels are, and then has
the request that their set points make, and the same monitoring as each of them.
-/

namespace AdvLigoRts.Seq

open PvLib

variable {K : Type}

/-- A filter and its two switch channels. -/
structure InStep (fp : Doubles K) (f : FilterTable) (a b : CdsCdTable K) : Prop where
  init : f.init = true ↔ a.initialized = true ∧ b.initialized = true
  swreq : f.init = true → f.swreq = swRequest fp (a.data.asChval fp) (b.data.asChval fp)
  maskA : f.init = true → f.mask &&& allSwstatBits = a.mask &&& allSwstatBits
  maskB : f.init = true → f.mask &&& allSwstatBits = b.mask &&& allSwstatBits

namespace SdfState

/-- A channel is a switch channel of a filter. -/
def SwitchOf (s : SdfState K) (i c : ℕ) : Prop :=
  c = (s.filterTable i).sw.1 ∨ c = (s.filterTable i).sw.2

/-- The registered filter `i` is in step. -/
def FilterInStep (fp : Doubles K) (s : SdfState K) (i : ℕ) : Prop :=
  InStep fp (s.filterTable i) (s.cdTable (s.filterTable i).sw.1)
    (s.cdTable (s.filterTable i).sw.2)

/-- The channels of a filter are initialised. -/
def BothInitialized (s : SdfState K) (i : ℕ) : Prop :=
  ∀ c, s.SwitchOf i c → (s.cdTable c).initialized = true

/-- What holds of a filter before `newfilterstats`. -/
def Pending (fp : Doubles K) (s : SdfState K) (i : ℕ) : Prop :=
  if (s.filterTable i).newSet = true then s.BothInitialized i else s.FilterInStep fp i

/-- The switch channels of each filter are in the table, their names lead back to the filter, and
`readConfig` does not take them for alarms. -/
structure Paired (s : SdfState K) : Prop where
  size : s.chNum ≤ sdfMaxTsize
  switch : ∀ c < s.chNum, (s.cdTable c).filterswitch = switchNumber (s.cdTable c).chname
  inTable : ∀ i < s.fmNum, ∀ c, s.SwitchOf i c → c < s.chNum
  leads : ∀ i < s.fmNum, ∀ c, s.SwitchOf i c → filterOf s (s.cdTable c).chname = some i
  noAlarm : ∀ i < s.fmNum, ∀ c, s.SwitchOf i c → isAlarmChannel (s.cdTable c).chname = false

/-- The state between operations: every filter is in step and none is marked. -/
structure FiltersInStep (fp : Doubles K) (s : SdfState K) : Prop where
  inStep : ∀ i < s.fmNum, s.FilterInStep fp i
  unmarked : ∀ i < s.fmNum, (s.filterTable i).newSet = false

end SdfState

/-- What no operation changes. -/
structure SameNames (s t : SdfState K) : Prop where
  chNum : t.chNum = s.chNum
  fmNum : t.fmNum = s.fmNum
  chname : ∀ c, (t.cdTable c).chname = (s.cdTable c).chname
  filterswitch : ∀ c, (t.cdTable c).filterswitch = (s.cdTable c).filterswitch
  fname : ∀ i, (t.filterTable i).fname = (s.filterTable i).fname
  sw : ∀ i, (t.filterTable i).sw = (s.filterTable i).sw

namespace SameNames

variable {s t u : SdfState K}

theorem refl (s : SdfState K) : SameNames s s :=
  ⟨rfl, rfl, fun _ => rfl, fun _ => rfl, fun _ => rfl, fun _ => rfl⟩

theorem trans (h : SameNames s t) (h' : SameNames t u) : SameNames s u where
  chNum := h'.chNum.trans h.chNum
  fmNum := h'.fmNum.trans h.fmNum
  chname c := (h'.chname c).trans (h.chname c)
  filterswitch c := (h'.filterswitch c).trans (h.filterswitch c)
  fname i := (h'.fname i).trans (h.fname i)
  sw i := (h'.sw i).trans (h.sw i)

theorem switchOf (h : SameNames s t) {i c : ℕ} : t.SwitchOf i c ↔ s.SwitchOf i c := by
  unfold SdfState.SwitchOf
  rw [h.sw]

theorem filterOf (h : SameNames s t) (name : List Char) :
    Seq.filterOf t name = Seq.filterOf s name := filterOf_congr h.fmNum h.fname name

theorem paired (h : SameNames s t) (hs : s.Paired) : t.Paired := by
  constructor
  · rw [h.chNum]
    exact hs.size
  · intro c hc
    rw [h.chNum] at hc
    rw [h.filterswitch, h.chname]
    exact hs.switch c hc
  · rw [h.fmNum, h.chNum]
    exact fun i hi c hc => hs.inTable i hi c (h.switchOf.mp hc)
  · rw [h.fmNum]
    intro i hi c hc
    rw [h.filterOf, h.chname]
    exact hs.leads i hi c (h.switchOf.mp hc)
  · rw [h.fmNum]
    intro i hi c hc
    rw [h.chname]
    exact hs.noAlarm i hi c (h.switchOf.mp hc)

end SameNames

namespace SdfState

variable {fp : Doubles K} {s t : SdfState K} {i j c : ℕ}

/-- No channel is a switch channel of two filters. -/
theorem Paired.apart (h : s.Paired) (hi : i < s.fmNum) (hj : j < s.fmNum) (hic : s.SwitchOf i c)
    (hjc : s.SwitchOf j c) : i = j :=
  Option.some.inj ((h.leads i hi c hic).symm.trans (h.leads j hj c hjc))

/-- A filter stays as it is if its entry and its channels do. -/
theorem FilterInStep.congr (hf : t.filterTable i = s.filterTable i)
    (hcd : ∀ c, s.SwitchOf i c → t.cdTable c = s.cdTable c) :
    t.FilterInStep fp i ↔ s.FilterInStep fp i := by
  unfold FilterInStep
  rw [hf, hcd _ (.inl rfl), hcd _ (.inr rfl)]

theorem BothInitialized.of_initialized (hsw : (t.filterTable i).sw = (s.filterTable i).sw)
    (hcd : ∀ c, s.SwitchOf i c → (s.cdTable c).initialized = true →
      (t.cdTable c).initialized = true) (h : s.BothInitialized i) : t.BothInitialized i := by
  intro c hc
  unfold SwitchOf at hc
  rw [hsw] at hc
  exact hcd c hc (h c hc)

theorem Pending.congr (hf : t.filterTable i = s.filterTable i)
    (hcd : ∀ c, s.SwitchOf i c → t.cdTable c = s.cdTable c) (h : s.Pending fp i) :
    t.Pending fp i := by
  unfold Pending at h ⊢
  rw [hf]
  split
  · rename_i hnew
    rw [if_pos hnew] at h
    refine h.of_initialized (by rw [hf]) fun c hc hinit => ?_
    rw [hcd c hc]
    exact hinit
  · rename_i hnew
    rw [if_neg hnew] at h
    exact (FilterInStep.congr hf hcd).mpr h

theorem FiltersInStep.pending (h : s.FiltersInStep fp) (hi : i < s.fmNum) : s.Pending fp i := by
  unfold Pending
  rw [if_neg (by rw [h.unmarked i hi]; exact Bool.false_ne_true)]
  exact h.inStep i hi

theorem FilterInStep.bothInitialized (h : s.FilterInStep fp i)
    (hinit : (s.filterTable i).init = true) : s.BothInitialized i := by
  obtain ⟨ha, hb⟩ := h.init.mp hinit
  rintro c (rfl | rfl)
  · exact ha
  · exact hb

end SdfState

/-! ## `newfilterstats` -/

section Newfilterstats

variable {fp : Doubles K} {s : SdfState K}

theorem sameNames_newfilterstat (s : SdfState K) (ii : ℕ) :
    SameNames s (newfilterstat fp s ii) := by
  have hfilter : ∀ i, ((newfilterstat fp s ii).filterTable i).fname = (s.filterTable i).fname ∧
      ((newfilterstat fp s ii).filterTable i).sw = (s.filterTable i).sw := by
    intro i
    by_cases hi : i = ii
    · subst hi
      unfold newfilterstat
      dsimp only
      split
      · simp [SdfState.setFilter]
      · exact ⟨rfl, rfl⟩
    · rw [newfilterstat_filterTable_of_ne hi]
      exact ⟨rfl, rfl⟩
  refine ⟨?_, ?_, fun c => ?_, fun c => ?_, fun i => (hfilter i).1, fun i => (hfilter i).2⟩
  · unfold newfilterstat
    dsimp only
    split <;> rfl
  · unfold newfilterstat
    dsimp only
    split <;> rfl
  · rw [newfilterstat_cdTable]
  · rw [newfilterstat_cdTable]

theorem newfilterstat_cdTable_of_not {ii c : ℕ} (h : ¬s.SwitchOf ii c) :
    (newfilterstat fp s ii).cdTable c = s.cdTable c := by
  have hmerge : merge (fun c => (s.cdTable c).mask) (s.filterTable ii).sw c = (s.cdTable c).mask :=
    (merge_apply _ _ c).trans (if_neg h)
  rw [newfilterstat_cdTable, hmerge, ite_self]

theorem newfilterstat_self {ii : ℕ} (h : s.Pending fp ii) :
    (newfilterstat fp s ii).FilterInStep fp ii ∧
      ((newfilterstat fp s ii).filterTable ii).newSet = false := by
  unfold SdfState.Pending at h
  by_cases hnew : (s.filterTable ii).newSet = true
  · rw [if_pos hnew] at h
    have hentry : (newfilterstat fp s ii).filterTable ii =
        { s.filterTable ii with
          newSet := false, init := true, mask := switchMask s ii
          swreq := swRequest fp ((s.cdTable (s.filterTable ii).sw.1).data.asChval fp)
            ((s.cdTable (s.filterTable ii).sw.2).data.asChval fp) } := by
      have hdata : ∀ c, ((newfilterstat fp s ii).cdTable c).data = (s.cdTable c).data := fun c => by
        rw [newfilterstat_cdTable]
      rw [← hdata, ← hdata]
      unfold newfilterstat switchMask
      dsimp only
      rw [if_pos hnew]
      simp [SdfState.setFilter]
    have hcd : ∀ c, s.SwitchOf ii c → (newfilterstat fp s ii).cdTable c =
        { s.cdTable c with mask := switchMask s ii } := by
      intro c hc
      have hmerge : merge (fun c => (s.cdTable c).mask) (s.filterTable ii).sw c =
          switchMask s ii := (merge_apply _ _ c).trans (if_pos hc)
      rw [newfilterstat_cdTable, if_pos hnew, hmerge]
    unfold SdfState.FilterInStep
    rw [hentry, hcd _ (.inl rfl), hcd _ (.inr rfl)]
    exact ⟨⟨⟨fun _ => ⟨h _ (.inl rfl), h _ (.inr rfl)⟩, fun _ => rfl⟩, fun _ => rfl, fun _ => rfl,
      fun _ => rfl⟩, rfl⟩
  · rw [if_neg hnew] at h
    have hsame : newfilterstat fp s ii = s := by
      unfold newfilterstat
      exact if_neg hnew
    rw [hsame]
    exact ⟨h, Bool.eq_false_iff.mpr hnew⟩

/-- After the first filters: they are in step, and the others are as they were. -/
theorem newfilterstats_loop (hs : s.Paired) (hpending : ∀ i < s.fmNum, s.Pending fp i) {n : ℕ}
    (hn : n ≤ s.fmNum) :
    SameNames s ((List.range n).foldl (newfilterstat fp) s) ∧
      (∀ i < n, ((List.range n).foldl (newfilterstat fp) s).FilterInStep fp i ∧
        (((List.range n).foldl (newfilterstat fp) s).filterTable i).newSet = false) ∧
      ∀ i, n ≤ i → i < s.fmNum → ((List.range n).foldl (newfilterstat fp) s).Pending fp i := by
  induction n with
  | zero => exact ⟨.refl s, fun i hi => absurd hi (Nat.not_lt_zero i), fun i _ => hpending i⟩
  | succ n ih =>
    obtain ⟨hnames, hdone, hrest⟩ := ih (Nat.le_of_succ_le hn)
    rw [List.range_succ, List.foldl_append, List.foldl_cons, List.foldl_nil]
    generalize (List.range n).foldl (newfilterstat fp) s = t at hnames hdone hrest ⊢
    have hpaired := hnames.paired hs
    have hother : ∀ i < s.fmNum, i ≠ n → ∀ c, t.SwitchOf i c →
        (newfilterstat fp t n).cdTable c = t.cdTable c := by
      intro i hi hne c hc
      refine newfilterstat_cdTable_of_not fun hcn => hne ?_
      rw [← hnames.fmNum] at hi hn
      exact hpaired.apart hi hn hc hcn
    refine ⟨hnames.trans (sameNames_newfilterstat t n), fun i hi => ?_, fun i hi hlt => ?_⟩
    · rcases Nat.lt_succ_iff_lt_or_eq.mp hi with hlt | rfl
      · have hf : (newfilterstat fp t n).filterTable i = t.filterTable i :=
          newfilterstat_filterTable_of_ne (ne_of_lt hlt)
        obtain ⟨hstep, hunmarked⟩ := hdone i hlt
        rw [SdfState.FilterInStep.congr hf (hother i (hlt.trans hn) (ne_of_lt hlt)), hf]
        exact ⟨hstep, hunmarked⟩
      · exact newfilterstat_self (hrest i le_rfl hn)
    · have hne : i ≠ n := ne_of_gt hi
      exact (hrest i (Nat.le_of_succ_le hi) hlt).congr (newfilterstat_filterTable_of_ne hne)
        (hother i hlt hne)

theorem sameNames_newfilterstats (hs : s.Paired) (hpending : ∀ i < s.fmNum, s.Pending fp i) :
    SameNames s (newfilterstats fp s) := (newfilterstats_loop hs hpending le_rfl).1

theorem newfilterstats_inStep (hs : s.Paired) (hpending : ∀ i < s.fmNum, s.Pending fp i) :
    (newfilterstats fp s).FiltersInStep fp := by
  obtain ⟨hnames, hdone, -⟩ := newfilterstats_loop hs hpending le_rfl
  have hnum : (newfilterstats fp s).fmNum = s.fmNum := hnames.fmNum
  exact ⟨fun i hi => (hdone i (hnum ▸ hi)).1, fun i hi => (hdone i (hnum ▸ hi)).2⟩

end Newfilterstats

end AdvLigoRts.Seq
