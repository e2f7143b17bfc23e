import AdvLigoRts.Fe.CardLookup
import Mathlib.Algebra.BigOperators.Group.List.Basic

/-!
# Which memory block belongs to which card

The IOP's table and the requests of an application are joined by two loops over four numberings.
`agree_iff` says when they agree: where every index is in range, each request is looked up
correctly, so what is left is the count of the cards. It counts a present `ACS_16DIO` card on one
side only and a `CON_1616DIO` card on the other side only.
-/

namespace AdvLigoRts.Fe

open PvLib

/-- The IOP fills block `i` for its ADC card `i`, and reads the block `dacConfig[ i ]` for its DAC
card `i`. -/
def Agree (T : IopTable) (A : AppCards) (ioMemData : IoMemData) : Prop :=
  ∃ s f, T.send ioMemData = .ok s ∧ rtFeInit A.cards s.ioMemData = .ok f ∧
    (∀ k r, A.adcs[k]? = some r →
      f.hw.adcConfig k = ((T.adcs.idxOf? r).map fun i => (i : ℤ)).getD (-1)) ∧
    (∀ k r, A.dacs[k]? = some r →
      f.hw.dacConfig k = ((T.dacs.idxOf? r).map s.hw.dacConfig).getD 0) ∧
    (f.cardCountErr = true ↔ ∃ r ∈ A.cards, T.Missing r)

/-- Every index is in range: the table has room for all entries and, if a request is looked up, for
the access behind the last of them; at most three cards control the timing; and there are no more
requests than `adcMap` and `dacMap` have entries. -/
def IndicesFit (T : IopTable) (A : AppCards) : Prop :=
  T.cards.length ≤ maxIoModules ∧
    (T.dios.countP fun x => x.1.type = .con1616Dio) ≤ CArray.tdsControl.size ∧
    A.cards.length ≤ CArray.adcMap.size ∧ (A.cards ≠ [] → T.cards.length < maxIoModules)

/-- What a request is counted when its card is looked up, and not when it is expected. -/
def surplus (T : IopTable) (r : CdsCard) : ℕ :=
  if ¬ T.Missing r ∧ r.type = .acs16Dio then 1 else 0

/-- What a request is counted when its card is expected, and not when it is looked up. -/
def deficit (T : IopTable) (r : CdsCard) : ℕ :=
  if T.Missing r then expectedCount r.type else if r.type = .con1616Dio then 1 else 0

/-- A missing card changes the count, and nothing else does; the counts are only compared if there
is an ADC card. -/
def CountsAgree (T : IopTable) (A : AppCards) : Prop :=
  if ∃ r ∈ A.cards, T.Missing r then
    A.adcs ≠ [] ∧ (A.cards.map (surplus T)).sum ≠ (A.cards.map (deficit T)).sum
  else A.adcs = [] ∨ (A.cards.map (surplus T)).sum = (A.cards.map (deficit T)).sum

theorem found_add_deficit (T : IopTable) (r : CdsCard) :
    T.found r + deficit T r = expectedCount r.type + surplus T r := by
  obtain ⟨type, inst⟩ := r
  by_cases hmissing : T.Missing ⟨type, inst⟩
  · simp only [IopTable.found, deficit, surplus, hmissing, if_true, not_true, false_and, if_false]
    omega
  · simp only [IopTable.found, deficit, surplus, hmissing, not_false_iff, true_and, if_false]
    cases type <;> rfl

/-- The two counts differ if what is counted on one side only does. -/
theorem sum_found_add_deficit (T : IopTable) (cards : List CdsCard) :
    (cards.map T.found).sum + (cards.map (deficit T)).sum =
      (cards.map fun r => expectedCount r.type).sum + (cards.map (surplus T)).sum := by
  rw [← List.sum_map_add, ← List.sum_map_add]
  exact congrArg List.sum (List.map_congr_left fun r _ => found_add_deficit T r)

section Run

variable {T : IopTable} {A : AppCards} {ioMemData : IoMemData}

theorem rtFeInit_eq {io : IoMemData} {u : InitState} {m : MapState}
    (hu : initmap { cardsUsed := A.cards } = .ok u.hw)
    (hm : mapPciModules io u.hw = .ok (m.hw, m.status)) :
    rtFeInit A.cards io = .ok (if m.hw.adcCount = 0 then ⟨m.hw, true, false⟩
      else ⟨m.hw, false, m.status ≠ (A.cards.map fun r => expectedCount r.type).sum⟩) := by
  rw [rtFeInit, hu]
  show (mapPciModules io u.hw >>= _) = _
  rw [hm]
  exact (apply_ite Except.ok _ _ _).symm

/-- What a run gives in which every index is in range. -/
theorem run_of_fit (h : IndicesFit T A) (ioMemData : IoMemData) :
    ∃ s f, T.send ioMemData = .ok s ∧ rtFeInit A.cards s.ioMemData = .ok f ∧
      (∀ k r, A.adcs[k]? = some r →
        f.hw.adcConfig k = ((T.adcs.idxOf? r).map fun i => (i : ℤ)).getD (-1)) ∧
      (∀ k r, A.dacs[k]? = some r →
        f.hw.dacConfig k = ((T.dacs.idxOf? r).map s.hw.dacConfig).getD 0) ∧
      (f.cardCountErr = true ↔ A.adcs ≠ [] ∧
        (A.cards.map (surplus T)).sum ≠ (A.cards.map (deficit T)).sum) := by
  obtain ⟨hlen, htds, hcards, hlt⟩ := h
  obtain ⟨s, hs, hwritten, hconfig⟩ := T.send_written hlen htds ioMemData
  obtain ⟨u, hu, hnumbered, hused⟩ := A.initmap_ok hcards
  obtain ⟨m, hm, hmapped⟩ := mapPciModules_ok hcards hwritten hlt hnumbered hused
  refine ⟨s, _, hs, rtFeInit_eq hu hm, ?_, ?_, ?_⟩
  · intro k r hr
    rw [apply_ite FeInit.hw, ite_self]
    exact hmapped.adcConfig.all hr
  · intro k r hr
    rw [apply_ite FeInit.hw, ite_self, hmapped.dacConfig.all hr, IopTable.dacBlock]
    cases hidx : T.dacs.idxOf? r with
    | none => rfl
    | some i =>
      have hi := (List.idxOf?_eq_some_iff.mp hidx).1
      exact (hconfig i hi).symm
  · have hadcs : A.adcs ≠ [] ↔ m.hw.adcCount ≠ 0 := by
      rw [hmapped.adcCount, List.countP_eq_length_filter, Ne, Ne, List.length_eq_zero_iff]
      rfl
    have hcount := sum_found_add_deficit T A.cards
    rw [← hmapped.status] at hcount
    rw [hadcs]
    by_cases hzero : m.hw.adcCount = 0
    · rw [if_pos hzero]
      exact ⟨fun h => absurd h Bool.false_ne_true, fun h => absurd hzero h.1⟩
    · rw [if_neg hzero, decide_eq_true_eq]
      constructor
      · intro hne
        refine ⟨hzero, ?_⟩
        omega
      · rintro ⟨-, hne⟩
        omega

/-- A run that ends has used no index out of range. -/
theorem fit_of_run {s : SendState} {f : FeInit} (hs : T.send ioMemData = .ok s)
    (hf : rtFeInit A.cards s.ioMemData = .ok f) : IndicesFit T A := by
  obtain ⟨hlen, htds⟩ := T.send_bounds hs
  obtain ⟨s', hs', hwritten, -⟩ := T.send_written hlen htds ioMemData
  obtain rfl : s = s' := Except.ok.inj (hs.symm.trans hs')
  obtain ⟨hw, hinit, hrest⟩ := bind_ok hf
  have hcards := A.initmap_bounds hinit
  refine ⟨hlen, htds, hcards, fun hne => ?_⟩
  obtain ⟨u, hu, -, hused⟩ := A.initmap_ok hcards
  obtain rfl : hw = u.hw := Except.ok.inj (hinit.symm.trans hu)
  obtain ⟨x, hmap, -⟩ := bind_ok hrest
  have hlt := mapPciModules_bounds hmap (hused ▸ hne)
  rwa [hwritten.total] at hlt

end Run

/-- The IOP and an application agree exactly if every index is in range and the counts of the
cards tell whether one is missing. -/
theorem agree_iff (T : IopTable) (A : AppCards) (ioMemData : IoMemData) :
    Agree T A ioMemData ↔ IndicesFit T A ∧ CountsAgree T A := by
  have hcounts : CountsAgree T A ↔ ((A.adcs ≠ [] ∧
      (A.cards.map (surplus T)).sum ≠ (A.cards.map (deficit T)).sum) ↔
        ∃ r ∈ A.cards, T.Missing r) := by
    rw [CountsAgree]
    split
    · next hmissing => exact ⟨fun h => ⟨fun _ => hmissing, fun _ => h⟩, fun h => h.mpr hmissing⟩
    · next hnone =>
      rw [iff_false_right hnone, not_and_or, not_not, not_not]
  constructor
  · rintro ⟨s, f, hs, hf, -, -, herr⟩
    have hfit := fit_of_run hs hf
    obtain ⟨s', f', hs', hf', -, -, herr'⟩ := run_of_fit hfit ioMemData
    obtain rfl : s = s' := Except.ok.inj (hs.symm.trans hs')
    obtain rfl : f = f' := Except.ok.inj (hf.symm.trans hf')
    exact ⟨hfit, hcounts.mpr (herr'.symm.trans herr)⟩
  · rintro ⟨hfit, hagree⟩
    obtain ⟨s, f, hs, hf, hadcs, hdacs, herr⟩ := run_of_fit hfit ioMemData
    exact ⟨s, f, hs, hf, hadcs, hdacs, herr.trans (hcounts.mp hagree)⟩

/-- An IOP with an ADC card and an `ACS_16DIO` card. -/
def adcAndAcs16 : IopTable where
  adcs := [⟨.gsc16AI64SSA, 0⟩]
  dacs := []
  dios := [(⟨.acs16Dio, 0⟩, 0)]
  adcs_le := by decide
  dacs_le := by decide
  dios_le := by decide
  adcs_type := by decide
  dacs_type := by decide
  dios_type := by decide
  nodup := by decide

def usesBoth : AppCards where
  cards := [⟨.gsc16AI64SSA, 0⟩, ⟨.acs16Dio, 0⟩]
  adcs_le := by decide
  dacs_le := by decide
  dios_le := by decide

/-- The application finds both cards, and reports one as missing. -/
theorem present_card_reported : ¬ Agree adcAndAcs16 usesBoth {} := by
  rintro ⟨s, f, hs, hf, -, -, herr⟩
  have hrun : ((adcAndAcs16.send {} >>= fun s => rtFeInit usesBoth.cards s.ioMemData).map
      FeInit.cardCountErr) = .ok true := by decide +kernel
  rw [hs] at hrun
  have hflag : f.cardCountErr = true := by
    change ((rtFeInit usesBoth.cards s.ioMemData).map FeInit.cardCountErr) = .ok true at hrun
    rw [hf] at hrun
    exact Except.ok.inj hrun
  exact absurd (herr.mp hflag) (by decide)

end AdvLigoRts.Fe
