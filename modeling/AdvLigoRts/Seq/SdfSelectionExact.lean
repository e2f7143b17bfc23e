import AdvLigoRts.Seq.SdfSelectionTheorems

/-!
# Tables in which accepting and reverting are exact

In tables that are not unambiguous there is something to ask for that goes wrong: to accept a filter
with the name of a channel, to ask for nothing after an aborted load, or to revert a filter whose
indices are not found again.
-/

namespace AdvLigoRts.Seq

open PvLib

variable {K : Type} {fp : Doubles K} {s u : SdfState K} {T : List (SetErrTable K)}
  {e : SetErrTable K} {i : ℕ}

/-! ## Asking for one filter -/

/-- The flags of the entries of a filter are set, and those of the others are cleared. -/
def markOnly (i : ℕ) (flag : BitVec 32) (e : SetErrTable K) : SetErrTable K :=
  { e with chFlag := if e.filtNum = i then flag else 0 }

theorem flagged_markOnly {flag : BitVec 32} (hflag : flag < 16)
    (hway : flag &&& 4 = 0 ∨ flag &&& 2 = 0) (e : SetErrTable K) :
    Flagged e (markOnly i flag e) := by
  unfold markOnly
  refine ⟨rfl, ?_, fun h => ?_⟩
  · dsimp only
    split
    · exact hflag
    · decide
  · have hboth : ¬(if e.filtNum = i then flag else 0) &&& 4 = 0 ∧
        ¬(if e.filtNum = i then flag else 0) &&& 2 = 0 :=
      ⟨of_decide_eq_true h.1, of_decide_eq_true h.2⟩
    split at hboth
    · exact hway.elim hboth.1 hboth.2
    · exact hboth.1 (by decide)

theorem exists_flagged [BEq K] (fp : Doubles K) (hs : s.Paired) (hi : i < s.fmNum)
    (w flag : BitVec 32) (hw : w ≤ 0xffff) (hflag : flag < 16)
    (hway : flag &&& 4 = 0 ∨ flag &&& 2 = 0) (setErrTable : ℕ → SetErrTable K) :
    ∃ (live : LiveValues K) (T : List (SetErrTable K)),
      (∀ j < s.fmNum, SwitchesInRange live (s.filterTable j)) ∧
      List.Forall₂ Flagged (spChecker fp live s false none true setErrTable).entries T ∧
      CheckedTable s T ∧ (∃ e ∈ T, FilterLine s i e ∧ e.sw.1 = w ∧ e.chFlag = flag) ∧
      ∀ e ∈ T, e.chFlag = 0 ∨ FilterLine s i e ∧ e.chFlag = flag := by
  let live : LiveValues K := ⟨fun _ => fp.ofUnsigned 0, fun _ => [], fun _ => w, fun _ => []⟩
  have hrange : ∀ j < s.fmNum, SwitchesInRange live (s.filterTable j) := fun j _ => ⟨hw, hw⟩
  obtain ⟨items, hsub, hlists, hall⟩ := spChecker_lists fp false none true hrange setErrTable
  have hflags : List.Forall₂ Flagged (spChecker fp live s false none true setErrTable).entries
      ((spChecker fp live s false none true setErrTable).entries.map (markOnly i flag)) :=
    List.forall₂_map_right_iff.mpr (List.forall₂_same.mpr fun e _ => flagged_markOnly hflag hway e)
  obtain ⟨hshows, hT⟩ := checkedTable_of_flagged hs hsub hlists hflags
  have hchFlag : ∀ e ∈ (spChecker fp live s false none true setErrTable).entries.map
      (markOnly i flag), e.chFlag = if e.filtNum = i then flag else 0 := by
    intro e he
    obtain ⟨e0, -, rfl⟩ := List.mem_map.mp he
    rfl
  refine ⟨live, _, hrange, hflags, hT, ?_, fun e he => ?_⟩
  · obtain ⟨k, hk, hget⟩ := List.getElem_of_mem (hall rfl rfl i hi)
    have hk' : k < (List.map (markOnly i flag)
        (spChecker fp live s false none true setErrTable).entries).length := by
      rwa [← hshows.length_eq]
    have hx := hshows.get hk hk'
    rw [List.get_eq_getElem, hget] at hx
    refine ⟨_, List.get_mem _ ⟨k, hk'⟩, hx.1, ?_, ?_⟩
    · rw [hx.2]
      exact if_neg (BitVec.not_lt.mpr hw)
    · rw [hchFlag _ (List.get_mem _ ⟨k, hk'⟩), if_pos hx.1.filtNum]
  · rw [hchFlag e he]
    rcases hT.line e he with ⟨j, hline⟩ | ⟨ii, hline⟩
    · by_cases hj : j = i
      · subst hj
        exact .inr ⟨hline, if_pos hline.filtNum⟩
      · refine .inl (if_neg fun heq => hj ?_)
        exact Int.ofNat_inj.mp (hline.filtNum.symm.trans heq)
    · refine .inl (if_neg fun heq => ?_)
      have hneg : (i : ℤ) = -1 := heq.symm.trans hline.filtNum
      omega

theorem modifyLine_of_zero (h : e.chFlag = 0) : modifyLine fp u e = u := by
  unfold modifyLine
  refine if_neg ?_
  unfold SetErrTable.selected
  rw [h]
  decide

/-! ## What goes wrong -/

theorem SdfState.Paired.switch_name (hs : s.Paired) (hi : i < s.fmNum) {c : ℕ}
    (hc : s.SwitchOf i c) : (s.cdTable c).chname ≠ (s.filterTable i).tmpname := by
  intro heq
  have hlead := hs.leads i hi c hc
  have hlen := congrArg List.length heq
  unfold filterOf at hlead
  split at hlead
  · rename_i hsw
    have hname : (s.filterTable i).fname =
        (s.cdTable c).chname.take ((s.cdTable c).chname.length - 4) := by
      simpa only [decide_eq_true_eq] using List.find?_some hlead
    unfold FilterTable.tmpname at hlen
    rw [hname, List.length_dropLast, List.length_take] at hlen
    have hnil : (s.cdTable c).chname = [] := List.length_eq_zero_iff.mp (by omega)
    rw [hnil] at hsw
    revert hsw
    decide
  · cases hlead

/-- The entry for a filter with the name of a channel changes that channel, and the set points of
the filter stay. -/
theorem clash_keeps (hs : s.Arranged) {c : ℕ} (hc : c < s.chNum)
    (hname : (s.cdTable c).chname = (s.filterTable i).tmpname)
    (hflags : ∀ e ∈ T, e.chFlag = 0 ∨ FilterLine s i e ∧ e.chFlag = 4) {d : ℕ} (hi : i < s.fmNum)
    (hd : s.SwitchOf i d) : ((modifyTable fp T s).cdTable d).data = (s.cdTable d).data := by
  have hframed : Framed (modifyLine fp) (Modifying s) SdfState.cdTable (fun _ c => c ≠ d) T := by
    refine ⟨fun u hu e _ => hu.trans modifying_modifyLine, fun u hu e he c' hc' => ?_⟩
    obtain rfl : c' = d := not_not.mp hc'
    rcases hflags e he with hzero | ⟨hline, hflag⟩
    · rw [modifyLine_of_zero hzero]
    · have haccept : e.accept = true := by
        unfold SetErrTable.accept
        rw [hflag]
        decide
      have hsel : e.selected = true := (selected_iff (by rw [hflag]; decide)).mpr (.inl haccept)
      have hfound : foundChannel u e = true := by
        unfold foundChannel inTable
        rw [Bool.and_eq_true, List.any_eq_true, haccept]
        refine ⟨⟨c, List.mem_range.mpr (by rw [hu.1.chNum]; exact hc), decide_eq_true ?_⟩, rfl⟩
        rw [hu.1.chname, hname, hline.name]
        rfl
      unfold modifyLine
      dsimp only
      rw [if_pos hsel, if_neg fun hif => hif.2 hfound]
      refine if_neg fun hif => hs.paired.switch_name hi hd ?_
      rw [← hu.1.chname, hif.2, hline.name]
      rfl
  unfold modifyTable
  rw [(newfilterstats_value d).1, hframed.foldl_untouched (.refl s) fun _ _ h => h rfl]

/-- The entries to revert have one index that is not taken for a pair: only that one is written. -/
theorem writes_of_unpacked {a : ℕ} (ha : ¬sdfMaxTsize < a)
    (h : ∀ e ∈ T, e.revert = true → e.sigNum = a) :
    ∀ p ∈ resetSelectedValues fp s T, p.1 = a := by
  suffices hrun : ∀ T' : List (SetErrTable K), (∀ e ∈ T', e.revert = true → e.sigNum = a) →
      (T'.foldl (resetSelectedValue fp s) ⟨[], 0⟩).sn1 = 0 ∧
        ∀ p ∈ (T'.foldl (resetSelectedValue fp s) ⟨[], 0⟩).writes, p.1 = a from (hrun T h).2
  intro T'
  induction T' using List.reverseRecOn with
  | nil => exact fun _ => ⟨rfl, fun p hp => absurd hp List.not_mem_nil⟩
  | append_singleton T' e ih =>
    intro hsig
    obtain ⟨hzero, hwrites⟩ := ih fun x hx => hsig x (List.mem_append_left _ hx)
    rw [List.foldl_append, List.foldl_cons, List.foldl_nil]
    generalize T'.foldl (resetSelectedValue fp s) ⟨[], 0⟩ = r at hzero hwrites
    unfold resetSelectedValue
    by_cases hrev : e.revert = true
    · have he := hsig e (List.mem_append_right _ List.mem_cons_self) hrev
      dsimp only
      rw [if_pos hrev, he, if_neg ha, if_neg ha, hzero]
      refine ⟨rfl, fun p hp => ?_⟩
      rcases List.mem_append.mp hp with hp | hp
      · exact hwrites p hp
      · rw [List.mem_singleton.mp hp]
    · rw [if_neg hrev]
      exact ⟨hzero, hwrites⟩

/-! ## Exactness -/

/-- Whatever the check lists and the operators mark in it, accepting and reverting are exact. -/
def SelectionsExact [BEq K] (fp : Doubles K) (s : SdfState K) : Prop :=
  ∀ (live : LiveValues K) (monitorAll : Bool) (wcstring : Option (List Char)) (listAll : Bool)
    (setErrTable : ℕ → SetErrTable K) (T : List (SetErrTable K)),
    (∀ i < s.fmNum, SwitchesInRange live (s.filterTable i)) →
    List.Forall₂ Flagged
      (spChecker fp live s monitorAll wcstring listAll setErrTable).entries T →
    AcceptedExactly fp T s (modifyTable fp T s) ∧
      RevertedExactly fp T s (resetSelectedValues fp s T)

section Exact

variable [BEq K]

theorem selectionsExact_of_unambiguous (hs : s.Arranged) (h : s.Unambiguous) :
    SelectionsExact fp s := by
  intro live monitorAll wcstring listAll setErrTable T hrange hflags
  obtain ⟨items, hsub, hlists, -⟩ :=
    spChecker_lists fp monitorAll wcstring listAll hrange setErrTable
  obtain ⟨-, hT⟩ := checkedTable_of_flagged hs.paired hsub hlists hflags
  exact ⟨acceptedExactly_of_undisturbed hs hT h.undisturbed,
    revertedExactly_of_undisturbed hs hT h.undisturbed⟩

variable (hs : s.Arranged) (h : SelectionsExact fp s) (hi : i < s.fmNum)
  (setErrTable : ℕ → SetErrTable K)
include hs h hi setErrTable

theorem names_of_exact (h01 : fp.ofUnsigned 0 ≠ fp.ofUnsigned 1) :
    ∀ c < s.chNum, (s.cdTable c).chname ≠ (s.filterTable i).tmpname := by
  intro c hc hname
  -- a live value that is not the set point
  obtain ⟨w, hw, hne⟩ : ∃ w : BitVec 32, w ≤ 0xffff ∧
      (s.cdTable (s.filterTable i).sw.1).data ≠ .chval (fp.ofUnsigned w) := by
    by_cases hzero : (s.cdTable (s.filterTable i).sw.1).data = .chval (fp.ofUnsigned 0)
    · refine ⟨1, by decide, fun hone => h01 ?_⟩
      exact SdfData.chval.inj (hzero.symm.trans hone)
    · exact ⟨0, by decide, hzero⟩
  obtain ⟨live, T, hrange, hflags, -, ⟨e, he, hline, hword, hflag⟩, hall⟩ :=
    exists_flagged fp hs.paired hi w 4 hw (by decide) (.inr (by decide)) setErrTable
  have haccept : e.accept = true := by
    unfold SetErrTable.accept
    rw [hflag]
    decide
  have hdata := ((h live false none true setErrTable T hrange hflags).1.filter e he haccept i
    hline).1
  rw [clash_keeps hs hc hname hall hi (.inl rfl), hword] at hdata
  exact hne hdata

theorem marks_of_exact (hnew : (s.filterTable i).newSet = true) :
    (s.cdTable (s.filterTable i).sw.1).mask = (s.cdTable (s.filterTable i).sw.2).mask := by
  obtain ⟨live, T, hrange, hflags, -, -, hall⟩ :=
    exists_flagged fp hs.paired hi 0 0 (by decide) (by decide) (.inl (by decide))
      setErrTable
  have hzero : ∀ e ∈ T, e.chFlag = 0 := fun e he => (hall e he).elim id fun h => h.2
  have hloop : T.foldl (modifyLine fp) s = s := by
    clear hflags hall
    induction T with
    | nil => rfl
    | cons e T ih =>
      rw [List.foldl_cons, modifyLine_of_zero (hzero e List.mem_cons_self)]
      exact ih fun x hx => hzero x (List.mem_cons_of_mem e hx)
  have hkeep := (h live false none true setErrTable T hrange hflags).1.monitoring
  have hmask : ∀ c, s.SwitchOf i c → (s.cdTable c).mask = switchMask s i := by
    intro c hc
    have hnone : ∀ e ∈ T, e.monitor = true ∨ e.accept = true ∧ (∃ i, FilterLine s i e) →
        ¬Covers s e c := by
      intro e he hasked
      unfold SetErrTable.monitor SetErrTable.accept at hasked
      rw [hzero e he] at hasked
      exact absurd hasked (by simp)
    have hresult := ((newfilterstats_spec fp hs.paired (.refl s)).1 i hi).2.2 c hc
    rw [if_pos hnew] at hresult
    rw [← hkeep c (hs.paired.inTable i hi c hc) hnone, ← hresult]
    unfold modifyTable
    rw [hloop]
  rw [hmask _ (.inl rfl), hmask _ (.inr rfl)]

theorem packing_of_exact : (s.filterTable i).sw.2 ≠ 0 ∧ (s.filterTable i).sw ≠ (0, 1) := by
  obtain ⟨live, T, hrange, hflags, -, ⟨e, he, hline, -, hflag⟩, hall⟩ :=
    exists_flagged fp hs.paired hi 0 2 (by decide) (by decide)
      (.inl (by decide)) setErrTable
  have hrev : e.revert = true := by
    unfold SetErrTable.revert
    rw [hflag]
    decide
  have hsig : ∀ x ∈ T, x.revert = true → x.sigNum = e.sigNum := by
    intro x hx hxrev
    rcases hall x hx with hzero | ⟨hxline, -⟩
    · unfold SetErrTable.revert at hxrev
      rw [hzero] at hxrev
      exact absurd hxrev (by decide)
    · rw [hxline.sigNum, hline.sigNum]
  have hexact := (h live false none true setErrTable T hrange hflags).2
  -- both switch channels are written, so the indices cannot be taken for one
  have hwritten : ∀ c, s.SwitchOf i c → ¬sdfMaxTsize < e.sigNum → c = e.sigNum := by
    intro c hc hsmall
    have hmem := (hexact c _).mpr ⟨e, he, hrev, (hline.covers_iff c).mpr hc, rfl⟩
    exact writes_of_unpacked hsmall hsig _ hmem
  have hlt := hs.paired.inTable i hi _ (.inl rfl)
  have hsize := hs.paired.size
  have htwo := hs.two i hi
  have hpacked : sdfMaxTsize < e.sigNum := by
    by_contra hsmall
    exact htwo ((hwritten _ (.inl rfl) hsmall).trans (hwritten _ (.inr rfl) hsmall).symm)
  rw [hline.sigNum] at hpacked
  constructor
  · intro hzero
    rw [hzero] at hpacked
    omega
  · intro hpair
    rw [hpair] at hpacked
    exact absurd hpacked (by decide)

end Exact

/-- Accepting and reverting are exact, whatever the check lists and the operators mark, exactly in
the tables that are unambiguous. -/
theorem selectionsExact_iff [BEq K] (fp : Doubles K) (s : SdfState K) (hs : s.Arranged)
    (h01 : fp.ofUnsigned 0 ≠ fp.ofUnsigned 1) : SelectionsExact fp s ↔ s.Unambiguous := by
  have setErrTable : ℕ → SetErrTable K := fun _ => ⟨[], [], fp.ofUnsigned 0, 0, 0, 0, (0, 0)⟩
  constructor
  · intro h
    exact ⟨fun i hi => names_of_exact hs h hi setErrTable h01,
      fun i hi => marks_of_exact hs h hi setErrTable,
      fun i hi => packing_of_exact hs h hi setErrTable⟩
  · exact selectionsExact_of_unambiguous hs

/-! ## Example tables -/

theorem checkedFilter_arranged : (checkedFilter allSwstatBits).Arranged := by
  have hswitch : ∀ i < (checkedFilter allSwstatBits).fmNum, ∀ c,
      (checkedFilter allSwstatBits).SwitchOf i c → i = 0 ∧ (c = 1 ∨ c = 2) := by
    intro i hi c hc
    obtain rfl : i = 0 := Nat.lt_one_iff.mp hi
    exact ⟨rfl, hc⟩
  refine ⟨⟨by show 3 ≤ 20000; decide, fun c hc => ?_, fun i hi c hc => ?_, fun i hi c hc => ?_,
    fun i hi c hc => ?_⟩, fun c hc d hd => ?_, fun i hi => ?_, fun i hi c hc => ?_, fun c hc => ?_⟩
  · change c < 3 at hc
    interval_cases c <;> decide
  · show c < 3
    obtain ⟨-, rfl | rfl⟩ := hswitch i hi c hc <;> decide
  · obtain ⟨rfl, rfl | rfl⟩ := hswitch i hi c hc <;> rfl
  · obtain ⟨rfl, rfl | rfl⟩ := hswitch i hi c hc <;> rfl
  · change c < 3 at hc
    change d < 3 at hd
    interval_cases c <;> interval_cases d <;> decide
  · show (1 : ℕ) ≠ 2
    decide
  · obtain ⟨rfl, rfl | rfl⟩ := hswitch i hi c hc <;> rfl
  · change c < 3 at hc
    interval_cases c <;> decide

theorem selectionsExact_iff_checkedFilter :
    SelectionsExact smallDoubles (checkedFilter allSwstatBits) := by
  refine (selectionsExact_iff smallDoubles (checkedFilter allSwstatBits)
    checkedFilter_arranged (by decide)).mpr ⟨fun i hi c hc => ?_, fun i _ hnew => ?_,
      fun i _ => ?_⟩
  · obtain rfl : i = 0 := Nat.lt_one_iff.mp hi
    change c < 3 at hc
    interval_cases c <;> decide
  · cases hnew
  · show (2 : ℕ) ≠ 0 ∧ ((1, 2) : ℕ × ℕ) ≠ (0, 1)
    decide

/-- The second switch channel of the filter is the first channel of the table. -/
def swappedFilter : SdfState ℕ where
  chNum := 2
  cdTable ii :=
    match ii with
    | 0 => ⟨"X1:A_SW2S".toList, .num, .chval 0, 0, true, 2, -1⟩
    | _ => ⟨"X1:A_SW1S".toList, .num, .chval 0, 0, true, 1, 0⟩
  fmNum := 1
  filterTable _ := ⟨"X1:A_".toList, 0, (1, 0), false, true, 0⟩
  filterMasks _ := 0

theorem swappedFilter_not_exact :
    swappedFilter.Arranged ∧ ¬SelectionsExact smallDoubles swappedFilter := by
  have hswitch : ∀ i < swappedFilter.fmNum, ∀ c, swappedFilter.SwitchOf i c →
      i = 0 ∧ (c = 1 ∨ c = 0) := by
    intro i hi c hc
    obtain rfl : i = 0 := Nat.lt_one_iff.mp hi
    exact ⟨rfl, hc⟩
  have hs : swappedFilter.Arranged := by
    refine ⟨⟨by show 2 ≤ 20000; decide, fun c hc => ?_, fun i hi c hc => ?_, fun i hi c hc => ?_,
      fun i hi c hc => ?_⟩, fun c hc d hd => ?_, fun i hi => ?_, fun i hi c hc => ?_,
      fun c hc => ?_⟩
    · change c < 2 at hc
      interval_cases c <;> decide
    · show c < 2
      obtain ⟨-, rfl | rfl⟩ := hswitch i hi c hc <;> decide
    · obtain ⟨rfl, rfl | rfl⟩ := hswitch i hi c hc <;> rfl
    · obtain ⟨rfl, rfl | rfl⟩ := hswitch i hi c hc <;> rfl
    · change c < 2 at hc
      change d < 2 at hd
      interval_cases c <;> interval_cases d <;> decide
    · show (1 : ℕ) ≠ 0
      decide
    · obtain ⟨rfl, rfl | rfl⟩ := hswitch i hi c hc <;> rfl
    · change c < 2 at hc
      interval_cases c <;> decide
  refine ⟨hs, fun h => ?_⟩
  exact (packing_of_exact hs h (show 0 < swappedFilter.fmNum from Nat.one_pos) emptyErrTable).1 rfl

end AdvLigoRts.Seq
