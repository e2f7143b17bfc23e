import AdvLigoRts.Seq.SdfSelection
import Mathlib.Data.List.Nodup

/-!
# When accepting and reverting are exact

Each entry of a table of `spChecker` changes its own channels only, unless a filter has the name of
a channel there. So what the loop of `modifyTable` leaves at a channel is what its entry makes of
it.
-/

namespace AdvLigoRts.Seq

open PvLib

variable {K : Type} {fp : Doubles K} {s u : SdfState K} {e : SetErrTable K}
  {T : List (SetErrTable K)}

/-! ## Entries -/

theorem selected_iff (h : e.chFlag < 16) :
    e.selected = true ↔ e.accept = true ∨ e.monitor = true := by
  unfold SetErrTable.selected SetErrTable.accept SetErrTable.monitor
  generalize e.chFlag = flag at h
  obtain ⟨n, hn, rfl⟩ : ∃ n < 16, flag = BitVec.ofNat 32 n :=
    ⟨flag.toNat, BitVec.lt_def.mp h, by simp⟩
  interval_cases n <;> decide

theorem FilterLine.unique {i j : ℕ} (h : FilterLine s i e) (h' : FilterLine s j e) : i = j :=
  Int.ofNat_inj.mp (h.filtNum.symm.trans h'.filtNum)

theorem ChannelLine.unique {c d : ℕ} (h : ChannelLine s c e) (h' : ChannelLine s d e) : c = d :=
  h.sigNum.symm.trans h'.sigNum

theorem ChannelLine.not_filter {c i : ℕ} (h : ChannelLine s c e) : ¬FilterLine s i e := by
  intro h'
  have hne : (i : ℤ) = -1 := h'.filtNum.symm.trans h.filtNum
  omega

theorem ChannelLine.covers_iff {c : ℕ} (h : ChannelLine s c e) (d : ℕ) :
    Covers s e d ↔ d = c := by
  constructor
  · rintro (h' | ⟨i, h', -⟩)
    · exact h'.unique h
    · exact absurd h' h.not_filter
  · rintro rfl
    exact .inl h

theorem FilterLine.covers_iff {i : ℕ} (h : FilterLine s i e) (c : ℕ) :
    Covers s e c ↔ s.SwitchOf i c := by
  constructor
  · rintro (h' | ⟨j, h', hc⟩)
    · exact absurd h h'.not_filter
    · rwa [h.unique h']
  · exact fun hc => .inr ⟨i, h, hc⟩

namespace SdfState

/-- A channel that is no switch channel is none of a filter. -/
theorem Paired.not_switchOf (hs : s.Paired) {i c : ℕ} (hi : i < s.fmNum)
    (hc : (s.cdTable c).filterswitch = 0) : ¬s.SwitchOf i c := by
  intro hic
  have hnumber := hs.switch c (hs.inTable i hi c hic)
  have hlead := hs.leads i hi c hic
  rw [hc] at hnumber
  unfold switchNumber at hnumber
  unfold filterOf at hlead
  split at hlead
  · rename_i hsw
    rcases hsw with hsw | hsw
    · rw [hsw, if_pos rfl] at hnumber
      split at hnumber <;> cases hnumber
    · rw [hsw, if_pos rfl] at hnumber
      cases hnumber
  · cases hlead

end SdfState

/-! ## The loop of `modifyTable` -/

/-- The state within the loop has the names and the masks of the filters of the state before. -/
def Modifying (s u : SdfState K) : Prop := SameNames s u ∧ u.filterMasks = s.filterMasks

theorem Modifying.refl (s : SdfState K) : Modifying s s := ⟨.refl s, rfl⟩

theorem Modifying.trans {t : SdfState K} (h : Modifying s t) (h' : Modifying t u) :
    Modifying s u := ⟨h.1.trans h'.1, h'.2.trans h.2⟩

theorem modifying_modifyFilter : Modifying u (modifyFilter fp e u) := by
  refine ⟨modifyFilter_spec.1.sameNames, ?_⟩
  unfold modifyFilter
  dsimp only
  split <;> split <;> rfl

theorem modifying_modifyLine : Modifying u (modifyLine fp u e) := by
  have hnamed : Modifying u (modifyNamed e u) := ⟨sameNames_modifyNamed e u, rfl⟩
  unfold modifyLine
  dsimp only
  split
  · split
    · exact hnamed.trans modifying_modifyFilter
    · exact hnamed
  · exact .refl u

theorem modifyLine_channel (hs : s.Arranged) (hu : Modifying s u) {ii : ℕ}
    (h : ChannelLine s ii e) (hsel : e.selected = true) :
    (modifyLine fp u e).filterTable = u.filterTable ∧
      ∀ c, (modifyLine fp u e).cdTable c =
        if c = ii then modifyChannel s.filterMasks e (u.cdTable c) else u.cdTable c := by
  have hline : modifyLine fp u e = modifyNamed e u := by
    unfold modifyLine
    rw [if_pos hsel]
    exact if_neg fun hif => absurd hif.1 (by rw [h.filtNum]; decide)
  rw [hline]
  refine ⟨rfl, fun c => ?_⟩
  have hname : c < u.chNum ∧ (u.cdTable c).chname = e.chname ↔ c = ii := by
    rw [hu.1.chNum, hu.1.chname, h.name]
    constructor
    · exact fun hc => hs.distinct c hc.1 ii h.inTable hc.2
    · rintro rfl
      exact ⟨h.inTable, rfl⟩
  show (if c < u.chNum ∧ (u.cdTable c).chname = e.chname then _ else _) = _
  simp only [hname, hu.2]

/-- What the entry for a filter makes of one of its channels, with the value for it. -/
def modifySwitch (fp : Doubles K) (mask : BitVec 32) (e : SetErrTable K) (v : BitVec 32)
    (cd : CdsCdTable K) : CdsCdTable K :=
  let cd := if e.accept then setPoint fp v cd else cd
  if e.monitor then setMask mask cd else cd

def modifyEntry (mask : BitVec 32) (e : SetErrTable K) (f : FilterTable) : FilterTable :=
  let f := { f with newSet := true }
  let f := if e.accept then { f with init := true } else f
  if e.monitor then { f with mask := mask } else f

theorem setFilter_cdTable (i : ℕ) (f : FilterTable) : (u.setFilter i f).cdTable = u.cdTable := rfl

theorem setFilter_filterMasks (i : ℕ) (f : FilterTable) :
    (u.setFilter i f).filterMasks = u.filterMasks := rfl

theorem acceptFilter_filterMasks : (acceptFilter fp e u).filterMasks = u.filterMasks := rfl

theorem setSwitches_cdTable {f f1 : CdsCdTable K → CdsCdTable K} {a b : ℕ}
    (ha : e.sigNum % sdfMaxTsize = a) (hb : e.sigNum / sdfMaxTsize = b) (hab : a ≠ b) :
    (u.setSwitches e f f1).cdTable a = f (u.cdTable a) ∧
      (u.setSwitches e f f1).cdTable b = f1 (u.cdTable b) := by
  unfold SdfState.setSwitches SdfState.setCd
  dsimp only
  rw [ha, hb, Function.update_of_ne hab, Function.update_self, Function.update_self,
    Function.update_of_ne hab.symm]
  exact ⟨rfl, rfl⟩

variable (fp) in
theorem modifyLine_filter (hs : s.Arranged) (hu : Modifying s u) {i : ℕ} (h : FilterLine s i e)
    (hsel : e.selected = true) (hname : ∀ c < s.chNum, (s.cdTable c).chname ≠ e.chname) :
    (∀ j, (modifyLine fp u e).filterTable j =
      if j = i then modifyEntry (s.filterMasks i) e (u.filterTable i) else u.filterTable j) ∧
    (modifyLine fp u e).cdTable (s.filterTable i).sw.1 =
      modifySwitch fp (s.filterMasks i) e e.sw.1 (u.cdTable (s.filterTable i).sw.1) ∧
    (modifyLine fp u e).cdTable (s.filterTable i).sw.2 =
      modifySwitch fp (s.filterMasks i) e e.sw.2 (u.cdTable (s.filterTable i).sw.2) ∧
    ∀ c, ¬s.SwitchOf i c → (modifyLine fp u e).cdTable c = u.cdTable c := by
  have hnone : ∀ c, ¬(c < u.chNum ∧ (u.cdTable c).chname = e.chname) := by
    intro c hc
    rw [hu.1.chNum, hu.1.chname] at hc
    exact hname c hc.1 hc.2
  have hnamed : modifyNamed e u = u := by
    unfold modifyNamed
    simp only [if_neg (hnone _)]
  have hfound : foundChannel u e = false := by
    unfold foundChannel inTable
    rw [Bool.and_eq_false_iff]
    refine .inl (List.any_eq_false.mpr fun c hc => ?_)
    rw [decide_eq_true_eq]
    exact fun heq => hnone c ⟨List.mem_range.mp hc, heq⟩
  have hline : modifyLine fp u e = modifyFilter fp e u := by
    unfold modifyLine
    dsimp only
    rw [if_pos hsel, hfound, hnamed]
    exact if_pos ⟨by rw [h.filtNum]; exact Int.natCast_nonneg i, Bool.false_ne_true⟩
  have hindex : e.filtNum.toNat = i := by
    rw [h.filtNum]
    exact Int.toNat_natCast i
  have hlt : (s.filterTable i).sw.1 < sdfMaxTsize :=
    (hs.paired.inTable i h.registered _ (.inl rfl)).trans_le hs.paired.size
  have hsn : e.sigNum % sdfMaxTsize = (s.filterTable i).sw.1 := by
    rw [h.sigNum, Nat.add_mul_mod_self_right, Nat.mod_eq_of_lt hlt]
  have hsn1 : e.sigNum / sdfMaxTsize = (s.filterTable i).sw.2 := by
    rw [h.sigNum, Nat.add_mul_div_right _ _ (by decide), Nat.div_eq_of_lt hlt, Nat.zero_add]
  have htwo := hs.two i h.registered
  have hset : ∀ (v : SdfState K) f f1, (v.setSwitches e f f1).cdTable (s.filterTable i).sw.1 =
        f (v.cdTable (s.filterTable i).sw.1) ∧
      (v.setSwitches e f f1).cdTable (s.filterTable i).sw.2 =
        f1 (v.cdTable (s.filterTable i).sw.2) :=
    fun v f f1 => setSwitches_cdTable hsn hsn1 htwo
  rw [hline]
  refine ⟨fun j => ?_, ?_, ?_, fun c hc => ?_⟩
  · by_cases hj : j = i
    · subst hj
      rw [if_pos rfl]
      unfold modifyFilter modifyEntry acceptFilter monitorFilter SdfState.setSwitches
        SdfState.setFilter SdfState.setCd
      dsimp only
      rw [hindex]
      cases e.accept <;> cases e.monitor <;> simp [hu.2]
    · rw [if_neg hj]
      exact modifyFilter_spec.1.entries j (by rw [hindex]; exact hj)
  · unfold modifyFilter modifySwitch
    dsimp only
    cases e.accept <;> cases e.monitor <;>
      simp [acceptFilter_cdTable, monitorFilter_cdTable, acceptFilter_filterMasks,
        setFilter_cdTable, setFilter_filterMasks, hset, hindex, hu.2]
  · unfold modifyFilter modifySwitch
    dsimp only
    cases e.accept <;> cases e.monitor <;>
      simp [acceptFilter_cdTable, monitorFilter_cdTable, acceptFilter_filterMasks,
        setFilter_cdTable, setFilter_filterMasks, hset, hindex, hu.2]
  · refine modifyFilter_spec.1.others c (fun heq => hc ?_) fun heq => hc ?_
    · rw [heq, hsn]
      exact .inl rfl
    · rw [heq, hsn1]
      exact .inr rfl

section Loop

variable (hs : s.Arranged) (hT : CheckedTable s T) (hfree : Undisturbed T s)
include hs hT hfree

variable (fp) in
theorem framed_channels : Framed (modifyLine fp) (Modifying s) SdfState.cdTable
    (fun e c => e.selected = true ∧ Covers s e c) T := by
  refine ⟨fun u hu e _ => hu.trans modifying_modifyLine, fun u hu e he c hc => ?_⟩
  by_cases hsel : e.selected = true
  · have hcovers : ¬Covers s e c := fun h => hc ⟨hsel, h⟩
    rcases hT.line e he with ⟨i, h⟩ | ⟨ii, h⟩
    · rw [h.covers_iff] at hcovers
      exact (modifyLine_filter fp hs hu h hsel (hfree.names e he hsel i h)).2.2.2 c hcovers
    · rw [h.covers_iff] at hcovers
      rw [(modifyLine_channel hs hu h hsel).2, if_neg hcovers]
  · unfold modifyLine
    rw [if_neg hsel]

variable (fp) in
theorem framed_filters : Framed (modifyLine fp) (Modifying s) SdfState.filterTable
    (fun e i => e.selected = true ∧ FilterLine s i e) T := by
  refine ⟨fun u hu e _ => hu.trans modifying_modifyLine, fun u hu e he i hi => ?_⟩
  by_cases hsel : e.selected = true
  · rcases hT.line e he with ⟨j, h⟩ | ⟨ii, h⟩
    · have hne : i ≠ j := fun heq => hi ⟨hsel, heq ▸ h⟩
      rw [(modifyLine_filter fp hs hu h hsel (hfree.names e he hsel j h)).1, if_neg hne]
    · rw [(modifyLine_channel hs hu h hsel).1]
  · unfold modifyLine
    rw [if_neg hsel]

variable (fp) in
theorem loop_modifying : Modifying s (T.foldl (modifyLine fp) s) :=
  (framed_channels fp hs hT hfree).foldl_inv (.refl s)

theorem loop_channel (he : e ∈ T) (hsel : e.selected = true) {ii : ℕ} (h : ChannelLine s ii e) :
    (T.foldl (modifyLine fp) s).cdTable ii =
      modifyChannel s.filterMasks e (s.cdTable ii) := by
  obtain ⟨u, hu, hbefore, hafter⟩ := (framed_channels fp hs hT hfree).foldl_touched
    (.refl s) (hT.apart.imp fun h c hc hc' => h c hc.2 hc'.2) he
  have hcovers : e.selected = true ∧ Covers s e ii := ⟨hsel, .inl h⟩
  rw [hafter ii hcovers, (modifyLine_channel hs hu h hsel).2, if_pos rfl, hbefore ii hcovers]

variable (fp) in
theorem loop_switches (he : e ∈ T) (hsel : e.selected = true) {i : ℕ} (h : FilterLine s i e) :
    (T.foldl (modifyLine fp) s).cdTable (s.filterTable i).sw.1 =
        modifySwitch fp (s.filterMasks i) e e.sw.1 (s.cdTable (s.filterTable i).sw.1) ∧
      (T.foldl (modifyLine fp) s).cdTable (s.filterTable i).sw.2 =
        modifySwitch fp (s.filterMasks i) e e.sw.2 (s.cdTable (s.filterTable i).sw.2) := by
  obtain ⟨u, hu, hbefore, hafter⟩ := (framed_channels fp hs hT hfree).foldl_touched
    (.refl s) (hT.apart.imp fun h c hc hc' => h c hc.2 hc'.2) he
  have hcovers : ∀ c, s.SwitchOf i c → e.selected = true ∧ Covers s e c :=
    fun c hc => ⟨hsel, .inr ⟨i, h, hc⟩⟩
  obtain ⟨-, hfst, hsnd, -⟩ := modifyLine_filter fp hs hu h hsel (hfree.names e he hsel i h)
  rw [hafter _ (hcovers _ (.inl rfl)), hafter _ (hcovers _ (.inr rfl)), hfst, hsnd,
    hbefore _ (hcovers _ (.inl rfl)), hbefore _ (hcovers _ (.inr rfl))]
  exact ⟨rfl, rfl⟩

theorem loop_filter (he : e ∈ T) (hsel : e.selected = true) {i : ℕ} (h : FilterLine s i e) :
    (T.foldl (modifyLine fp) s).filterTable i =
      modifyEntry (s.filterMasks i) e (s.filterTable i) := by
  have hdisj : T.Pairwise fun e e' => ∀ i, (e.selected = true ∧ FilterLine s i e) →
      ¬(e'.selected = true ∧ FilterLine s i e') :=
    hT.apart.imp fun h i hi hi' => h _ (.inr ⟨i, hi.2, .inl rfl⟩) (.inr ⟨i, hi'.2, .inl rfl⟩)
  obtain ⟨u, hu, hbefore, hafter⟩ := (framed_filters fp hs hT hfree).foldl_touched
    (.refl s) hdisj he
  rw [hafter i ⟨hsel, h⟩, (modifyLine_filter fp hs hu h hsel (hfree.names e he hsel i h)).1,
    if_pos rfl, hbefore i ⟨hsel, h⟩]

theorem loop_cdTable_untouched {c : ℕ} (h : ∀ e ∈ T, e.selected = true → ¬Covers s e c) :
    (T.foldl (modifyLine fp) s).cdTable c = s.cdTable c :=
  (framed_channels fp hs hT hfree).foldl_untouched (.refl s) fun e he hc => h e he hc.1 hc.2

theorem loop_filterTable_untouched {i : ℕ} (h : ∀ e ∈ T, e.selected = true → ¬FilterLine s i e) :
    (T.foldl (modifyLine fp) s).filterTable i = s.filterTable i :=
  (framed_filters fp hs hT hfree).foldl_untouched (.refl s) fun e he hi => h e he hi.1 hi.2

end Loop

/-! ## The end of `modifyTable` -/

variable (fp) in
theorem newfilterstat_entry (i : ℕ) :
    ((newfilterstat fp u i).filterTable i).init =
        ((u.filterTable i).newSet || (u.filterTable i).init) ∧
      ((newfilterstat fp u i).filterTable i).mask =
        if (u.filterTable i).newSet then switchMask u i else (u.filterTable i).mask := by
  unfold newfilterstat
  dsimp only
  cases hnew : (u.filterTable i).newSet with
  | true =>
    rw [if_pos rfl]
    unfold SdfState.setFilter
    dsimp only
    rw [Function.update_self]
    exact ⟨rfl, rfl⟩
  | false =>
    rw [if_neg Bool.false_ne_true]
    exact ⟨rfl, rfl⟩

variable (fp) in
/-- `newfilterstats` changes the masks of the switch channels of the filters that are marked, and
marks these filters as initialised. -/
theorem newfilterstats_spec (hs : s.Paired) (hu : SameNames s u) :
    (∀ i < s.fmNum, ((newfilterstats fp u).filterTable i).init =
        ((u.filterTable i).newSet || (u.filterTable i).init) ∧
      ((newfilterstats fp u).filterTable i).mask =
        (if (u.filterTable i).newSet then switchMask u i else (u.filterTable i).mask) ∧
      ∀ c, s.SwitchOf i c → ((newfilterstats fp u).cdTable c).mask =
        if (u.filterTable i).newSet then switchMask u i else (u.cdTable c).mask) ∧
    ∀ c, (∀ i < s.fmNum, ¬s.SwitchOf i c) → (newfilterstats fp u).cdTable c = u.cdTable c := by
  have hnum : newfilterstats fp u = (List.range s.fmNum).foldl (newfilterstat fp) u := by
    unfold newfilterstats
    rw [hu.fmNum]
  rw [hnum]
  constructor
  · intro i hi
    -- a filter with its two switch channels
    have hframed : Framed (newfilterstat fp) (SameNames s)
        (fun v (j : Fin s.fmNum) => (v.filterTable j, v.cdTable (s.filterTable j).sw.1,
          v.cdTable (s.filterTable j).sw.2)) (fun ii j => ii = j) (List.range s.fmNum) := by
      refine ⟨fun v hv ii _ => hv.trans (sameNames_newfilterstat v ii), fun v hv ii hii j hne => ?_⟩
      have hnot : ∀ c, s.SwitchOf j c → (newfilterstat fp v ii).cdTable c = v.cdTable c := by
        intro c hc
        refine newfilterstat_cdTable_of_not fun hc' => hne ?_
        exact hs.apart (List.mem_range.mp hii) j.isLt (hv.switchOf.mp hc') hc
      rw [newfilterstat_filterTable_of_ne (Ne.symm hne), hnot _ (.inl rfl), hnot _ (.inr rfl)]
    have hdisj : (List.range s.fmNum).Pairwise fun ii jj : ℕ =>
        ∀ j : Fin s.fmNum, ii = (j : ℕ) → ¬jj = (j : ℕ) :=
      List.nodup_range.imp fun hne j h h' => hne (h.trans h'.symm)
    obtain ⟨v, hv, hbefore, hafter⟩ := hframed.foldl_touched hu hdisj (List.mem_range.mpr hi)
    obtain ⟨hf, h1, h2⟩ := Prod.ext_iff.mp (hbefore ⟨i, hi⟩ rfl) |>.imp_right Prod.ext_iff.mp
    obtain ⟨hf', h1', h2'⟩ := Prod.ext_iff.mp (hafter ⟨i, hi⟩ rfl) |>.imp_right Prod.ext_iff.mp
    dsimp only at hf h1 h2 hf' h1' h2'
    have hmask : switchMask v i = switchMask u i := by
      unfold switchMask
      rw [hv.sw, hu.sw, h1, h2]
    obtain ⟨hinit, hfilter⟩ := newfilterstat_entry fp (u := v) i
    rw [hf', hinit, hfilter, hf, hmask]
    refine ⟨rfl, rfl, fun c hc => ?_⟩
    have hchannel : v.cdTable c = u.cdTable c ∧
        ((List.range s.fmNum).foldl (newfilterstat fp) u).cdTable c =
          (newfilterstat fp v i).cdTable c := by
      rcases hc with rfl | rfl
      · exact ⟨h1, h1'⟩
      · exact ⟨h2, h2'⟩
    have hmerge : merge (fun c => (v.cdTable c).mask) (v.filterTable i).sw c = switchMask v i :=
      (merge_apply _ _ c).trans (if_pos (hv.switchOf.mpr hc))
    rw [hchannel.2, newfilterstat_cdTable, hmerge, hf, hchannel.1, hmask]
  · intro c hc
    have hframed : Framed (newfilterstat fp) (SameNames s) SdfState.cdTable
        (fun ii c => s.SwitchOf ii c) (List.range s.fmNum) := by
      refine ⟨fun v hv ii _ => hv.trans (sameNames_newfilterstat v ii), fun v hv ii _ c hc => ?_⟩
      exact newfilterstat_cdTable_of_not fun hc' => hc (hv.switchOf.mp hc')
    exact hframed.foldl_untouched hu fun i hi => hc i (List.mem_range.mp hi)

theorem newfilterstats_value (c : ℕ) :
    ((newfilterstats fp u).cdTable c).data = (u.cdTable c).data ∧
      ((newfilterstats fp u).cdTable c).initialized = (u.cdTable c).initialized := by
  unfold newfilterstats
  rw [foldl_newfilterstat_cdTable List.nodup_range]
  exact ⟨rfl, rfl⟩

/-! ## What is accepted -/

theorem modifyChannel_fields (masks : ℕ → BitVec 32) (cd : CdsCdTable K)
    (hnum : cd.filterNum = -1) :
    (modifyChannel masks e cd).data = (if e.accept then liveData e cd else cd.data) ∧
      (modifyChannel masks e cd).initialized = (e.accept || cd.initialized) ∧
      (modifyChannel masks e cd).mask =
        if e.monitor then (if cd.mask ≠ 0 then 0 else ~~~0) else cd.mask := by
  unfold modifyChannel liveData
  cases e.accept <;> cases e.monitor <;> simp [hnum]

variable (fp) in
theorem modifySwitch_fields (mask v : BitVec 32) (cd : CdsCdTable K) :
    (modifySwitch fp mask e v cd).data =
        (if e.accept then .chval (fp.ofUnsigned v) else cd.data) ∧
      (modifySwitch fp mask e v cd).initialized = (e.accept || cd.initialized) ∧
      (modifySwitch fp mask e v cd).mask = if e.monitor then mask else cd.mask := by
  unfold modifySwitch
  cases e.accept <;> cases e.monitor <;> exact ⟨rfl, rfl, rfl⟩

theorem modifyEntry_newSet (mask : BitVec 32) (f : FilterTable) :
    (modifyEntry mask e f).newSet = true := by
  unfold modifyEntry
  cases e.accept <;> cases e.monitor <;> rfl

section Accept

variable (hs : s.Arranged) (hT : CheckedTable s T) (hfree : Undisturbed T s)
include hs hT hfree

variable (fp) in
theorem loop_switch (he : e ∈ T) (hsel : e.selected = true) {i c : ℕ} (h : FilterLine s i e)
    (hc : s.SwitchOf i c) :
    ∃ v, (T.foldl (modifyLine fp) s).cdTable c =
      modifySwitch fp (s.filterMasks i) e v (s.cdTable c) := by
  obtain ⟨hfst, hsnd⟩ := loop_switches fp hs hT hfree he hsel h
  rcases hc with rfl | rfl
  · exact ⟨_, hfst⟩
  · exact ⟨_, hsnd⟩

/-- A channel of an entry keeps its value if the entry is not accepted. -/
theorem loop_value (he : e ∈ T) (hsel : e.selected = true) (ha : e.accept = false) {c : ℕ}
    (h : Covers s e c) :
    ((T.foldl (modifyLine fp) s).cdTable c).data = (s.cdTable c).data ∧
      ((T.foldl (modifyLine fp) s).cdTable c).initialized = (s.cdTable c).initialized := by
  rcases h with h | ⟨i, h, hc⟩
  · obtain ⟨hdata, hinit, -⟩ := modifyChannel_fields (e := e) s.filterMasks (s.cdTable c)
      (hs.unnumbered c h.inTable h.filterswitch)
    rw [loop_channel hs hT hfree he hsel h, hdata, hinit, ha]
    exact ⟨rfl, rfl⟩
  · obtain ⟨v, hswitch⟩ := loop_switch fp hs hT hfree he hsel h hc
    obtain ⟨hdata, hinit, -⟩ := modifySwitch_fields fp (e := e) (s.filterMasks i) v
      (s.cdTable c)
    rw [hswitch, hdata, hinit, ha]
    exact ⟨rfl, rfl⟩

theorem acceptedExactly_of_undisturbed : AcceptedExactly fp T s (modifyTable fp T s) := by
  have hmod := loop_modifying fp hs hT hfree
  obtain ⟨hfilters, hothers⟩ := newfilterstats_spec fp hs.paired hmod.1
  have hselected : ∀ e ∈ T, e.accept = true ∨ e.monitor = true → e.selected = true :=
    fun e he => (selected_iff (hT.flags e he)).mpr
  have hplain : ∀ {c e}, ChannelLine s c e → ∀ i < s.fmNum, ¬s.SwitchOf i c :=
    fun h i hi => hs.paired.not_switchOf hi h.filterswitch
  unfold modifyTable
  constructor
  case channel =>
    intro e he ha ii h
    have hsel := hselected e he (.inl ha)
    obtain ⟨hdata, hinit, -⟩ := modifyChannel_fields (e := e) s.filterMasks (s.cdTable ii)
      (hs.unnumbered ii h.inTable h.filterswitch)
    rw [(newfilterstats_value ii).1, (newfilterstats_value ii).2,
      loop_channel hs hT hfree he hsel h, hdata, hinit, ha]
    exact ⟨rfl, rfl⟩
  case filter =>
    intro e he ha i h
    have hsel := hselected e he (.inl ha)
    obtain ⟨hfst, hsnd⟩ := loop_switches fp hs hT hfree he hsel h
    refine ⟨?_, ?_, fun c hc => ?_, ?_⟩
    · rw [(newfilterstats_value _).1, hfst, (modifySwitch_fields fp _ _ _).1, ha]
      rfl
    · rw [(newfilterstats_value _).1, hsnd, (modifySwitch_fields fp _ _ _).1, ha]
      rfl
    · obtain ⟨v, hswitch⟩ := loop_switch fp hs hT hfree he hsel h hc
      rw [(newfilterstats_value _).2, hswitch, (modifySwitch_fields fp _ _ _).2.1, ha]
      rfl
    · rw [(hfilters i h.registered).1, loop_filter hs hT hfree he hsel h, modifyEntry_newSet]
      rfl
  case channelMask =>
    intro e he hm ii h
    have hsel := hselected e he (.inr hm)
    obtain ⟨-, -, hmask⟩ := modifyChannel_fields (e := e) s.filterMasks (s.cdTable ii)
      (hs.unnumbered ii h.inTable h.filterswitch)
    rw [hothers ii (hplain h), loop_channel hs hT hfree he hsel h, hmask, hm]
    rfl
  case filterMask =>
    intro e he hm i h
    have hsel := hselected e he (.inr hm)
    have hloop : ∀ c, s.SwitchOf i c →
        ((T.foldl (modifyLine fp) s).cdTable c).mask = s.filterMasks i := by
      intro c hc
      obtain ⟨v, hswitch⟩ := loop_switch fp hs hT hfree he hsel h hc
      rw [hswitch, (modifySwitch_fields fp _ _ _).2.2, hm]
      rfl
    have hboth : switchMask (T.foldl (modifyLine fp) s) i = s.filterMasks i := by
      unfold switchMask
      rw [hmod.1.sw, hloop _ (.inl rfl), hloop _ (.inr rfl), BitVec.or_self]
    obtain ⟨-, hmask, hswitches⟩ := hfilters i h.registered
    rw [loop_filter hs hT hfree he hsel h, modifyEntry_newSet, if_pos rfl, hboth] at hmask
    refine ⟨fun c hc => ?_, hmask⟩
    rw [hswitches c hc, loop_filter hs hT hfree he hsel h, modifyEntry_newSet, if_pos rfl, hboth]
  case value =>
    intro c _ hnone
    rw [(newfilterstats_value c).1, (newfilterstats_value c).2]
    by_cases hex : ∃ e ∈ T, e.selected = true ∧ Covers s e c
    · obtain ⟨e, he, hsel, hcovers⟩ := hex
      have ha : e.accept = false := Bool.eq_false_iff.mpr fun ha => hnone e he ha hcovers
      exact loop_value hs hT hfree he hsel ha hcovers
    · rw [loop_cdTable_untouched hs hT hfree fun e he hsel h => hex ⟨e, he, hsel, h⟩]
      exact ⟨rfl, rfl⟩
  case monitoring =>
    intro c _ hnone
    by_cases hex : ∃ e ∈ T, e.selected = true ∧ Covers s e c
    · -- the entry is for a channel that is only accepted
      obtain ⟨e, he, hsel, hcovers⟩ := hex
      have hm : e.monitor = false := Bool.eq_false_iff.mpr fun hm => hnone e he (.inl hm) hcovers
      have ha : e.accept = true := by
        have hor := (selected_iff (hT.flags e he)).mp hsel
        rw [hm] at hor
        exact hor.resolve_right Bool.false_ne_true
      rcases hcovers with h | ⟨i, h, hc⟩
      · obtain ⟨-, -, hmask⟩ := modifyChannel_fields (e := e) s.filterMasks (s.cdTable c)
          (hs.unnumbered c h.inTable h.filterswitch)
        rw [hothers c (hplain h), loop_channel hs hT hfree he hsel h, hmask, hm]
        rfl
      · exact absurd (.inr ⟨i, h, hc⟩) (hnone e he (.inr ⟨ha, i, h⟩))
    · have huntouched : ∀ e ∈ T, e.selected = true → ¬Covers s e c :=
        fun e he hsel h => hex ⟨e, he, hsel, h⟩
      by_cases hsw : ∃ i < s.fmNum, s.SwitchOf i c
      · -- the filter is not selected, and its channels have one mask if it is marked
        obtain ⟨i, hi, hc⟩ := hsw
        have hfilter : ∀ e ∈ T, e.selected = true → ¬FilterLine s i e :=
          fun e he hsel h => huntouched e he hsel (.inr ⟨i, h, hc⟩)
        have hchannels : ∀ d, s.SwitchOf i d →
            (T.foldl (modifyLine fp) s).cdTable d = s.cdTable d := by
          intro d hd
          refine loop_cdTable_untouched hs hT hfree fun e he hsel h => ?_
          rcases h with h | ⟨j, h, hjd⟩
          · exact hplain h i hi hd
          · exact hfilter e he hsel (hs.paired.apart hi h.registered hd hjd ▸ h)
        rw [(hfilters i hi).2.2 c hc, loop_filterTable_untouched hs hT hfree hfilter]
        split
        · rename_i hnew
          have hmasks := hfree.marks i hi hnew hfilter
          unfold switchMask
          rw [hmod.1.sw, hchannels _ (.inl rfl), hchannels _ (.inr rfl), hmasks, BitVec.or_self]
          rcases hc with rfl | rfl
          · exact hmasks.symm
          · rfl
        · rw [hchannels c hc]
      · rw [hothers c fun i hi hc => hsw ⟨i, hi, hc⟩,
          loop_cdTable_untouched hs hT hfree huntouched]

end Accept

/-! ## What is reverted -/

/-- What has been written is what the entries so far ask for, and `sn1` is one of their channels. -/
structure Reverting (fp : Doubles K) (s : SdfState K) (T : List (SetErrTable K))
    (r : ResetState K) : Prop where
  writes : RevertedExactly fp T s r.writes
  last : r.sn1 ≠ 0 → ∃ e ∈ T, e.revert = true ∧ Covers s e r.sn1 ∧
    (s.cdTable r.sn1).datatype = .num

theorem putValue_num {cd : CdsCdTable K} (h : cd.datatype = .num) :
    cd.putValue fp = .chval (cd.data.asChval fp) := if_pos h

/-- One more entry, whose channels are written, maybe with one that was written before. -/
theorem RevertedExactly.concat {writes more : List (ℕ × SdfData K)}
    (h : RevertedExactly fp T s writes) (hrev : e.revert = true)
    (hmore : ∀ c v, (c, v) ∈ writes ++ more ↔
      (c, v) ∈ writes ∨ Covers s e c ∧ v = (s.cdTable c).putValue fp) :
    RevertedExactly fp (T ++ [e]) s (writes ++ more) := by
  intro c v
  rw [hmore, h c v]
  constructor
  · rintro (⟨x, hx, hrest⟩ | hnew)
    · exact ⟨x, List.mem_append_left _ hx, hrest⟩
    · exact ⟨e, List.mem_append_right _ List.mem_cons_self, hrev, hnew⟩
  · rintro ⟨x, hx, hxrev, hrest⟩
    rcases List.mem_append.mp hx with hx | hx
    · exact .inl ⟨x, hx, hxrev, hrest⟩
    · rw [List.mem_singleton.mp hx] at hrest
      exact .inr hrest

theorem Reverting.skip {r : ResetState K} (h : Reverting fp s T r) (hrev : ¬e.revert = true) :
    Reverting fp s (T ++ [e]) (resetSelectedValue fp s r e) := by
  unfold resetSelectedValue
  rw [if_neg hrev]
  constructor
  · intro c v
    rw [h.writes c v]
    constructor
    · rintro ⟨x, hx, hrest⟩
      exact ⟨x, List.mem_append_left _ hx, hrest⟩
    · rintro ⟨x, hx, hxrev, hrest⟩
      rcases List.mem_append.mp hx with hx | hx
      · exact ⟨x, hx, hxrev, hrest⟩
      · exact absurd (List.mem_singleton.mp hx ▸ hxrev) hrev
  · intro hne
    obtain ⟨x, hx, hrest⟩ := h.last hne
    exact ⟨x, List.mem_append_left _ hx, hrest⟩

section Revert

variable (hs : s.Arranged)
include hs

/-- An entry for a channel: that channel is written, and again the one that `sn1` is left at. -/
theorem Reverting.channel {r : ResetState K} (h : Reverting fp s T r) (hrev : e.revert = true)
    {ii : ℕ} (hline : ChannelLine s ii e) :
    Reverting fp s (T ++ [e]) (resetSelectedValue fp s r e) := by
  have hsmall : ¬sdfMaxTsize < e.sigNum := by
    rw [hline.sigNum]
    exact Nat.not_lt.mpr (hline.inTable.le.trans hs.paired.size)
  have hlast : r.sn1 ≠ 0 → ∃ e' ∈ T ++ [e], e'.revert = true ∧ Covers s e' r.sn1 ∧
      (s.cdTable r.sn1).datatype = .num := by
    intro hne
    obtain ⟨x, hx, hrest⟩ := h.last hne
    exact ⟨x, List.mem_append_left _ hx, hrest⟩
  have hself : ∀ c v, (c, v) = (ii, (s.cdTable ii).putValue fp) ↔
      Covers s e c ∧ v = (s.cdTable c).putValue fp := by
    intro c v
    rw [hline.covers_iff, Prod.mk.injEq]
    constructor
    · rintro ⟨rfl, rfl⟩
      exact ⟨rfl, rfl⟩
    · rintro ⟨rfl, rfl⟩
      exact ⟨rfl, rfl⟩
  unfold resetSelectedValue
  dsimp only
  rw [if_pos hrev, if_neg hsmall, if_neg hsmall, hline.sigNum]
  refine ⟨?_, hlast⟩
  dsimp only
  split
  · rename_i hne
    -- the channel at `sn1` was written for an earlier entry
    obtain ⟨x, hx, hxrev, hcovers, hnum⟩ := h.last hne
    have hold : (r.sn1, SdfData.chval ((s.cdTable r.sn1).data.asChval fp)) ∈ r.writes :=
      (h.writes _ _).mpr ⟨x, hx, hxrev, hcovers, (putValue_num hnum).symm⟩
    rw [List.append_assoc]
    refine h.writes.concat hrev fun c v => ?_
    rw [List.mem_append, ← hself]
    simp only [List.cons_append, List.nil_append, List.mem_cons, List.not_mem_nil, or_false]
    constructor
    · rintro (hw | hw | hw)
      · exact .inl hw
      · exact .inr hw
      · rw [hw]
        exact .inl hold
    · exact fun hw => hw.imp_right .inl
  · refine h.writes.concat hrev fun c v => ?_
    rw [List.mem_append, List.mem_singleton, hself]

/-- An entry for a filter whose two indices are found again. -/
theorem Reverting.filter {r : ResetState K} (h : Reverting fp s T r) (hrev : e.revert = true)
    {i : ℕ} (hline : FilterLine s i e) (hne : (s.filterTable i).sw.2 ≠ 0)
    (hpair : (s.filterTable i).sw ≠ (0, 1)) :
    Reverting fp s (T ++ [e]) (resetSelectedValue fp s r e) := by
  have hi := hline.registered
  have hlt : (s.filterTable i).sw.1 < sdfMaxTsize :=
    (hs.paired.inTable i hi _ (.inl rfl)).trans_le hs.paired.size
  have hnum1 := hs.numbers i hi _ (.inl rfl)
  have hnum2 := hs.numbers i hi _ (.inr rfl)
  have hcovers := hline.covers_iff
  have hsig := hline.sigNum
  unfold SdfState.SwitchOf at hcovers
  generalize hsw : (s.filterTable i).sw = sw at *
  obtain ⟨a, b⟩ := sw
  dsimp only at *
  have hpacked : sdfMaxTsize < e.sigNum := by
    have hpos : a ≠ 0 ∨ b ≠ 1 := by
      by_contra hnot
      rw [not_or, not_not, not_not] at hnot
      exact hpair (by rw [hnot.1, hnot.2])
    rw [hsig]
    unfold sdfMaxTsize at *
    omega
  have hsn : e.sigNum % sdfMaxTsize = a := by
    rw [hsig, Nat.add_mul_mod_self_right, Nat.mod_eq_of_lt hlt]
  have hsn1 : e.sigNum / sdfMaxTsize = b := by
    rw [hsig, Nat.add_mul_div_right _ _ (by decide), Nat.div_eq_of_lt hlt, Nat.zero_add]
  unfold resetSelectedValue
  dsimp only
  rw [if_pos hrev, if_pos hpacked, if_pos hpacked, hsn, hsn1, if_pos hne, List.append_assoc]
  constructor
  · refine h.writes.concat hrev fun c v => ?_
    rw [List.mem_append, hcovers, ← putValue_num hnum2]
    simp only [List.cons_append, List.nil_append, List.mem_cons, List.not_mem_nil, or_false,
      Prod.mk.injEq]
    refine or_congr_right ⟨?_, ?_⟩
    · rintro (⟨rfl, rfl⟩ | ⟨rfl, rfl⟩)
      · exact ⟨.inl rfl, rfl⟩
      · exact ⟨.inr rfl, rfl⟩
    · rintro ⟨rfl | rfl, rfl⟩
      · exact .inl ⟨rfl, rfl⟩
      · exact .inr ⟨rfl, rfl⟩
  · intro _
    exact ⟨e, List.mem_append_right _ List.mem_cons_self, hrev, (hcovers b).mpr (.inr rfl), hnum2⟩

/-- What is to be reverted, if the indices of the filters are found again, is written exactly. -/
theorem revertedExactly_of_undisturbed (hT : CheckedTable s T) (hfree : Undisturbed T s) :
    RevertedExactly fp T s (resetSelectedValues fp s T) := by
  suffices hrun : ∀ T', (∀ e ∈ T', e ∈ T) →
      Reverting fp s T' (T'.foldl (resetSelectedValue fp s) ⟨[], 0⟩) from
    (hrun T fun _ he => he).writes
  intro T'
  induction T' using List.reverseRecOn with
  | nil =>
    intro _
    refine ⟨fun c v => ?_, fun h => absurd rfl h⟩
    simp
  | append_singleton T' e ih =>
    intro hsub
    have hprev := ih fun x hx => hsub x (List.mem_append_left _ hx)
    have he := hsub e (List.mem_append_right _ List.mem_cons_self)
    rw [List.foldl_append, List.foldl_cons, List.foldl_nil]
    by_cases hrev : e.revert = true
    · rcases hT.line e he with ⟨i, hline⟩ | ⟨ii, hline⟩
      · obtain ⟨hne, hpair⟩ := hfree.packing e he hrev i hline
        exact hprev.filter hs hrev hline hne hpair
      · exact hprev.channel hs hrev hline
    · exact hprev.skip hrev

end Revert

/-! ## Tables of `spChecker` -/

variable {live : LiveValues K} {monitorAll : Bool} {wcstring : Option (List Char)} {listAll : Bool}
  {c : CheckState K} {items : List CheckItem}

theorem lists_foldl {xs : List CheckItem} {step : CheckState K → CheckItem → CheckState K}
    {always : CheckItem → Prop}
    (hstep : ∀ x ∈ xs, ∀ items c, Lists live s items c →
      Lists live s (items ++ [x]) (step c x) ∨ ¬always x ∧ Lists live s items (step c x))
    (h : Lists live s items c) :
    ∃ ys, ys.Sublist xs ∧ Lists live s (items ++ ys) (xs.foldl step c) ∧
      ∀ x ∈ xs, always x → x ∈ ys := by
  induction xs generalizing items c with
  | nil =>
    refine ⟨[], List.Sublist.slnil, ?_, fun x hx => absurd hx List.not_mem_nil⟩
    rwa [List.append_nil]
  | cons x xs ih =>
    have htail : ∀ y ∈ xs, ∀ items c, Lists live s items c →
        Lists live s (items ++ [y]) (step c y) ∨ ¬always y ∧ Lists live s items (step c y) :=
      fun y hy => hstep y (List.mem_cons_of_mem x hy)
    rcases hstep x List.mem_cons_self items c h with h' | ⟨hnot, h'⟩
    · obtain ⟨ys, hsub, hlists, hall⟩ := ih htail h'
      refine ⟨x :: ys, hsub.cons_cons x, ?_, fun y hy hy' => ?_⟩
      · rwa [List.append_cons]
      · rcases List.mem_cons.mp hy with rfl | hy
        · exact List.mem_cons_self
        · exact List.mem_cons_of_mem x (hall y hy hy')
    · obtain ⟨ys, hsub, hlists, hall⟩ := ih htail h'
      refine ⟨ys, hsub.cons x, hlists, fun y hy hy' => ?_⟩
      rcases List.mem_cons.mp hy with rfl | hy
      · exact absurd hy' hnot
      · exact hall y hy hy'

variable (fp monitorAll wcstring listAll) in
/-- The table of `spChecker` lists some items, and all filters if they are asked for. -/
theorem spChecker_lists [BEq K] (hrange : ∀ i < s.fmNum, SwitchesInRange live (s.filterTable i))
    (setErrTable : ℕ → SetErrTable K) :
    ∃ items, items.Sublist s.items ∧
      Lists live s items (spChecker fp live s monitorAll wcstring listAll setErrTable) ∧
      (listAll = true → wcstring = none → ∀ i < s.fmNum, CheckItem.filter i ∈ items) := by
  let step : CheckState K → CheckItem → CheckState K := fun c x =>
    x.casesOn (checkFilterSwitch fp live s monitorAll wcstring listAll c)
      (checkChannel fp live s monitorAll wcstring listAll c)
  have hrun : spChecker fp live s monitorAll wcstring listAll setErrTable =
      s.items.foldl step ⟨setErrTable, 0, 0⟩ := by
    unfold spChecker checkFilterSwitches SdfState.items
    rw [List.foldl_append, List.foldl_map, List.foldl_map]
  have hsteps : ∀ x ∈ s.items, ∀ items c, Lists live s items c →
      Lists live s (items ++ [x]) (step c x) ∨
        ¬(listAll = true ∧ wcstring = none ∧ ∃ i, x = .filter i) ∧
          Lists live s items (step c x) := by
    intro x hx items c h
    rcases mem_items.mp hx with ⟨i, hi, rfl⟩ | ⟨ii, hii, rfl⟩
    · have hspec := (checkFilterSwitch_spec fp monitorAll wcstring listAll hi (hrange i hi) h).1
      split at hspec
      · exact .inl hspec
      · rename_i hnot
        refine .inr ⟨fun hall => hnot ?_, hspec⟩
        rw [hall.1, hall.2.1, Bool.or_true]
        rfl
    · have hspec := (checkChannel_spec fp monitorAll wcstring listAll hii h).1
      split at hspec
      · exact .inl hspec
      · refine .inr ⟨fun hall => ?_, hspec⟩
        obtain ⟨i, hne⟩ := hall.2.2
        cases hne
  obtain ⟨ys, hsub, hlists, hall⟩ := lists_foldl hsteps (.nil setErrTable 0)
  rw [hrun]
  refine ⟨ys, hsub, hlists, fun hl hw i hi => ?_⟩
  exact hall _ (mem_items.mpr (.inl ⟨i, hi, rfl⟩)) ⟨hl, hw, i, rfl⟩

theorem nodup_items (s : SdfState K) : s.items.Nodup := by
  have hfilter : Function.Injective CheckItem.filter := fun _ _ h => CheckItem.filter.inj h
  have hchannel : Function.Injective CheckItem.channel := fun _ _ h => CheckItem.channel.inj h
  unfold SdfState.items
  rw [List.nodup_append]
  refine ⟨List.Nodup.map hfilter List.nodup_range, List.Nodup.map hchannel List.nodup_range,
    fun x hx y hy heq => ?_⟩
  obtain ⟨i, -, rfl⟩ := List.mem_map.mp hx
  obtain ⟨ii, -, rfl⟩ := List.mem_map.mp hy
  cases heq

theorem Shows.flagged {x : CheckItem} {e e' : SetErrTable K} (h : Shows live s x e)
    (hflag : Flagged e e') : Shows live s x e' := by
  rw [hflag.entry]
  cases x with
  | filter i => exact ⟨⟨h.1.registered, h.1.name, h.1.filtNum, h.1.sigNum⟩, h.2⟩
  | channel ii => exact { h with }

/-- The entries of two items have no channel in common. -/
theorem shows_apart (hs : s.Paired) {x y : CheckItem} {e e' : SetErrTable K} {c : ℕ}
    (hx : Shows live s x e) (hy : Shows live s y e') (hc : Covers s e c) (hc' : Covers s e' c) :
    x = y := by
  cases x with
  | filter i =>
    rw [hx.1.covers_iff] at hc
    cases y with
    | filter j =>
      rw [hy.1.covers_iff] at hc'
      rw [hs.apart hx.1.registered hy.1.registered hc hc']
    | channel jj =>
      obtain rfl := (ChannelLine.covers_iff hy c).mp hc'
      exact absurd hc (hs.not_switchOf hx.1.registered hy.filterswitch)
  | channel ii =>
    obtain rfl := (ChannelLine.covers_iff hx c).mp hc
    cases y with
    | filter j =>
      rw [hy.1.covers_iff] at hc'
      exact absurd hc' (hs.not_switchOf hy.1.registered hx.filterswitch)
    | channel jj => rw [(ChannelLine.covers_iff hy c).mp hc']

theorem pairwise_of_shows (hs : s.Paired) (hnodup : items.Nodup)
    (h : List.Forall₂ (Shows live s) items T) :
    T.Pairwise fun e e' => ∀ c, Covers s e c → ¬Covers s e' c := by
  induction h with
  | nil => exact .nil
  | @cons x e items T hx hrest ih =>
    obtain ⟨hnot, hnodup⟩ := List.nodup_cons.mp hnodup
    refine .cons (fun e' he' c hc hc' => ?_) (ih hnodup)
    obtain ⟨k, hk, rfl⟩ := List.getElem_of_mem he'
    have hk' : k < items.length := by rwa [hrest.length_eq]
    have hy := hrest.get hk' hk
    exact hnot (shows_apart hs hx hy hc hc' ▸ List.get_mem items ⟨k, hk'⟩)

/-- A table of `spChecker` with any flags is a table. -/
theorem checkedTable_of_flagged (hs : s.Paired) (hsub : items.Sublist s.items)
    (hlists : Lists live s items c) (hflags : List.Forall₂ Flagged c.entries T) :
    List.Forall₂ (Shows live s) items T ∧ CheckedTable s T := by
  have hshows : List.Forall₂ (Shows live s) items T := by
    have hentries := hlists.entries
    generalize c.entries = es at hentries hflags
    clear hlists hsub
    induction hentries generalizing T with
    | nil =>
      cases hflags
      exact .nil
    | cons hx _ ih =>
      cases hflags with
      | cons he hrest => exact .cons (hx.flagged he) (ih hrest)
  refine ⟨hshows, fun e he => ?_, fun e he => ?_,
    pairwise_of_shows hs ((nodup_items s).sublist hsub) hshows⟩
  · obtain ⟨k, hk, rfl⟩ := List.getElem_of_mem he
    have hk' : k < items.length := by rwa [hshows.length_eq]
    have hx := hshows.get hk' hk
    generalize items.get ⟨k, hk'⟩ = x at hx
    cases x with
    | filter i => exact .inl ⟨i, hx.1⟩
    | channel ii => exact .inr ⟨ii, hx⟩
  · obtain ⟨k, hk, rfl⟩ := List.getElem_of_mem he
    have hk' : k < c.entries.length := by rwa [hflags.length_eq]
    exact (hflags.get hk' hk).flags

theorem SdfState.Unambiguous.undisturbed (h : s.Unambiguous) : Undisturbed T s where
  names _ _ _ i hline c hc := by
    rw [hline.name]
    exact h.names i hline.registered c hc
  marks i hi hnew _ := h.marks i hi hnew
  packing _ _ _ i hline := h.packing i hline.registered

end AdvLigoRts.Seq
