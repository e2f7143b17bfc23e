import AdvLigoRts.Seq.CaTablesTheorems
import AdvLigoRts.Lib.Machine

/-!
# The merge, and runs

The merge moves the channels of the side tables to `caTable` one by one, and `Inv` holds between
the passes. After it a channel of known type is in `caTable`, so the tables say what its last
connection said (`Synced`).
-/

namespace AdvLigoRts.Seq

open PvLib

variable {K : Type}

section Steps

variable {s : CaState K} {last : Fin sdfMaxTsize → LastConnect K} {first : ℕ}
variable {i j : Fin sdfMaxTsize}

/-! ## The merge -/

section Merge

/-- The invariant of the merge: what waits in a side table, and can be merged, is connected. -/
structure Merging (s : CaState K) (last : Fin sdfMaxTsize → LastConnect K) (first : ℕ) :
    Prop where
  inv : Inv s last first
  pending : ∀ i : Fin sdfMaxTsize,
    (0 ≤ (s.caTable i).redirIndex ∧ (s.caTable i).redirIndex < sdfMaxTsize ∨
      (s.caConnEnumTable i).datatype ≠ .unknown) → (last i).up = true

/-- With all of `caConnTable` merged, the next connection gets its first entry. -/
theorem Merging.emptied (h : Merging s last s.chConnNum) :
    Merging { s with chConnNum := 0 } last 0 := by
  refine ⟨{ h.inv with
    chConnNum_le := Nat.zero_le _
    reserved := fun k _ hk => absurd hk (Nat.not_lt_zero k)
    located := fun i => ?_ }, h.pending⟩
  cases h.inv.located i with
  | own hredir hunknown hup => exact .own hredir hunknown hup
  | conn k hfirst hlast _ _ _ _ => omega
  | enum hredir hup => exact .enum hredir hup

theorem resubscribe_ok {type : SdfType} (hindex : (s.caTable i).chanIndex = i)
    (htype : (s.caTable i).datatype = type) (hne : type ≠ .unknown) :
    s.resubscribe i = .ok (s.setEvid i (some type.chtype)) := by
  unfold CaState.resubscribe
  rw [hindex, index_val]
  subst htype
  cases hd : (s.caTable i).datatype with
  | num | str =>
    rfl
  | unknown => exact absurd hd hne

/-- With no type left to take over, the counter of determined types starts again. -/
theorem Inv.resetDetermined (h : Inv s last first)
    (hall : ∀ i, (s.caConnEnumTable i).datatype = .unknown) :
    Inv { s with chEnumDetermined := 0 } last first :=
  { h with
    nonneg := le_rfl
    determined := fun i hne => absurd (hall i) hne
    located := fun i => by
      refine Located.frame (h.located i) ?_ ?_ ?_ ?_
      · rfl
      · rfl
      · rfl
      · exact fun _ _ hk hk' => ⟨hk, hk', rfl⟩ }

theorem Inv.copyFlag (h : Inv s last first) :
    ∃ t, s.copyFlag i = .ok t ∧ Inv t last first ∧ t.chNum = s.chNum ∧
      t.chConnNum = s.chConnNum ∧ t.caConnEnumTable = s.caConnEnumTable ∧
      t.caTable = s.caTable ∧ (t.cdTable i).connected = (s.caTable i).connected ∧
      ∀ j, j ≠ i → t.cdTable j = s.cdTable j := by
  let cd : CdChannel K := { s.cdTable i with connected := (s.caTable i).connected }
  refine ⟨{ s with cdTable := Function.update s.cdTable i cd }, ?_, ?_, rfl, rfl, rfl, rfl, ?_,
    fun j hj => Function.update_of_ne hj _ _⟩
  · unfold CaState.copyFlag
    rw [index_val]
    rfl
  · refine { h with datatype := fun j => ?_, located := fun j => ?_ }
    · by_cases hj : j = i
      · subst hj
        dsimp only
        rw [Function.update_self]
        exact h.datatype j
      · dsimp only
        rw [Function.update_of_ne hj]
        exact h.datatype j
    · refine Located.frame (h.located j) ?_ ?_ ?_ ?_
      · rfl
      · rfl
      · rfl
      · exact fun _ _ hk hk' => ⟨hk, hk', rfl⟩
  · dsimp only
    rw [Function.update_self]

/-- With nothing in the side tables whose type is known, all channels of known type are in
`caTable`. -/
theorem Inv.synced (h : Inv s last first) (hconn : s.chConnNum = 0)
    (hall : ∀ i, (s.caConnEnumTable i).datatype = .unknown)
    (hflag : (s.cdTable i).connected = (s.caTable i).connected) :
    CaRun.Synced ⟨s, last⟩ i := by
  have hmatch : (last i).up → (last i).type ≠ .unknown → Matches (s.caTable i) (last i) := by
    intro hup hknown
    cases h.located i with
    | own _ _ hrest => exact (hrest hup).1
    | conn k _ hlast _ _ _ _ => omega
    | enum _ hrest => exact absurd ((hrest hup).1.datatype.symm.trans (hall i)) hknown
  constructor
  · exact hflag.trans (h.connected i)
  · intro hup hknown
    have htype := (hmatch hup hknown).datatype
    exact ⟨htype, (h.datatype i).trans htype⟩
  · exact fun hup hknown => (hmatch hup hknown).value

variable [Zero K]

/-- The entry of `cdTable` takes the type of what is copied. -/
def mergedCd (cd : CdChannel K) (type : SdfType) : CdChannel K :=
  if cd.datatype ≠ type then ⟨type, .chval 0, true⟩ else { cd with connected := true }

theorem datatype_mergedCd (cd : CdChannel K) (type : SdfType) :
    (mergedCd cd type).datatype = type := by
  unfold mergedCd
  split
  case isTrue => rfl
  case isFalse h => exact not_not.mp h

theorem copyConnected_ok (src : EpicsCaTable K) (hsrc : src.chanIndex = i) :
    s.copyConnected src = .ok { s.setCa i { src with connected := true, redirIndex := -1 } with
      cdTable := Function.update s.cdTable i (mergedCd (s.cdTable i) src.datatype) } := by
  unfold CaState.copyConnected
  rw [hsrc, index_val]
  rfl

theorem Merging.mergeConn (h : Merging s last first) (hlt : first < s.chConnNum) :
    ∃ t, s.mergeConn first = .ok t ∧ Merging t last (first + 1) ∧ t.chNum = s.chNum ∧
      t.chConnNum = s.chConnNum := by
  obtain ⟨i, hi, hredir⟩ := h.inv.reserved first le_rfl hlt
  have hk : first < sdfMaxTsize := hlt.trans_le h.inv.chConnNum_le
  have hup : (last i).up = true := h.pending i (Or.inl (by omega))
  have hplace := h.inv.located i
  obtain ⟨hindex, -, -⟩ := hplace.reserved (k := ⟨first, hk⟩) hredir
  cases hplace with
  | own hown _ _ => omega
  | enum hown _ => omega
  | conn k hfirst hlast hown hindexk hunknown hrest =>
    obtain rfl : k = ⟨first, hk⟩ := Fin.ext (show k.val = first by omega)
    obtain ⟨hmatch, hknown, hevid⟩ := hrest hup
    let src : EpicsCaTable K := { s.caConnTable ⟨first, hk⟩ with connected := true }
    refine ⟨{
      (s.setConn ⟨first, hk⟩ src).setCa i { src with connected := true, redirIndex := -1 } with
      cdTable := Function.update s.cdTable i (mergedCd (s.cdTable i) src.datatype) },
      ?_, ⟨?_, ?_⟩, rfl, rfl⟩
    · unfold CaState.mergeConn
      rw [index_of_lt hk]
      exact copyConnected_ok _ hindexk
    · refine OnlyChannel.inv (i := i) ?_ h.inv hi ?_ ?_ ?_ ?_ ?_ ?_ ?_
      · exact {
          caConnTable := by
            intro j k hj hredirj hk' _
            have hne : k ≠ ⟨first, hk⟩ := by
              rintro rfl
              exact hj (h.inv.reserved_inj hredir hredirj)
            have hval : k.val ≠ first := fun heq => hne (Fin.ext heq)
            exact ⟨Nat.lt_of_le_of_ne hk' (Ne.symm hval), Function.update_of_ne hne _ _⟩
          first_le := Nat.le_succ first
          chConnNum_le := h.inv.chConnNum_le
          reserved := fun k' hk' hlt' => Or.inl ⟨hlt', by omega⟩ }
      all_goals dsimp only [CaState.setCa, CaState.setConn]
      all_goals try rw [Function.update_self]
      · exact hindexk
      · exact h.inv.enumIndex i
      · rw [datatype_mergedCd, Function.update_self]
      · rw [hup]
      · rw [hup]
        exact nofun
      · exact h.inv.determined i
      · refine .own ?_ hunknown fun _ => ⟨⟨?_, ?_⟩, hknown, hevid⟩
        all_goals dsimp only
        all_goals rw [Function.update_self]
        · exact hmatch.datatype
        · exact hmatch.value
    · intro j hpending
      by_cases hj : j = i
      · rw [hj]
        exact hup
      · dsimp only [CaState.setCa, CaState.setConn] at hpending
        rw [Function.update_of_ne hj] at hpending
        exact h.pending j hpending

/-- A pass over `caConnEnumTable` moves a channel whose type is known. -/
theorem Merging.mergeEnum (h : Merging s last 0) (hconn : s.chConnNum = 0) (hi : i < s.chNum) :
    ∃ t, s.mergeEnum i = .ok t ∧ Merging t last 0 ∧ t.chNum = s.chNum ∧ t.chConnNum = 0 ∧
      (t.caConnEnumTable i).datatype = .unknown ∧
      ∀ j, j ≠ i → t.caConnEnumTable j = s.caConnEnumTable j := by
  by_cases hunknown : (s.caConnEnumTable i).datatype = .unknown
  · refine ⟨s, ?_, h, rfl, hconn, hunknown, fun _ _ => rfl⟩
    unfold CaState.mergeEnum
    rw [index_val]
    dsimp only [bind, Except.bind]
    rw [if_neg (not_not.mpr hunknown)]
    rfl
  · have hup : (last i).up = true := h.pending i (Or.inr hunknown)
    cases h.inv.located i with
    | own _ hun _ => exact absurd hun hunknown
    | conn k _ hlast _ _ _ _ => omega
    | enum hredir hrest =>
      obtain ⟨hmatch, -⟩ := hrest hup
      have hindex := h.inv.enumIndex i
      let src : EpicsCaTable K := { s.caConnEnumTable i with connected := true }
      have hknown : (last i).type ≠ .unknown := fun hu => hunknown (hmatch.datatype.trans hu)
      let t : CaState K := ({ s.setCa i { src with redirIndex := -1 } with
        cdTable := Function.update s.cdTable i (mergedCd (s.cdTable i) src.datatype) }).setEnum i
          { src with datatype := .unknown }
      have hca : t.caTable i = { src with redirIndex := -1 } := Function.update_self ..
      have hcaj : ∀ j, j ≠ i → t.caTable j = s.caTable j := fun j hj => Function.update_of_ne hj _ _
      have henum : t.caConnEnumTable i = { src with datatype := .unknown } :=
        Function.update_self ..
      have henumj : ∀ j, j ≠ i → t.caConnEnumTable j = s.caConnEnumTable j :=
        fun j hj => Function.update_of_ne hj _ _
      have hres : t.resubscribe i = .ok (t.setEvid i (some (last i).type.chtype)) :=
        resubscribe_ok (by rw [hca]; exact hindex) (by rw [hca]; exact hmatch.datatype) hknown
      refine ⟨t.setEvid i (some (last i).type.chtype), Eq.trans ?_ hres,
        ⟨OnlyChannel.inv (i := i) ?_ h.inv hi ?_ ?_ ?_ ?_ ?_ ?_ ?_, ?_⟩, rfl, hconn, ?_, ?_⟩
      · unfold CaState.mergeEnum
        rw [index_val]
        dsimp only [bind, Except.bind]
        rw [if_pos hunknown, copyConnected_ok (s := s.setEnum i src) src hindex]
        -- the side table entry is written twice
        simp [CaState.setEnum, CaState.setCa, t, src, Function.update_idem]
      · exact {
          caTable := hcaj
          caConnEnumTable := henumj
          chConnNum_le := h.inv.chConnNum_le
          reserved := fun k _ hk => absurd (hconn ▸ hk) (Nat.not_lt_zero k) }
      all_goals dsimp only [CaState.setEvid]
      · rw [hca]
        exact hindex
      · rw [henum]
        exact hindex
      · rw [hca]
        change (Function.update s.cdTable i _ i).datatype = _
        rw [Function.update_self, datatype_mergedCd]
      · rw [hca, hup]
      · rw [hup]
        simp
      · rw [henum]
        exact fun hne => absurd rfl hne
      · refine .own ?_ ?_ fun _ => ⟨⟨?_, ?_⟩, hknown, Function.update_self ..⟩
        · rw [hca]
        · rw [henum]
        · rw [hca]
          exact hmatch.datatype
        · rw [hca]
          exact hmatch.value
      · intro j hpending
        by_cases hj : j = i
        · rw [hj]
          exact hup
        · rw [hcaj j hj, henumj j hj] at hpending
          exact h.pending j hpending
      · rw [henum]
      · exact henumj

/-- The loop over `caConnEnumTable` leaves no type there that is known. -/
theorem Merging.mergeEnums (h : Merging s last 0) (hconn : s.chConnNum = 0) :
    ∃ t, s.mergeEnums = .ok t ∧ Inv t last 0 ∧ t.chNum = s.chNum ∧ t.chConnNum = 0 ∧
      ∀ i, (t.caConnEnumTable i).datatype = .unknown := by
  have hle := h.inv.chNum_le
  unfold CaState.mergeEnums
  split
  case isFalse hdet =>
    refine ⟨s, rfl, h.inv, rfl, hconn, fun i => ?_⟩
    by_contra hne
    exact hdet (h.inv.determined i hne)
  case isTrue =>
    obtain ⟨t, ht, hmt, hnum, hconn', hdone⟩ := foldlM_range_ok
      (fun k (t : CaState K) => Merging t last 0 ∧ t.chNum = s.chNum ∧ t.chConnNum = 0 ∧
        ∀ j : Fin sdfMaxTsize, j < k → (t.caConnEnumTable j).datatype = .unknown)
      (f := CaState.mergeEnum) (n := s.chNum) (s := s)
      (by
        rintro k hk t ⟨ht, hnum, hconn, hdone⟩
        have hlt : k < sdfMaxTsize := by omega
        obtain ⟨u, hu, hmu, hnum', hconn', hself, hother⟩ :=
          ht.mergeEnum (i := ⟨k, hlt⟩) hconn (show k < t.chNum by omega)
        refine ⟨u, hu, hmu, hnum'.trans hnum, hconn', fun j hj => ?_⟩
        by_cases hjk : j = ⟨k, hlt⟩
        · rw [hjk]
          exact hself
        · have hne : j.val ≠ k := fun heq => hjk (Fin.ext heq)
          rw [hother j hjk]
          exact hdone j (by omega))
      ⟨h, rfl, hconn, fun j hj => absurd hj (Nat.not_lt_zero _)⟩
    refine ⟨t, ht, hmt.inv, hnum, hconn', fun i => ?_⟩
    by_cases hi : i < t.chNum
    · exact hdone i (by omega)
    · -- channels that are not registered stay as they are
      have hredir := hmt.inv.unregistered i (not_lt.mp hi)
      cases hmt.inv.located i with
      | own _ hunknown _ => exact hunknown
      | conn k _ _ hown _ _ _ => omega
      | enum hown _ => omega

/-- A merge brings the tables in step with the connections. -/
theorem Merging.syncCAConnections (h : Merging s last 0) :
    ∃ t, s.syncCAConnections = .ok t ∧ Inv t last 0 ∧
      ∀ i : Fin sdfMaxTsize, i < s.chNum → CaRun.Synced ⟨t, last⟩ i := by
  have hle := h.inv.chNum_le
  obtain ⟨t₁, hloop₁, hm₁, hnum₁, hconn₁⟩ := foldlM_range_ok
    (fun k t => Merging t last k ∧ t.chNum = s.chNum ∧ t.chConnNum = s.chConnNum)
    (f := CaState.mergeConn) (n := s.chConnNum) (s := s)
    (by
      rintro k hk t ⟨ht, hnum, hconn⟩
      obtain ⟨u, hu, hmu, hnum', hconn'⟩ := ht.mergeConn (hconn ▸ hk)
      exact ⟨u, hu, hmu, hnum'.trans hnum, hconn'.trans hconn⟩)
    ⟨h, rfl, rfl⟩
  rw [← hconn₁] at hm₁
  obtain ⟨t₂, hloop₂, hinv₂, hnum₂, hconn₂, hall⟩ := hm₁.emptied.mergeEnums rfl
  obtain ⟨t₃, hloop₃, hinv, hconn₃, hall₃, hflags⟩ := foldlM_range_ok
    (fun k (t : CaState K) => Inv t last 0 ∧ t.chConnNum = 0 ∧
      (∀ i, (t.caConnEnumTable i).datatype = .unknown) ∧
      ∀ j : Fin sdfMaxTsize, j < k → (t.cdTable j).connected = (t.caTable j).connected)
    (f := CaState.copyFlag) (n := t₂.chNum) (s := { t₂ with chEnumDetermined := 0 })
    (by
      rintro k hk t ⟨ht, hconn, hunknown, hdone⟩
      have hlt : k < sdfMaxTsize := hk.trans_le hinv₂.chNum_le
      obtain ⟨u, hu, hinv, -, hconn', henum, hca, hself, hother⟩ := ht.copyFlag (i := ⟨k, hlt⟩)
      refine ⟨u, hu, hinv, hconn'.trans hconn, by rwa [henum], fun j hj => ?_⟩
      by_cases hjk : j = ⟨k, hlt⟩
      · rw [hjk, hself, hca]
      · have hne : j.val ≠ k := fun heq => hjk (Fin.ext heq)
        rw [hother j hjk, hca]
        exact hdone j (by omega))
    ⟨hinv₂.resetDetermined hall, hconn₂, hall, fun j hj => absurd hj (Nat.not_lt_zero _)⟩
  refine ⟨t₃, ?_, hinv, fun i hi => hinv.synced hconn₃ hall₃ (hflags i ?_)⟩
  · unfold CaState.syncCAConnections
    rw [hloop₁]
    dsimp only [bind, Except.bind]
    rw [hloop₂]
    exact hloop₃
  · rw [hnum₂]
    change i < t₁.chNum
    rwa [hnum₁]

end Merge

end Steps

/-! ## Runs -/

section Runs

variable [Zero K]

theorem inv_start {chNum : ℕ} (h : chNum ≤ sdfMaxTsize) :
    Inv (CaRun.start chNum : CaRun K).ca (CaRun.start chNum : CaRun K).last 0 where
  chNum_le := h
  chConnNum_le := Nat.zero_le _
  chanIndex _ := rfl
  enumIndex _ := rfl
  datatype _ := rfl
  connected _ := rfl
  down _ _ := rfl
  reserved k _ hk := absurd hk (Nat.not_lt_zero k)
  unregistered _ _ := rfl
  nonneg := le_rfl
  determined _ hne := absurd rfl hne
  located _ := .own rfl rfl nofun

variable [NatCast K]

/-- An event that meets the condition finds and leaves the tables as they should be. -/
theorem CaRun.keeps_of_proper {w : CaRun K} {ev : CaEvent K} (hinv : Inv w.ca w.last 0)
    (hproper : w.Proper ev) : w.Keeps ev ∧ Inv (w.step ev).ca (w.step ev).last 0 := by
  -- it is enough to say what the tables are after the event
  suffices h : ∃ s, w.ca.step ev = .ok s ∧ Inv s (w.follow ev) 0 ∧
      (ev = .sync → ∀ i : Fin sdfMaxTsize, i < w.ca.chNum → Synced ⟨s, w.last⟩ i) by
    obtain ⟨s, hs, hinv', hsync⟩ := h
    have hstep : w.step ev = ⟨s, w.follow ev⟩ := by
      unfold step
      rw [hs]
    refine ⟨⟨⟨s, hs⟩, ?_⟩, by rwa [hstep]⟩
    intro hev
    rw [hstep]
    subst hev
    exact hsync rfl
  cases ev with
  | connect i ft =>
    unfold CaState.step follow
    dsimp only
    split
    case isFalse => exact ⟨w.ca, rfl, hinv, nofun⟩
    case isTrue hi =>
      obtain ⟨hother, henum, hevid⟩ := hproper hi
      obtain ⟨s, hs, hinv'⟩ := hinv.connectUp hi hother henum hevid
      exact ⟨s, hs, hinv', nofun⟩
  | disconnect i =>
    unfold CaState.step follow
    dsimp only
    split
    case isFalse => exact ⟨w.ca, rfl, hinv, nofun⟩
    case isTrue hi =>
      obtain ⟨s, hs, hinv'⟩ := hinv.connectDown hi
      exact ⟨s, hs, hinv', nofun⟩
  | update i args time =>
    unfold CaState.step follow
    dsimp only
    split
    case isFalse => exact ⟨w.ca, rfl, hinv, nofun⟩
    case isTrue hi =>
      obtain ⟨s, hs, hinv'⟩ := hinv.update time hi.1 hi.2 (by
        rintro value noStr strs rfl
        exact hproper hi.1 hi.2)
      exact ⟨s, hs, hinv', nofun⟩
  | sync =>
    have hpending : ∀ i : Fin sdfMaxTsize,
        (0 ≤ (w.ca.caTable i).redirIndex ∧ (w.ca.caTable i).redirIndex < sdfMaxTsize ∨
          (w.ca.caConnEnumTable i).datatype ≠ .unknown) → (w.last i).up = true := by
      intro i hi
      rw [← hinv.connected i]
      refine hproper i ?_ hi
      by_contra hlt
      have hredir := hinv.unregistered i (not_lt.mp hlt)
      cases hinv.located i with
      | own _ hunknown _ =>
        rcases hi with hi | hi
        · omega
        · exact hi hunknown
      | conn k _ _ hown _ _ _ => omega
      | enum hown _ => omega
    obtain ⟨t, ht, hinv', hsync⟩ := Merging.syncCAConnections ⟨hinv, hpending⟩
    exact ⟨t, ht, hinv', fun _ => hsync⟩

/-- In a run whose events meet the condition no index is outside of the tables, and every merge
leaves the tables in step with the connections. -/
theorem ca_tables_follow {chNum : ℕ} (hnum : chNum ≤ sdfMaxTsize) {evs : List (CaEvent K)}
    (h : StepsMeet CaRun.step CaRun.Proper (.start chNum) evs) :
    StepsMeet CaRun.step CaRun.Keeps (.start chNum) evs :=
  stepsMeet_imp (fun w => Inv w.ca w.last 0) (fun _ _ hinv => CaRun.keeps_of_proper hinv)
    (inv_start hnum) h

end Runs

/-- A channel that connects, gets a value and is merged. -/
theorem ca_tables_follow_first_value :
    StepsMeet (CaRun.step (K := ℕ)) CaRun.Keeps (.start 1)
      [.connect 0 .other, .update 0 (.timeDouble 5) 0, .sync] := by
  refine ca_tables_follow (by decide) ⟨?_, trivial, ?_, trivial⟩
  · exact fun _ => ⟨fun _ => by decide, nofun, nofun⟩
  · intro i hi _
    have hzero : i = 0 := Fin.ext (Nat.lt_one_iff.mp hi)
    subst hzero
    rfl

/-- An enum that is lost before its first value, and connects again as a number: its place in the
enum table is taken for an index of `caConnTable`. -/
theorem enum_reconnects_outside_table :
    ¬StepsMeet (CaRun.step (K := ℕ)) CaRun.Keeps (.start 1)
      [.connect 0 .enum, .disconnect 0, .connect 0 .other] := by
  rintro ⟨-, -, hkeeps, -⟩
  obtain ⟨s, hs⟩ := hkeeps.index
  have herror : ((CaRun.step (K := ℕ) (CaRun.step (.start 1) (.connect 0 .enum))
    (.disconnect 0)).ca.step (.connect 0 .other)) = .error 20000 := rfl
  rw [herror] at hs
  cases hs

end AdvLigoRts.Seq
