import AdvLigoRts.Drv.Mbuf

/-!
# What the calls do to the slots

The tags are right in every state (`WellTagged`): free slots are those without a tag, and no tag is
there twice.
-/

namespace AdvLigoRts.Drv

open PvLib.SlotTable

/-! ## One slot -/

namespace Area

variable {a : Area} {n k : ℕ}

/-- What holds of a slot in every state. -/
structure Ok (a : Area) : Prop where
  free_iff : a.kmallocArea = 0 ↔ a.mtag = .none
  size_free : a.kmallocArea = 0 → a.kmallocAreaSize = 0
  dvd : pageSize ∣ a.kmallocArea
  area_lt : a.kmallocArea < 2 ^ 64
  usage_lt : a.usageCnt < 2 ^ 32
  size_lt : a.kmallocAreaSize < 2 ^ 32

/-- The counter of a slot with an area is right if `n` allocations are not released; there are
none for a free slot. -/
def Counts (a : Area) (n : ℕ) : Prop :=
  if a.kmallocArea = 0 then n = 0 else a.usageCnt = n ∧ 0 < a.usageCnt

def up (a : Area) : Area := { a with usageCnt := (a.usageCnt + 1) % 2 ^ 32 }

def down (a : Area) : Area :=
  { a with usageCnt := if a.usageCnt = 0 then 2 ^ 32 - 1 else a.usageCnt - 1 }

/-- The slot after a release: one user less, or free. -/
def drop (a : Area) : Area := if a.down.usageCnt ≤ 0 then .free else a.down

theorem ok_free : Area.free.Ok := by
  constructor <;> simp [Area.free]

theorem Ok.up (h : a.Ok) : a.up.Ok :=
  { h with usage_lt := Nat.mod_lt _ (by decide) }

theorem Ok.down (h : a.Ok) : a.down.Ok := by
  have hlt := h.usage_lt
  refine { h with usage_lt := ?_ }
  unfold Area.down
  dsimp only
  split <;> omega

theorem Ok.drop (h : a.Ok) : a.drop.Ok := by
  unfold Area.drop
  split
  · exact ok_free
  · exact h.down

theorem mtag_drop : a.drop.mtag = .none ∨ a.drop.mtag = a.mtag := by
  unfold Area.drop
  split
  · exact Or.inl rfl
  · exact Or.inr rfl

/-- The number is determined by the slot. -/
theorem Counts.iff (h : a.Counts n) : a.Counts k ↔ k = n := by
  unfold Counts at h ⊢
  by_cases hfree : a.kmallocArea = 0
  · rw [if_pos hfree] at h ⊢
    rw [h]
  · rw [if_neg hfree] at h ⊢
    omega

theorem Counts.up_iff (h : a.Counts n) (hok : a.Ok) :
    a.up.Counts (n + 1) ↔ a.kmallocArea ≠ 0 ∧ a.usageCnt + 1 < 2 ^ 32 := by
  have hlt := hok.usage_lt
  unfold Counts at h ⊢
  unfold Area.up
  dsimp only
  by_cases hfree : a.kmallocArea = 0
  · simp [hfree]
  · rw [if_neg hfree] at h ⊢
    simp only [ne_eq, hfree, not_false_eq_true, true_and]
    omega

theorem Counts.drop_iff (h : a.Counts n) (hok : a.Ok) :
    a.drop.Counts k ↔ k + (if a.kmallocArea = 0 then 0 else 1) = n := by
  have hlt := hok.usage_lt
  have hdown : a.down.usageCnt = if a.usageCnt = 0 then 2 ^ 32 - 1 else a.usageCnt - 1 := rfl
  have harea : a.down.kmallocArea = a.kmallocArea := rfl
  unfold Counts at h ⊢
  unfold Area.drop
  by_cases hfree : a.kmallocArea = 0 <;> by_cases hzero : a.down.usageCnt ≤ 0
  · rw [if_pos hfree] at h ⊢
    rw [if_pos hzero, h]
    exact Iff.rfl
  · rw [if_pos hfree] at h ⊢
    rw [if_neg hzero, harea, if_pos hfree, h]
    exact Iff.rfl
  · rw [if_neg hfree] at h ⊢
    rw [if_pos hzero]
    change k = 0 ↔ _
    rw [if_neg h.2.ne'] at hdown
    omega
  · rw [if_neg hfree] at h ⊢
    rw [if_neg hzero, harea, if_neg hfree]
    rw [if_neg h.2.ne'] at hdown
    omega

end Area

/-! ## The tags -/

namespace Mbuf

variable {m : Mbuf} {i j : Fin maxAreas} {name : Tag} {file : Option ℕ} {a : Area}

@[simp] theorem area_setPrivateData {p : Option (Fin maxAreas)} :
    (m.setPrivateData file p).area = m.area := by
  cases file <;> rfl

@[simp] theorem area_setArea : (m.setArea i a).area = Function.update m.area i a := rfl

@[simp] theorem area_usageUp : (m.usageUp i).area = Function.update m.area i (m.area i).up := rfl

@[simp] theorem area_usageDown :
    (m.usageDown i).area = Function.update m.area i (m.area i).down := rfl

/-- What holds of the slots in every state. -/
structure WellTagged (m : Mbuf) : Prop where
  ok : ∀ i, (m.area i).Ok
  distinct : Distinct (fun i => (m.area i).mtag) .none

theorem wellTagged_init : Mbuf.init.WellTagged :=
  ⟨fun _ => Area.ok_free, distinct_const _⟩

theorem WellTagged.update {m' : Mbuf} (h : m.WellTagged) (hm : m'.area = Function.update m.area i a)
    (ha : a.Ok) (htag : a.mtag = .none ∨ ∀ j, (m.area j).mtag = a.mtag → j = i) :
    m'.WellTagged := by
  constructor
  · intro j
    rw [hm]
    by_cases hj : j = i
    · rw [hj, Function.update_self]
      exact ha
    · rw [Function.update_of_ne hj]
      exact h.ok j
  · rw [hm]
    exact h.distinct.update htag

/-- A slot that keeps its tag or loses it. -/
theorem WellTagged.update_old {m' : Mbuf} (h : m.WellTagged)
    (hm : m'.area = Function.update m.area i a) (ha : a.Ok)
    (htag : a.mtag = .none ∨ a.mtag = (m.area i).mtag) : m'.WellTagged := by
  refine h.update hm ha ?_
  by_cases hnone : a.mtag = .none
  · exact Or.inl hnone
  · right
    intro j hj
    have htag' : a.mtag = (m.area i).mtag := htag.resolve_left hnone
    have hsome : (m.area j).mtag ≠ .none := fun h0 => hnone (hj.symm.trans h0)
    exact h.distinct j i hsome (hj.trans htag')

theorem WellTagged.of_area_eq {m' : Mbuf} (h : m.WellTagged) (hm : m'.area = m.area) :
    m'.WellTagged := by
  constructor
  · rw [hm]
    exact h.ok
  · rw [hm]
    exact h.distinct

theorem WellTagged.used_iff (h : m.WellTagged) (hfind : m.findTag name = some i) :
    (m.area i).kmallocArea ≠ 0 ↔ name ≠ .none := by
  rw [Ne, (h.ok i).free_iff, lookup_some hfind]

/-- The slot found for the tag of a used slot is that slot. -/
theorem WellTagged.findTag_mtag (h : m.WellTagged) (hused : (m.area i).kmallocArea ≠ 0) :
    m.findTag (m.area i).mtag = some i := by
  rw [Ne, (h.ok i).free_iff] at hused
  exact (lookup_eq_some h.distinct hused).mpr rfl

/-! ## What the calls do to the slots -/

variable (file) in
theorem area_mbufReleaseArea_missed (hfind : m.findTag name = none) :
    (m.mbufReleaseArea name file).1.area = m.area := by
  unfold mbufReleaseArea
  rw [hfind]

variable (file) in
theorem area_mbufReleaseArea (hfind : m.findTag name = some i) :
    (m.mbufReleaseArea name file).1.area = Function.update m.area i (m.area i).drop := by
  unfold mbufReleaseArea
  rw [hfind]
  simp only [area_usageDown, Function.update_self]
  unfold Area.drop
  split
  · simp [Function.update_idem]
  · rfl

/-- The three ways in which an allocation can end, for both functions. -/
inductive Allocates (m : Mbuf) (name : Tag) (file : Option ℕ) :
    Mbuf × Option (Fin maxAreas) → Prop
  | refused : Allocates m name file (m, none)
  | shared (i : Fin maxAreas) (hfind : m.findTag name = some i) :
      Allocates m name file ((m.usageUp i).setPrivateData file (some i), some i)
  | made (i : Fin maxAreas) (hmiss : m.findTag name = none) (hfree : (m.area i).kmallocArea = 0)
      (a : Area) (hused : a.kmallocArea ≠ 0) (htag : a.mtag = name) (hone : a.usageCnt = 1)
      (hok : name ≠ .none → a.Ok) :
      Allocates m name file ((m.setArea i a).setPrivateData file (some i), some i)

theorem Allocates.pointTo {r : Mbuf × Option (Fin maxAreas)} (h : Allocates m name none r) :
    Allocates m name file (pointTo file r) := by
  cases h with
  | refused => exact .refused
  | shared i hfind => exact .shared i hfind
  | made i hmiss hfree a hused htag hone hok => exact .made i hmiss hfree a hused htag hone hok

theorem allocates_newArea {size : ℤ} {page : Fin (2 ^ 52)} (hmiss : m.findTag name = none) :
    Allocates m name none (m.newArea name size page) := by
  unfold newArea
  split
  · exact .refused
  · rename_i i hfree
    dsimp only
    split
    · exact .refused
    · rename_i hused
      refine .made i hmiss (lookup_some hfree) _ hused rfl rfl ?_
      intro hname
      have hpage := page.isLt
      constructor
      · simp [hused, hname]
      · exact fun h => absurd h hused
      · exact Dvd.intro_left _ rfl
      · dsimp only [pageSize]
        omega
      · exact Nat.one_lt_two_pow (by decide)
      · dsimp only
        omega

theorem allocates_mbufAllocateArea {size : ℤ} {page : Fin (2 ^ 52)} :
    Allocates m name file (m.mbufAllocateArea name size file page) := by
  unfold mbufAllocateArea
  cases hfind : m.findTag name with
  | some i => exact .shared i hfind
  | none => exact (allocates_newArea hfind).pointTo

theorem allocates_mbufAllocateAreaSafe {size : ℤ} {page : Fin (2 ^ 52)} :
    Allocates m name file (m.mbufAllocateAreaSafe name size file page) := by
  unfold mbufAllocateAreaSafe allocateAreaSafe
  split
  · exact .refused
  · cases hfind : m.findTag name with
    | some i =>
      dsimp only
      split
      · exact .refused
      · exact .shared i hfind
    | none => exact (allocates_newArea hfind).pointTo

/-- The slot with the tag is taken if there is one. -/
theorem mbufAllocateArea_found {size : ℤ} {page : Fin (2 ^ 52)} (hfind : m.findTag name = some i) :
    (m.mbufAllocateArea name size file page).2 = some i := by
  unfold mbufAllocateArea
  rw [hfind]
  rfl

theorem mbufAllocateAreaSafe_found {size : ℤ} {page : Fin (2 ^ 52)}
    (hfind : m.findTag name = some i) :
    (m.mbufAllocateAreaSafe name size file page).2 = some i ↔
      0 < size ∧ (size % 2 ^ 32).toNat ≤ (m.area i).kmallocAreaSize := by
  unfold mbufAllocateAreaSafe allocateAreaSafe
  rw [hfind]
  by_cases hpos : size ≤ 0
  · simp [hpos]
  · rw [if_neg hpos]
    dsimp only
    by_cases hfits : (m.area i).kmallocAreaSize < (size % 2 ^ 32).toNat
    · rw [if_pos hfits]
      constructor
      · intro h
        cases h
      · intro h
        exact absurd hfits (not_lt.mpr h.2)
    · rw [if_neg hfits]
      exact ⟨fun _ => ⟨not_le.mp hpos, not_lt.mp hfits⟩, fun _ => rfl⟩

theorem ioctlDeallocate_fst {f : ℕ} :
    (m.ioctlDeallocate f name).1 = (m.mbufReleaseArea name (some f)).1 := by
  unfold ioctlDeallocate
  dsimp only
  split <;> rfl

theorem WellTagged.allocates {r : Mbuf × Option (Fin maxAreas)} (h : m.WellTagged)
    (hr : Allocates m name file r) : r.1.WellTagged := by
  cases hr with
  | refused => exact h
  | shared i hfind =>
    refine h.update_old (a := (m.area i).up) (by simp) (h.ok i).up (Or.inr rfl)
  | made i hmiss hfree a hused htag hone hok =>
    have hname : name ≠ .none := by
      rintro rfl
      exact lookup_eq_none.mp hmiss i ((h.ok i).free_iff.mp hfree)
    refine h.update (i := i) (a := a) (by simp) (hok hname) (Or.inr fun j hj => ?_)
    exact absurd (hj.trans htag) (lookup_eq_none.mp hmiss j)

theorem WellTagged.mbufReleaseArea (h : m.WellTagged) :
    (m.mbufReleaseArea name file).1.WellTagged := by
  cases hfind : m.findTag name with
  | none => exact h.of_area_eq (area_mbufReleaseArea_missed _ hfind)
  | some i => exact h.update_old (area_mbufReleaseArea _ hfind) (h.ok i).drop Area.mtag_drop

theorem WellTagged.mbufRelease {f : ℕ} (h : m.WellTagged) : (m.mbufRelease f).WellTagged := by
  unfold Mbuf.mbufRelease
  dsimp only
  split
  · exact h.mbufReleaseArea.of_area_eq rfl
  · exact h.of_area_eq rfl

/-- The slot with an area to whose tag `private_data` points. -/
def pointed (m : Mbuf) (f : ℕ) : Option (Fin maxAreas) :=
  match m.privateData f with
  | some (some p) => if (m.area p).kmallocArea = 0 then none else some p
  | _ => none

/-- What a close does to the slots: the one pointed to has one user less. -/
theorem area_mbufRelease {f : ℕ} {n k : ℕ} (h : m.WellTagged) (hn : (m.area j).Counts n) :
    ((m.mbufRelease f).area j).Counts k ↔ k + (if m.pointed f = some j then 1 else 0) = n := by
  have hsame : (m.area j).Counts k ↔ k + 0 = n := hn.iff
  have hnone : m.privateData f = none ∨ m.privateData f = some none →
      (((m.mbufRelease f).area j).Counts k ↔ k + (if m.pointed f = some j then 1 else 0) = n) := by
    intro hdata
    have hpointed : m.pointed f = none := by
      unfold pointed
      rcases hdata with h | h <;> rw [h]
    have harea : (m.mbufRelease f).area = m.area := by
      unfold mbufRelease
      rcases hdata with h | h <;> rw [h]
    rw [hpointed, harea, if_neg (by simp)]
    exact hsame
  rcases hdata : m.privateData f with _ | _ | p
  · exact hnone (Or.inl hdata)
  · exact hnone (Or.inr hdata)
  have hpointed : m.pointed f = if (m.area p).kmallocArea = 0 then none else some p := by
    unfold pointed
    rw [hdata]
  have harea : (m.mbufRelease f).area = (m.mbufReleaseArea (m.area p).mtag (some f)).1.area := by
    unfold mbufRelease
    rw [hdata]
  rw [harea, hpointed]
  by_cases hfree : (m.area p).kmallocArea = 0
  · rw [if_pos hfree, if_neg (by simp)]
    cases hfind : m.findTag (m.area p).mtag with
    | none =>
      rw [area_mbufReleaseArea_missed _ hfind]
      exact hsame
    | some i =>
      rw [area_mbufReleaseArea _ hfind]
      have hi : (m.area i).kmallocArea = 0 := by
        rw [(h.ok i).free_iff, lookup_some hfind, ← (h.ok p).free_iff]
        exact hfree
      by_cases hji : j = i
      · subst hji
        rw [Function.update_self, hn.drop_iff (h.ok j), if_pos hi]
      · rw [Function.update_of_ne hji]
        exact hsame
  · rw [if_neg hfree, area_mbufReleaseArea _ (h.findTag_mtag hfree)]
    by_cases hjp : j = p
    · subst hjp
      rw [Function.update_self, hn.drop_iff (h.ok j), if_neg hfree, if_pos rfl]
    · rw [Function.update_of_ne hjp, if_neg (by simpa using Ne.symm hjp)]
      exact hsame

theorem pointed_eq_some {f : ℕ} {p : Fin maxAreas} :
    m.pointed f = some p ↔ m.privateData f = some (some p) ∧ (m.area p).kmallocArea ≠ 0 := by
  unfold pointed
  rcases m.privateData f with _ | _ | q
  · simp
  · simp
  · dsimp only
    split <;> rename_i hq
    · simp only [reduceCtorEq, false_iff, not_and, not_not, Option.some.injEq]
      rintro rfl
      exact hq
    · simp only [Option.some.injEq]
      constructor
      · rintro rfl
        exact ⟨rfl, hq⟩
      · exact And.left

/-- When an area is mapped: the range fits, and the offset passes the checks. -/
theorem mmapKmem_eq_ok {pos : ℕ} {vma : Vma} (h : m.WellTagged) :
    m.mmapKmem i vma = .ok pos ↔
      vma.length ≤ (m.area i).kmallocAreaSize ∧ vma.vmPgoff ≤ (2 ^ 64 - 1) / pageSize ∧
        (vma.length + vma.vmPgoff * pageSize) % 2 ^ 64 ≤ vma.length ∧
        ((m.area i).kmallocArea + vma.vmPgoff * pageSize) % 2 ^ 64 = pos := by
  -- the checks of alignment never fail
  have hend : vma.length % pageSize = 0 :=
    Nat.mod_eq_zero_of_dvd (Nat.dvd_sub vma.end_dvd vma.start_dvd)
  have hstart : vma.vmStart % pageSize = 0 := Nat.mod_eq_zero_of_dvd vma.start_dvd
  have hdvd : ((m.area i).kmallocArea + vma.vmPgoff * pageSize) % 2 ^ 64 % pageSize = 0 := by
    have hsum : pageSize ∣ (m.area i).kmallocArea + vma.vmPgoff * pageSize :=
      Nat.dvd_add (h.ok i).dvd (Dvd.intro_left _ rfl)
    rw [Nat.mod_mod_of_dvd _ (by decide : pageSize ∣ 2 ^ 64)]
    exact Nat.mod_eq_zero_of_dvd hsum
  have herror : ∀ {e : ℤ}, (Except.error e : Except ℤ ℕ) ≠ .ok pos := fun h => nomatch h
  unfold mmapKmem
  split
  case isTrue hsize =>
    exact ⟨fun h => absurd h herror, fun h => absurd hsize (not_lt.mpr h.1)⟩
  case isFalse hsize =>
    unfold rvmmap
    split
    case isTrue hoff =>
      exact ⟨fun h => absurd h herror, fun h => absurd hoff (not_lt.mpr h.2.1)⟩
    case isFalse hoff =>
      dsimp only
      rw [show vma.vmEnd - vma.vmStart = vma.length from rfl]
      split
      case isTrue hover =>
        exact ⟨fun h => absurd h herror, fun h => absurd hover (not_lt.mpr h.2.2.1)⟩
      case isFalse hover =>
        have haligned : ¬(
            ((m.area i).kmallocArea + vma.vmPgoff * pageSize) % 2 ^ 64 % pageSize ≠ 0 ∨
            vma.vmStart % pageSize ≠ 0 ∨ vma.length % pageSize ≠ 0) := by
          rw [hdvd, hstart, hend]
          simp
        rw [if_neg haligned, Except.ok.injEq]
        exact ⟨fun h => ⟨not_lt.mp hsize, not_lt.mp hoff, not_lt.mp hover, h⟩, fun h => h.2.2.2⟩

/-- When `mmap` succeeds. A stale pointer leads to a free slot, which is too small. -/
theorem mbufMmap_eq_ok {f pos : ℕ} {vma : Vma} (h : m.WellTagged) :
    m.mbufMmap f vma = .ok pos ↔
      ∃ p, m.pointed f = some p ∧ m.mmapKmem p vma = .ok pos := by
  unfold mbufMmap
  rcases hdata : m.privateData f with _ | _ | p
  · simp [pointed_eq_some, hdata]
  · simp [pointed_eq_some, hdata]
  dsimp only
  by_cases hfree : (m.area p).kmallocArea = 0
  · have hnot : ∀ q, m.pointed f ≠ some q := by
      intro q hq
      rw [pointed_eq_some, hdata] at hq
      obtain ⟨hpq, hq⟩ := hq
      cases hpq
      exact hq hfree
    cases hfind : m.findTag (m.area p).mtag with
    | none => simp [hnot]
    | some i =>
      have hi : (m.area i).kmallocArea = 0 := by
        rw [(h.ok i).free_iff, lookup_some hfind, ← (h.ok p).free_iff]
        exact hfree
      have hlen : 0 < vma.length := Nat.sub_pos_of_lt vma.lt
      dsimp only
      rw [mmapKmem_eq_ok h, (h.ok i).size_free hi]
      simp [hnot, hlen.ne']
  · rw [h.findTag_mtag hfree]
    dsimp only
    have hp : m.pointed f = some p := pointed_eq_some.mpr ⟨hdata, hfree⟩
    simp [hp]

variable (name file) in
theorem privateData_mbufReleaseArea {f : ℕ} {p : Fin maxAreas}
    (h : (m.mbufReleaseArea name file).1.privateData f = some (some p)) :
    m.privateData f = some (some p) := by
  unfold mbufReleaseArea at h
  split at h
  · exact h
  · dsimp only at h
    split at h
    · cases file with
      | none => exact h
      | some g =>
        change Function.update m.privateData g (some none) f = some (some p) at h
        by_cases hfg : f = g
        · rw [hfg, Function.update_self] at h
          cases h
        · rwa [Function.update_of_ne hfg] at h
    · exact h

end Mbuf

end AdvLigoRts.Drv
