import AdvLigoRts.Drv.MbufTheorems
import AdvLigoRts.Lib.Machine

/-!
# Areas live as long as they are held

Whether the counters are right depends on the calls. A call keeps them right, frees and maps what
it should, exactly if `Proper` holds before it; a run keeps the areas exactly if all of its calls
meet `Proper`.
-/

namespace AdvLigoRts.Drv

open PvLib PvLib.SlotTable PvLib.Ledger

/-! ## The counters -/

namespace MbufRun

variable {w w' : MbufRun} {h : Holder} {i : Fin maxAreas} {name : Tag} {file : Option ℕ}

/-- What is to hold in every state. -/
structure Held (w : MbufRun) : Prop where
  tagged : ∀ i, (w.mbuf.area i).kmallocArea ≠ 0 ↔ (w.mbuf.area i).mtag ≠ .none
  distinct : Distinct (fun i => (w.mbuf.area i).mtag) .none
  counted : ∀ i, (w.mbuf.area i).kmallocArea ≠ 0 →
    (w.mbuf.area i).usageCnt = holding w.ledger i ∧ 0 < (w.mbuf.area i).usageCnt
  live : ∀ h i, (h, i) ∈ w.ledger → (w.mbuf.area i).kmallocArea ≠ 0

/-- With the tags right, what is left to show is one fact for each slot. -/
theorem held_iff (hw : w.mbuf.WellTagged) :
    w.Held ↔ ∀ i, (w.mbuf.area i).Counts (holding w.ledger i) := by
  constructor
  · intro hheld i
    unfold Area.Counts
    split
    case isTrue hfree =>
      rw [holding_eq_zero]
      exact fun h hmem => hheld.live h i hmem hfree
    case isFalse hused => exact hheld.counted i hused
  · intro hcounts
    refine ⟨fun i => not_congr (hw.ok i).free_iff, hw.distinct, ?_, ?_⟩
    · intro i hused
      have hi := hcounts i
      unfold Area.Counts at hi
      rwa [if_neg hused] at hi
    · intro h i hmem hfree
      have hi := hcounts i
      unfold Area.Counts at hi
      rw [if_pos hfree, holding_eq_zero] at hi
      exact hi h hmem

variable (w') in
/-- A call that changes one slot and the holdings of that slot alone. -/
theorem held_update {a : Area} (hw : w.mbuf.WellTagged) (hw' : w'.mbuf.WellTagged) (hheld : w.Held)
    (harea : w'.mbuf.area = Function.update w.mbuf.area i a)
    (hother : ∀ j, j ≠ i → holding w'.ledger j = holding w.ledger j) :
    w'.Held ↔ a.Counts (holding w'.ledger i) := by
  rw [held_iff hw', harea]
  constructor
  · intro hcounts
    have hi := hcounts i
    rwa [Function.update_self] at hi
  · intro ha j
    by_cases hj : j = i
    · subst hj
      rwa [Function.update_self]
    · rw [Function.update_of_ne hj, hother j hj]
      exact (held_iff hw).mp hheld j

/-- An allocation keeps the counters right unless it counts one more user of a free slot or of
one whose counter is full. -/
theorem held_took {r : Mbuf × Option (Fin maxAreas)} (hw : w.mbuf.WellTagged) (hheld : w.Held)
    (hr : Mbuf.Allocates w.mbuf name file r) :
    (w.took h r).Held ↔ ∀ i, w.mbuf.findTag name = some i → r.2 = some i →
      name ≠ .none ∧ (w.mbuf.area i).usageCnt + 1 < 2 ^ 32 := by
  have hw' := hw.allocates hr
  have hother : ∀ i j, j ≠ i → holding ((h, i) :: w.ledger) j = holding w.ledger j := by
    intro i j hj
    rw [holding_cons, if_neg (Ne.symm hj), Nat.add_zero]
  have hself : ∀ i, holding ((h, i) :: w.ledger) i = holding w.ledger i + 1 := by
    intro i
    rw [holding_cons, if_pos rfl]
  cases hr with
  | refused => exact ⟨fun _ i _ hi => (nomatch hi), fun _ => hheld⟩
  | shared i hfind =>
    have hcounts := (held_iff hw).mp hheld i
    have hiff : (w.took h ((w.mbuf.usageUp i).setPrivateData file (some i), some i)).Held ↔ _ :=
      held_update _ (a := (w.mbuf.area i).up) hw hw' hheld (by simp [took]) (hother i)
    rw [hiff]
    change Area.Counts _ (holding ((h, i) :: w.ledger) i) ↔ _
    rw [hself, hcounts.up_iff (hw.ok i), hw.used_iff hfind]
    constructor
    · rintro hok j hj -
      rw [hfind, Option.some.injEq] at hj
      exact hj ▸ hok
    · intro hall
      exact hall i hfind rfl
  | made i hmiss hfree a hused htag hone hok =>
    have hcounts := (held_iff hw).mp hheld i
    unfold Area.Counts at hcounts
    rw [if_pos hfree] at hcounts
    have hiff : (w.took h ((w.mbuf.setArea i a).setPrivateData file (some i), some i)).Held ↔ _ :=
      held_update _ (a := a) hw hw' hheld (by simp [took]) (hother i)
    rw [hiff]
    change Area.Counts _ (holding ((h, i) :: w.ledger) i) ↔ _
    rw [hself, hcounts]
    unfold Area.Counts
    rw [if_neg hused, hone]
    simp [hmiss]

/-- A release keeps them right if the holder has an allocation of the area, or the name is empty,
which does nothing to areas. -/
theorem held_gaveBack (hw : w.mbuf.WellTagged) (hheld : w.Held) :
    (w.gaveBack h name (w.mbuf.mbufReleaseArea name file).1).Held ↔
      (name ≠ .none → ∀ i, w.mbuf.findTag name = some i → (h, i) ∈ w.ledger) := by
  have hw' : (w.mbuf.mbufReleaseArea name file).1.WellTagged := hw.mbufReleaseArea
  cases hfind : w.mbuf.findTag name with
  | none =>
    have harea := Mbuf.area_mbufReleaseArea_missed file hfind
    unfold gaveBack
    rw [hfind]
    refine ⟨fun _ _ i hi => (nomatch hi), fun _ => ?_⟩
    rw [held_iff hw']
    dsimp only
    rw [harea]
    exact (held_iff hw).mp hheld
  | some i =>
    have harea := Mbuf.area_mbufReleaseArea file hfind
    have hcounts := (held_iff hw).mp hheld i
    have hused := hw.used_iff hfind
    unfold gaveBack
    rw [hfind]
    dsimp only
    by_cases hmem : (h, i) ∈ w.ledger
    · have hother : ∀ j, j ≠ i → holding (w.ledger.erase (h, i)) j = holding w.ledger j := by
        intro j hj
        rw [holding_erase hmem (r := j), if_neg (Ne.symm hj), Nat.add_zero]
      rw [held_update ⟨_, _, _⟩ hw hw' hheld harea hother, hcounts.drop_iff (hw.ok i),
        if_neg (hheld.live h i hmem)]
      constructor
      · rintro - - j hj
        cases hj
        exact hmem
      · intro _
        rw [holding_erase hmem, if_pos rfl]
    · rw [List.erase_of_not_mem hmem,
        held_update ⟨_, _, _⟩ hw hw' hheld harea (fun _ _ => rfl),
        hcounts.drop_iff (hw.ok i)]
      constructor
      · intro hsame hname
        rw [if_neg (hused.mpr hname)] at hsame
        exact absurd hsame (Nat.succ_ne_self _)
      · intro hall
        have hname : name = .none := by
          by_contra hname
          exact hmem (hall hname i rfl)
        rw [if_pos (not_not.mp (mt hused.mp (not_not.mpr hname))), Nat.add_zero]

/-- A close keeps them right if the file holds one allocation of the area its pointer leads to,
and nothing else; or nothing at all, if the pointer leads to no area. -/
theorem held_close {f : ℕ} (hw : w.mbuf.WellTagged) (hheld : w.Held) :
    (⟨w.mbuf.mbufRelease f, w.allocated, leave w.ledger (.file f)⟩ : MbufRun).Held ↔
      heldBy w.ledger (.file f) = (w.mbuf.pointed f).toList := by
  have hslot : ∀ j, ((w.mbuf.mbufRelease f).area j).Counts (holding (leave w.ledger (.file f)) j) ↔
      (heldBy w.ledger (.file f)).count j = if w.mbuf.pointed f = some j then 1 else 0 := by
    intro j
    have hleave := holding_leave (l := w.ledger) (h := .file f) (r := j)
    rw [Mbuf.area_mbufRelease hw ((held_iff hw).mp hheld j)]
    omega
  rw [held_iff hw.mbufRelease]
  dsimp only
  simp only [hslot]
  have hcount : ∀ j, (w.mbuf.pointed f).toList.count j =
      if w.mbuf.pointed f = some j then 1 else 0 := by
    intro j
    cases w.mbuf.pointed f <;> simp [List.count_singleton]
  constructor
  · intro hall
    have hperm : (heldBy w.ledger (.file f)).Perm (w.mbuf.pointed f).toList :=
      List.perm_iff_count.mpr fun j => (hall j).trans (hcount j).symm
    cases hp : w.mbuf.pointed f with
    | none =>
      rw [hp] at hperm
      exact hperm.eq_nil
    | some p =>
      rw [hp] at hperm
      exact List.perm_singleton.mp hperm
  · intro heq j
    rw [heq, hcount]

/-! ## Runs -/

def lastAllocated (w : MbufRun) (f : ℕ) : Option (Fin maxAreas) :=
  (heldBy w.allocated (.file f)).head?

/-- What holds after any calls: the tags are right, and a file points to what it allocated last. -/
structure Ok (w : MbufRun) : Prop where
  tagged : w.mbuf.WellTagged
  pointer : ∀ f p, w.mbuf.privateData f = some (some p) → w.lastAllocated f = some p

theorem ok_init : init.Ok :=
  ⟨Mbuf.wellTagged_init, fun _ _ hp => (nomatch hp)⟩

theorem lastAllocated_cons {m : Mbuf} {l : List (Holder × Fin maxAreas)} (f : ℕ) :
    (⟨m, (h, i) :: w.allocated, l⟩ : MbufRun).lastAllocated f =
      if h = .file f then some i else w.lastAllocated f := by
  unfold lastAllocated heldBy
  by_cases hh : h = .file f <;> simp [hh]

/-- The pointer that is set is that of the holder, if it is a file. -/
theorem Ok.took {r : Mbuf × Option (Fin maxAreas)} (hw : w.Ok)
    (hr : Mbuf.Allocates w.mbuf name file r) (hfile : ∀ f, h = .file f ↔ file = some f) :
    (w.took h r).Ok := by
  have hpointer : ∀ (m : Mbuf) (l : List (Holder × Fin maxAreas)) (i : Fin maxAreas),
      m.privateData = w.mbuf.privateData → ∀ f p,
      (m.setPrivateData file (some i)).privateData f = some (some p) →
      (⟨m, (h, i) :: w.allocated, l⟩ : MbufRun).lastAllocated f = some p := by
    intro m l i hsame f p hp
    rw [lastAllocated_cons]
    by_cases hf : file = some f
    · subst hf
      change Function.update m.privateData f (some (some i)) f = some (some p) at hp
      rw [Function.update_self] at hp
      cases hp
      rw [if_pos ((hfile f).mpr rfl)]
    · rw [if_neg (mt (hfile f).mp hf)]
      apply hw.pointer
      cases file with
      | none => exact hsame ▸ hp
      | some g =>
        change Function.update m.privateData g (some (some i)) f = some (some p) at hp
        rw [Function.update_of_ne (fun hfg => hf (congrArg some hfg.symm))] at hp
        exact hsame ▸ hp
  have htagged := hw.tagged.allocates hr
  cases hr with
  | refused => exact hw
  | shared i hfind => exact ⟨htagged, hpointer _ ((h, i) :: w.ledger) i rfl⟩
  | made i hmiss hfree a hused htag hone hok =>
    exact ⟨htagged, hpointer _ ((h, i) :: w.ledger) i rfl⟩

theorem Ok.gaveBack (hw : w.Ok) :
    (w.gaveBack h name (w.mbuf.mbufReleaseArea name file).1).Ok := by
  have hpointer := fun f p h => hw.pointer f p (Mbuf.privateData_mbufReleaseArea name file
    h)
  unfold MbufRun.gaveBack
  split
  · exact ⟨hw.tagged.mbufReleaseArea, hpointer⟩
  · exact ⟨hw.tagged.mbufReleaseArea, hpointer⟩

theorem Ok.step (hw : w.Ok) (ev : MbufEvent) : (w.step ev).Ok := by
  cases ev with
  | opens f =>
    unfold MbufRun.step
    dsimp only
    split
    · exact hw
    · refine ⟨hw.tagged.of_area_eq rfl, fun g p hp => ?_⟩
      dsimp only at hp
      by_cases hg : g = f
      · rw [hg, Function.update_self] at hp
        cases hp
      · rw [Function.update_of_ne hg] at hp
        exact hw.pointer g p hp
  | allocates f name size page =>
    unfold MbufRun.step
    dsimp only
    split
    · exact hw.took Mbuf.allocates_mbufAllocateArea fun g => by simp
    · exact hw
  | deallocates f name =>
    unfold MbufRun.step
    dsimp only
    split
    · rw [Mbuf.ioctlDeallocate_fst]
      exact hw.gaveBack
    · exact hw
  | mmaps f vma => exact hw
  | closes f =>
    unfold MbufRun.step
    dsimp only
    split
    · refine ⟨hw.tagged.mbufRelease, fun g p hp => ?_⟩
      unfold Mbuf.mbufRelease at hp
      dsimp only at hp
      by_cases hg : g = f
      · rw [hg, Function.update_self] at hp
        cases hp
      · rw [Function.update_of_ne hg] at hp
        split at hp
        · exact hw.pointer g p (Mbuf.privateData_mbufReleaseArea _ _ hp)
        · exact hw.pointer g p hp
    · exact hw
  | moduleAllocates k name size page =>
    exact hw.took Mbuf.allocates_mbufAllocateArea fun g => by simp
  | moduleAllocatesSafe k name size page =>
    exact hw.took Mbuf.allocates_mbufAllocateAreaSafe fun g => by simp
  | moduleReleases k name => exact hw.gaveBack

/-- What a call is to do: the areas stay right, only what nobody holds any more is freed, a close
undoes what its file still holds, and `mmap` maps what its file allocated last and still holds. -/
structure Keeps (w : MbufRun) (ev : MbufEvent) : Prop where
  held : (w.step ev).Held
  freed : ∀ i, (w.mbuf.area i).kmallocArea ≠ 0 → ((w.step ev).mbuf.area i).kmallocArea = 0 →
    holding (w.step ev).ledger i = 0
  closed : ∀ f, ev = .closes f → w.isOpen f → ∀ i, (w.mbuf.area i).kmallocArea ≠ 0 →
    (w.mbuf.area i).usageCnt = (heldBy w.ledger (.file f)).count i +
      if ((w.step ev).mbuf.area i).kmallocArea = 0 then 0 else ((w.step ev).mbuf.area i).usageCnt
  mapped : ∀ f vma, ev = .mmaps f vma → ∀ pos, w.mbuf.mbufMmap f vma = .ok pos →
    ∃ p, w.lastAllocated f = some p ∧ (.file f, p) ∈ w.ledger ∧
      (w.mbuf.area p).kmallocArea ≤ pos ∧
      pos + vma.length ≤ (w.mbuf.area p).kmallocArea + (w.mbuf.area p).kmallocAreaSize

/-- A slot found for the name can be counted up. -/
def Sharable (w : MbufRun) (name : Tag) : Prop :=
  ∀ i, w.mbuf.findTag name = some i → name ≠ .none ∧ (w.mbuf.area i).usageCnt + 1 < 2 ^ 32

def Releasable (w : MbufRun) (h : Holder) (name : Tag) : Prop :=
  name ≠ .none → ∀ i, w.mbuf.findTag name = some i → (h, i) ∈ w.ledger

/-- The condition on a call. -/
def Proper (w : MbufRun) : MbufEvent → Prop
  | .opens _ => True
  | .allocates f name _ _ => w.isOpen f → w.Sharable name
  | .deallocates f name => w.isOpen f → w.Releasable (.file f) name
  | .mmaps f vma =>
    ∀ p, w.mbuf.pointed f = some p → vma.length ≤ (w.mbuf.area p).kmallocAreaSize →
      vma.vmPgoff ≤ (2 ^ 64 - 1) / pageSize →
      vma.length + vma.vmPgoff * pageSize < 2 ^ 64 ∧ (vma.vmPgoff = 0 → (.file f, p) ∈ w.ledger)
  | .closes f => w.isOpen f → heldBy w.ledger (.file f) = (w.mbuf.pointed f).toList
  | .moduleAllocates _ name _ _ => w.Sharable name
  | .moduleAllocatesSafe _ name size _ =>
    ∀ i, w.mbuf.findTag name = some i → 0 < size →
      (size % 2 ^ 32).toNat ≤ (w.mbuf.area i).kmallocAreaSize →
      name ≠ .none ∧ (w.mbuf.area i).usageCnt + 1 < 2 ^ 32
  | .moduleReleases k name => w.Releasable (.module k) name

/-- The state after a call is right exactly if the condition holds, apart from `mmap`, which
changes nothing. -/
theorem held_step_iff (hw : w.Ok) (hheld : w.Held) {ev : MbufEvent}
    (hmap : ∀ f vma, ev ≠ .mmaps f vma) : (w.step ev).Held ↔ w.Proper ev := by
  have hskip : ∀ {b : Bool} {P : Prop}, ¬b = true → (w.Held ↔ (b = true → P)) :=
    fun hb => ⟨fun _ hb' => absurd hb' hb, fun _ => hheld⟩
  cases ev with
  | opens f =>
    unfold step
    dsimp only
    split
    · exact ⟨fun _ => trivial, fun _ => hheld⟩
    · exact ⟨fun _ => trivial, fun _ => { hheld with }⟩
  | allocates f name size page =>
    unfold step
    dsimp only
    split
    case isFalse hopen => exact hskip hopen
    case isTrue hopen =>
      rw [held_took hw.tagged hheld Mbuf.allocates_mbufAllocateArea]
      exact ⟨fun h _ i hi => h i hi (Mbuf.mbufAllocateArea_found hi), fun h i hi _ => h hopen i hi⟩
  | deallocates f name =>
    unfold step
    dsimp only
    split
    case isFalse hopen => exact hskip hopen
    case isTrue hopen =>
      rw [Mbuf.ioctlDeallocate_fst, held_gaveBack hw.tagged hheld]
      exact ⟨fun h _ => h, fun h => h hopen⟩
  | mmaps f vma => exact absurd rfl (hmap f vma)
  | closes f =>
    unfold step
    dsimp only
    split
    case isFalse hopen => exact hskip hopen
    case isTrue hopen =>
      rw [held_close hw.tagged hheld]
      exact ⟨fun h _ => h, fun h => h hopen⟩
  | moduleAllocates k name size page =>
    unfold step
    rw [held_took hw.tagged hheld Mbuf.allocates_mbufAllocateArea]
    exact ⟨fun h i hi => h i hi (Mbuf.mbufAllocateArea_found hi), fun h i hi _ => h i hi⟩
  | moduleAllocatesSafe k name size page =>
    unfold step
    rw [held_took hw.tagged hheld Mbuf.allocates_mbufAllocateAreaSafe]
    constructor
    · intro h i hi hpos hfits
      exact h i hi ((Mbuf.mbufAllocateAreaSafe_found hi).mpr ⟨hpos, hfits⟩)
    · intro h i hi hres
      obtain ⟨hpos, hfits⟩ := (Mbuf.mbufAllocateAreaSafe_found hi).mp hres
      exact h i hi hpos hfits
  | moduleReleases k name =>
    unfold step
    exact held_gaveBack hw.tagged hheld

theorem Held.freed (h : w.Held) (hfree : (w.mbuf.area i).kmallocArea = 0) :
    holding w.ledger i = 0 :=
  holding_eq_zero.mpr fun h' hmem => h.live h' i hmem hfree

/-- In the states before and after a close the counters differ by what the file held. -/
theorem Held.closed {f : ℕ} (hheld : w.Held) (hopen : w.isOpen f) (h : (w.step (.closes f)).Held)
    (hused : (w.mbuf.area i).kmallocArea ≠ 0) :
    (w.mbuf.area i).usageCnt = (heldBy w.ledger (.file f)).count i +
      if ((w.step (.closes f)).mbuf.area i).kmallocArea = 0 then 0
      else ((w.step (.closes f)).mbuf.area i).usageCnt := by
  have hledger : (w.step (.closes f)).ledger = leave w.ledger (.file f) := by
    unfold step
    dsimp only
    rw [if_pos hopen]
  have hleave := holding_leave (l := w.ledger) (h := .file f) (r := i)
  rw [← hledger] at hleave
  rw [(hheld.counted i hused).1, hleave, Nat.add_comm]
  congr 1
  split
  case isTrue hfree => exact h.freed hfree
  case isFalse hused' => exact (h.counted i hused').1.symm

/-- `mmap` maps the area that is pointed to. -/
theorem mapped_iff {f : ℕ} {vma : Mbuf.Vma} (hw : w.Ok) :
    (∀ pos, w.mbuf.mbufMmap f vma = .ok pos →
      ∃ p, w.lastAllocated f = some p ∧ (.file f, p) ∈ w.ledger ∧
        (w.mbuf.area p).kmallocArea ≤ pos ∧
        pos + vma.length ≤ (w.mbuf.area p).kmallocArea + (w.mbuf.area p).kmallocAreaSize) ↔
      w.Proper (.mmaps f vma) := by
  have hlen : 0 < vma.length := Nat.sub_pos_of_lt vma.lt
  have hlen_lt : vma.length < 2 ^ 63 := lt_of_le_of_lt (Nat.sub_le _ _) vma.end_lt
  have hlast : ∀ p, w.mbuf.pointed f = some p → w.lastAllocated f = some p :=
    fun p hp => hw.pointer f p (Mbuf.pointed_eq_some.mp hp).1
  constructor
  · intro hmap p hp hsize hoff
    have hmem := (hw.tagged.ok p).area_lt
    have hsize_lt := (hw.tagged.ok p).size_lt
    -- what is mapped if the checks of the offset are passed
    have hpos : (vma.length + vma.vmPgoff * pageSize) % 2 ^ 64 ≤ vma.length →
        (.file f, p) ∈ w.ledger ∧
        (w.mbuf.area p).kmallocArea ≤
          ((w.mbuf.area p).kmallocArea + vma.vmPgoff * pageSize) % 2 ^ 64 ∧
        ((w.mbuf.area p).kmallocArea + vma.vmPgoff * pageSize) % 2 ^ 64 + vma.length ≤
          (w.mbuf.area p).kmallocArea + (w.mbuf.area p).kmallocAreaSize := by
      intro hover
      have hok := (Mbuf.mmapKmem_eq_ok hw.tagged).mpr ⟨hsize, hoff, hover, rfl⟩
      obtain ⟨q, hq, hrest⟩ := hmap _ ((Mbuf.mbufMmap_eq_ok hw.tagged).mpr ⟨p, hp, hok⟩)
      rw [hlast p hp, Option.some.injEq] at hq
      exact hq ▸ hrest
    unfold pageSize at *
    constructor
    · by_contra hwrap
      obtain ⟨-, hlow, hhigh⟩ := hpos (by omega)
      omega
    · intro hzero
      rw [hzero] at hpos
      exact (hpos (by omega)).1
  · intro hproper pos hok
    obtain ⟨p, hp, hok⟩ := (Mbuf.mbufMmap_eq_ok hw.tagged).mp hok
    obtain ⟨hsize, hoff, hover, rfl⟩ := (Mbuf.mmapKmem_eq_ok hw.tagged).mp hok
    obtain ⟨hwrap, hheld⟩ := hproper p hp hsize hoff
    have hmem := (hw.tagged.ok p).area_lt
    rw [Nat.mod_eq_of_lt hwrap] at hover
    have hzero : vma.vmPgoff = 0 := by
      unfold pageSize at hover
      omega
    refine ⟨p, hlast p hp, hheld hzero, ?_⟩
    rw [hzero, Nat.zero_mul, Nat.add_zero, Nat.mod_eq_of_lt hmem]
    exact ⟨le_rfl, Nat.add_le_add_left hsize _⟩

/-- A call does what it is to do exactly if the condition holds. -/
theorem keeps_iff (hw : w.Ok) (hheld : w.Held) (ev : MbufEvent) : w.Keeps ev ↔ w.Proper ev := by
  by_cases hmap : ∃ f vma, ev = .mmaps f vma
  · obtain ⟨f, vma, rfl⟩ := hmap
    rw [← mapped_iff hw]
    constructor
    · exact fun h => h.mapped f vma rfl
    · intro h
      refine ⟨hheld, fun i hused hfree => absurd hfree hused, fun g hg => (nomatch hg), ?_⟩
      intro g vma' heq
      cases heq
      exact h
  · rw [not_exists] at hmap
    have hne : ∀ f vma, ev ≠ .mmaps f vma := fun f vma heq => hmap f ⟨vma, heq⟩
    rw [← held_step_iff hw hheld hne]
    constructor
    · exact Keeps.held
    · intro h
      refine ⟨h, fun i _ hfree => h.freed hfree, ?_, fun f vma heq => absurd heq (hne f vma)⟩
      rintro f rfl hopen i hused
      exact hheld.closed hopen h hused

theorem held_init : init.Held :=
  (held_iff Mbuf.wellTagged_init).mpr fun _ => rfl

end MbufRun

/-- The calls of a run all keep the areas right exactly if they all meet the condition. -/
theorem areas_held_while_proper (evs : List MbufEvent) :
    MbufRun.init.Held ∧ StepsMeet MbufRun.step MbufRun.Keeps .init evs ↔
      StepsMeet MbufRun.step MbufRun.Proper .init evs := by
  have hruns : StepsMeet MbufRun.step MbufRun.Keeps .init evs ↔
      StepsMeet MbufRun.step MbufRun.Proper .init evs := by
    refine stepsMeet_iff (fun w => w.Ok ∧ w.Held) ?_ ?_ ⟨MbufRun.ok_init, MbufRun.held_init⟩
    · exact fun w ev hw => MbufRun.keeps_iff hw.1 hw.2 ev
    · exact fun w ev hw hproper =>
        ⟨hw.1.step ev, ((MbufRun.keeps_iff hw.1 hw.2 ev).mpr hproper).held⟩
  rw [hruns]
  exact and_iff_right MbufRun.held_init

/-- File 1 and module 2 allocate an area. -/
theorem close_frees_area_of_module :
    ¬StepsMeet MbufRun.step MbufRun.Keeps .init
      [.opens 1, .allocates 1 ⟨['a'], by decide⟩ 4096 1,
        .moduleAllocates 2 ⟨['a'], by decide⟩ 4096 2, .deallocates 1 ⟨['a'], by decide⟩,
        .closes 1] := by
  intro h
  have hheld := h.2.2.2.2.1.held
  exact hheld.live (.module 2) ⟨0, by decide⟩ (by decide +kernel) (by decide +kernel)

end AdvLigoRts.Drv
