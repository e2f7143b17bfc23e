import Mathlib.Data.Nat.Count
import Mathlib.Data.Rat.Defs

/-!
# `awgfunc.c`: the order of the components

`awgSortComponents` is a heapsort, and `awgBinarySearch` finds the place of a component in a sorted
list. Lists are arrays with a number of components; both functions are `none` where an index is
not below it. Indices are natural numbers: their sums fit in an `int` up to 2^30 components, and a
slot has room for 5000.
-/

namespace AdvLigoRts.Gds.Awg

open Function (update)

/-! ## Code -/

/-- `AWG_WaveType`. -/
inductive AwgWaveType where
  | none
  | sine
  | square
  | ramp
  | triangle
  | impulse
  | const
  | noiseN
  | noiseU
  | arb
  | stream
deriving DecidableEq, Repr

/-- `AWG_Component`, with its times in nsec. -/
structure AwgComponent where
  wtype : AwgWaveType
  start : ℤ
  duration : ℤ
  restart : ℤ
  ramptype : BitVec 32
  ramptime : Fin 2 → ℤ
  ramppar : Fin 4 → ℚ

/-- The inner loop of `awgSortComponents` in at most `fuel` turns, with the store behind it. -/
def siftDown (numComp ir : ℕ) (cp : AwgComponent) :
    (fuel : ℕ) → (ℕ → AwgComponent) → (i j : ℕ) → Option (ℕ → AwgComponent)
  | 0, _, _, _ => none
  | fuel + 1, comp, i, j =>
    if numComp ≤ i then none
    else if j ≤ ir then
      if numComp ≤ j ∨ j < ir ∧ numComp ≤ j + 1 then none
      else
        let j := if j < ir ∧ (comp j).start < (comp (j + 1)).start then j + 1 else j
        if cp.start < (comp j).start then
          siftDown numComp ir cp fuel (update comp i (comp j)) j (2 * j + 1)
        else some (update comp i cp)
    else some (update comp i cp)

/-- The outer loop, in at most `fuel` turns. -/
def sortLoop (numComp : ℕ) : (fuel : ℕ) → (ℕ → AwgComponent) → (l ir : ℕ) →
    Option (ℕ → AwgComponent)
  | 0, _, _, _ => none
  | fuel + 1, comp, l, ir =>
    if 0 < l then
      if numComp ≤ l - 1 then none
      else
        (siftDown numComp ir (comp (l - 1)) (ir + 2) comp (l - 1) (2 * (l - 1) + 1)).bind
          fun comp => sortLoop numComp fuel comp (l - 1) ir
    else if numComp ≤ ir then none
    else
      let cp := comp ir
      let comp := update comp ir (comp 0)
      if ir - 1 = 0 then some (update comp 0 cp)
      else
        (siftDown numComp (ir - 1) cp (ir + 1) comp 0 1).bind
          fun comp => sortLoop numComp fuel comp 0 (ir - 1)

def awgSortComponents (comp : ℕ → AwgComponent) (numComp : ℕ) : Option (ℕ → AwgComponent) :=
  if numComp < 2 then some comp
  else sortLoop numComp (numComp / 2 + numComp) comp (numComp / 2) (numComp - 1)

/-- The loop of `awgBinarySearch` in at most `fuel` turns, with the test behind it. -/
def searchLoop (complist : ℕ → AwgComponent) (ncomp : ℕ) (comp : AwgComponent) :
    (fuel : ℕ) → (jl ju : ℕ) → Option ℕ
  | 0, _, _ => none
  | fuel + 1, jl, ju =>
    if ju - jl > 1 then
      let jm := (ju + jl) / 2
      if ncomp ≤ jm then none
      else if comp.start < (complist jm).start then searchLoop complist ncomp comp fuel jl jm
      else searchLoop complist ncomp comp fuel jm ju
    else if ncomp ≤ jl then none
    else if comp.start < (complist jl).start then some jl
    else some ju

def awgBinarySearch (complist : ℕ → AwgComponent) (ncomp : ℕ) (comp : AwgComponent) : Option ℕ :=
  if ncomp = 0 then some 0 else searchLoop complist ncomp comp ncomp 0 ncomp

/-- The first `numComp` components are in the order of their starts. -/
def Sorted (comp : ℕ → AwgComponent) (numComp : ℕ) : Prop :=
  ∀ a b, a ≤ b → b < numComp → (comp a).start ≤ (comp b).start

/-! ## Heaps -/

/-- `c` is below `p` in the tree of the indices. -/
def Child (p c : ℕ) : Prop := c = 2 * p + 1 ∨ c = 2 * p + 2

/-- No component from `l` to `ir` starts before one below it. -/
def Heap (comp : ℕ → AwgComponent) (l ir : ℕ) : Prop :=
  ∀ p c, l ≤ p → Child p c → c ≤ ir → (comp c).start ≤ (comp p).start

/-- The components behind `ir` are in their places. -/
def Placed (numComp : ℕ) (comp : ℕ → AwgComponent) (ir : ℕ) : Prop :=
  ∀ a b, a ≤ b → ir < b → b < numComp → (comp a).start ≤ (comp b).start

/-- `out` is `comp` with another order of the components up to `ir`. -/
def Reordered (ir : ℕ) (comp out : ℕ → AwgComponent) : Prop :=
  ∃ σ : Equiv.Perm ℕ, (∀ k, ir < k → σ k = k) ∧ out = comp ∘ σ

variable {comp out : ℕ → AwgComponent} {cp c : AwgComponent} {numComp i j l ir k : ℕ}

theorem Child.lt (h : Child k j) : k < j := by
  rcases h with rfl | rfl <;> omega

theorem Heap.le_first (h : Heap comp 0 ir) (hk : k ≤ ir) : (comp k).start ≤ (comp 0).start := by
  induction k using Nat.strong_induction_on with
  | h k ih =>
    cases k with
    | zero => exact le_refl _
    | succ k =>
      have hchild : Child (k / 2) (k + 1) := by
        show k + 1 = _ ∨ k + 1 = _
        omega
      calc (comp (k + 1)).start ≤ (comp (k / 2)).start := h _ _ (Nat.zero_le _) hchild hk
        _ ≤ (comp 0).start := ih (k / 2) (by omega) (by omega)

namespace Reordered

theorem refl (comp : ℕ → AwgComponent) : Reordered ir comp comp := ⟨.refl ℕ, fun _ _ => rfl, rfl⟩

theorem trans {mid : ℕ → AwgComponent} (h : Reordered ir comp mid) (h' : Reordered ir mid out) :
    Reordered ir comp out := by
  obtain ⟨σ, hσ, rfl⟩ := h
  obtain ⟨τ, hτ, rfl⟩ := h'
  refine ⟨τ.trans σ, fun k hk => ?_, rfl⟩
  rw [Equiv.trans_apply, hτ k hk, hσ k hk]

theorem mono (h : Reordered i comp out) (hir : i ≤ ir) : Reordered ir comp out := by
  obtain ⟨σ, hσ, rfl⟩ := h
  exact ⟨σ, fun k hk => hσ k (by omega), rfl⟩

/-- Components `i` and `j` change places. -/
theorem swap (hi : i ≤ ir) (hj : j ≤ ir) :
    Reordered ir comp (update (update comp i (comp j)) j (comp i)) := by
  refine ⟨Equiv.swap j i, fun k hk => ?_, (Equiv.comp_swap_eq_update ..).symm⟩
  exact Equiv.swap_apply_of_ne_of_ne (by omega) (by omega)

/-- The order stays among the components up to `ir`. -/
theorem le_of_le {σ : Equiv.Perm ℕ} (hσ : ∀ k, ir < k → σ k = k) (hk : k ≤ ir) : σ k ≤ ir := by
  by_contra hlt
  have hfix := σ.injective (hσ (σ k) (by omega))
  omega

theorem placed (h : Reordered ir comp out) (hplaced : Placed numComp comp ir) :
    Placed numComp out ir := by
  obtain ⟨σ, hσ, rfl⟩ := h
  intro a b hab hb hlen
  show (comp (σ a)).start ≤ (comp (σ b)).start
  rw [hσ b hb]
  by_cases ha : a ≤ ir
  · have hle := le_of_le hσ ha
    exact hplaced _ b (by omega) hb hlen
  · rw [hσ a (by omega)]
    exact hplaced a b hab hb hlen

end Reordered

/-- The first component of a heap goes to its end. -/
theorem Heap.placed_swap (h : Heap comp 0 ir) (hplaced : Placed numComp comp ir) (hpos : 0 < ir) :
    Placed numComp (update (update comp ir (comp 0)) 0 (comp ir)) (ir - 1) := by
  have hswap := @Reordered.swap comp ir 0 ir (le_refl ir) (Nat.zero_le ir)
  intro a b hab hb hlen
  by_cases hbir : b = ir
  · subst hbir
    obtain ⟨σ, hσ, heq⟩ := hswap
    have hlast : update (update comp b (comp 0)) 0 (comp b) b = comp 0 := by
      rw [Function.update_of_ne (by omega), Function.update_self]
    rw [hlast, heq]
    exact h.le_first (Reordered.le_of_le hσ hab)
  · exact hswap.placed hplaced a b hab (by omega) hlen

/-! ## Sorting -/

/-- `cp` sinks from the hole at `i`; what lies above and below of the hole is in order. -/
theorem siftDown_spec {fuel : ℕ} (hir : ir < numComp) (hi : i ≤ ir) (hfuel : ir < fuel + i)
    (hheap : ∀ p c, l ≤ p → p ≠ i → Child p c → c ≤ ir →
      (update comp i cp c).start ≤ (update comp i cp p).start)
    (hskip : ∀ p c, l ≤ p → Child p i → Child i c → c ≤ ir → (comp c).start ≤ (comp p).start) :
    ∃ out, siftDown numComp ir cp fuel comp i (2 * i + 1) = some out ∧
      Reordered ir (update comp i cp) out ∧ Heap out l ir := by
  induction fuel generalizing comp i with
  | zero => omega
  | succ fuel ih =>
    -- where it stays, only the children of the hole are left to compare
    have hstay (hle : ∀ c, Child i c → c ≤ ir → (comp c).start ≤ cp.start) :
        Heap (update comp i cp) l ir := by
      intro p c hp hchild hc
      by_cases hpi : p = i
      · subst hpi
        rw [Function.update_self, Function.update_of_ne hchild.lt.ne']
        exact hle c hchild hc
      · exact hheap p c hp hpi hchild hc
    rw [siftDown, if_neg (by omega)]
    split
    · next hj =>
      rw [if_neg (by omega)]
      generalize hj' :
        (if 2 * i + 1 < ir ∧ (comp (2 * i + 1)).start < (comp (2 * i + 1 + 1)).start
          then 2 * i + 1 + 1 else 2 * i + 1) = j
      have hchild : Child i j ∧ j ≤ ir ∧
          ∀ k, Child i k → k ≤ ir → (comp k).start ≤ (comp j).start := by
        subst hj'
        split
        · next hlt =>
          refine ⟨.inr rfl, by omega, ?_⟩
          rintro k (rfl | rfl) _
          · exact hlt.2.le
          · exact le_refl _
        · next hlt =>
          refine ⟨.inl rfl, by omega, ?_⟩
          rintro k (rfl | rfl) hk
          · exact le_refl _
          · exact not_lt.mp fun h => hlt ⟨by omega, h⟩
      obtain ⟨hchild, hjir, hmax⟩ := hchild
      have hij := hchild.lt
      dsimp only
      split
      · next hlt =>
        have hswap : Reordered ir (update comp i cp) (update (update comp i (comp j)) j cp) := by
          have h := @Reordered.swap (update comp i cp) i j ir hi hjir
          rwa [Function.update_self, Function.update_of_ne hij.ne', Function.update_idem] at h
        obtain ⟨out, hout, hre, hh⟩ := @ih (update comp i (comp j)) j hjir (by omega)
          (by
            intro p k hp hpj hpk hk
            have hi' := hmax k
            have h := hheap p k hp
            have h' := hskip p j hp
            simp only [Function.update_apply, Child] at *
            grind)
          (by
            intro p k hp hpj hjk hk
            have h := hheap j k (by simp only [Child] at *; omega) hij.ne' hjk hk
            simp only [Function.update_apply, Child] at *
            grind)
        exact ⟨out, hout, hswap.trans hre, hh⟩
      · next hnot =>
        refine ⟨_, rfl, .refl _, hstay fun k hk hkir => ?_⟩
        exact (hmax k hk hkir).trans (not_lt.mp hnot)
    · next hj =>
      refine ⟨_, rfl, .refl _, hstay fun k hk hkir => ?_⟩
      rcases hk with rfl | rfl <;> omega

theorem sortLoop_spec {fuel : ℕ} (hfuel : l + ir ≤ fuel) (hl : l ≤ ir) (hpos : 0 < ir)
    (hir : ir < numComp) (hheap : Heap comp l ir) (hplaced : Placed numComp comp ir) :
    ∃ out, sortLoop numComp fuel comp l ir = some out ∧ Reordered ir comp out ∧
      Placed numComp out 0 := by
  induction fuel generalizing comp l ir with
  | zero => omega
  | succ fuel ih =>
    rw [sortLoop]
    split
    · next hl0 =>
      obtain ⟨l, rfl⟩ : ∃ k, l = k + 1 := ⟨l - 1, by omega⟩
      obtain ⟨out, hout, hre, hh⟩ := @siftDown_spec comp (comp l) numComp l l ir (ir + 2) hir
        (by omega) (by omega)
        (by
          rw [Function.update_eq_self]
          exact fun p c hp hne => hheap p c (by omega))
        (fun p _ hp hpl => absurd hpl.lt (Nat.not_lt_of_le hp))
      rw [Function.update_eq_self] at hre
      obtain ⟨out', hout', hre', hsorted⟩ := ih (by omega) (show l ≤ ir by omega) hpos hir hh
        (hre.placed hplaced)
      refine ⟨out', ?_, hre.trans hre', hsorted⟩
      rw [if_neg (by omega), Nat.add_sub_cancel, hout]
      exact hout'
    · next hl0 =>
      obtain rfl : l = 0 := by omega
      have hswap := @Reordered.swap comp ir 0 ir (le_refl ir) (Nat.zero_le ir)
      have hplaced' := hheap.placed_swap hplaced hpos
      rw [if_neg (by omega)]
      dsimp only
      split
      · next hone =>
        rw [hone] at hplaced'
        exact ⟨_, rfl, hswap, hplaced'⟩
      · next hone =>
        -- what lies below the first component is a heap still
        obtain ⟨out, hout, hre, hh⟩ := @siftDown_spec (update comp ir (comp 0))
          (comp ir) numComp 0 0 (ir - 1) (ir + 1) (by omega) (Nat.zero_le _) (by omega)
          (by
            intro p c _ hp hchild hc
            have hlt := hchild.lt
            rw [Function.update_of_ne (by omega), Function.update_of_ne (by omega),
              Function.update_of_ne hp, Function.update_of_ne (by omega)]
            exact hheap p c (Nat.zero_le p) hchild (by omega))
          (fun p c _ hchild => absurd hchild.lt (Nat.not_lt_zero p))
        obtain ⟨out', hout', hre', hsorted⟩ := @ih out 0 (ir - 1) (by omega) (Nat.zero_le _)
          (by omega) (by omega) hh (hre.placed hplaced')
        refine ⟨out', ?_, hswap.trans ((hre.trans hre').mono (by omega)), hsorted⟩
        rw [hout]
        exact hout'

theorem awgSortComponents_spec (comp : ℕ → AwgComponent) (numComp : ℕ) :
    ∃ out, awgSortComponents comp numComp = some out ∧ Sorted out numComp ∧
      ∃ σ : Equiv.Perm ℕ, (∀ k, numComp ≤ k → σ k = k) ∧ out = comp ∘ σ := by
  rw [awgSortComponents]
  split
  · next hshort =>
    refine ⟨comp, rfl, fun a b hab hb => ?_, .refl ℕ, fun _ _ => rfl, rfl⟩
    obtain rfl : a = b := by omega
    exact le_refl _
  · next hlong =>
    obtain ⟨out, hout, ⟨σ, hσ, rfl⟩, hplaced⟩ := @sortLoop_spec comp numComp (numComp / 2)
      (numComp - 1) (numComp / 2 + numComp) (by omega) (by omega) (by omega) (by omega)
      (by
        -- the components of the second half have no children
        rintro p c hp (rfl | rfl) hc <;> omega)
      (fun a b hab hb hlen => by omega)
    refine ⟨_, hout, fun a b hab hb => ?_, σ, fun k hk => hσ k (by omega), rfl⟩
    rcases Nat.eq_zero_or_pos b with rfl | hpos
    · rw [Nat.le_zero.mp hab]
    · exact hplaced a b hab hpos hb

/-! ## Searching -/

theorem searchLoop_spec (hsorted : Sorted comp numComp) {fuel jl ju : ℕ} (hfuel : ju ≤ fuel + jl)
    (hlt : jl < ju) (hju : ju ≤ numComp) (hlow : ∀ k < jl, (comp k).start ≤ c.start)
    (hhigh : ∀ k, ju ≤ k → k < numComp → c.start < (comp k).start) :
    ∃ n ≤ numComp, searchLoop comp numComp c fuel jl ju = some n ∧
      (∀ k < n, (comp k).start ≤ c.start) ∧
      ∀ k, n ≤ k → k < numComp → c.start < (comp k).start := by
  induction fuel generalizing jl ju with
  | zero => omega
  | succ fuel ih =>
    rw [searchLoop]
    split
    · next hmore =>
      dsimp only
      rw [if_neg (by omega)]
      split
      · next hbefore =>
        refine ih (by omega) (by omega) (by omega) hlow fun k hk hlen => ?_
        exact hbefore.trans_le (hsorted _ k hk hlen)
      · next hafter =>
        refine ih (by omega) (by omega) hju (fun k hk => ?_) hhigh
        exact (hsorted k _ hk.le (by omega)).trans (not_lt.mp hafter)
    · next hdone =>
      rw [if_neg (by omega)]
      split
      · next hbefore =>
        exact ⟨jl, by omega, rfl, hlow, fun k hk hlen => hbefore.trans_le (hsorted _ k hk hlen)⟩
      · next hafter =>
        refine ⟨ju, hju, rfl, fun k hk => ?_, hhigh⟩
        exact (hsorted k jl (by omega) (by omega)).trans (not_lt.mp hafter)

theorem awgBinarySearch_spec (hsorted : Sorted comp numComp) :
    ∃ n ≤ numComp, awgBinarySearch comp numComp c = some n ∧ (∀ k < n, (comp k).start ≤ c.start) ∧
      ∀ k, n ≤ k → k < numComp → c.start < (comp k).start := by
  rw [awgBinarySearch]
  split
  · next hzero => exact ⟨0, Nat.zero_le _, rfl, nofun, by omega⟩
  · next hne => exact searchLoop_spec hsorted (by omega) (by omega) (le_refl _) nofun (by omega)

/-- The components are sorted, and the place of one more in a sorted list is found. -/
theorem components_sorted_and_found (comp : ℕ → AwgComponent) (numComp : ℕ) (c : AwgComponent) :
    (∃ out, awgSortComponents comp numComp = some out ∧ Sorted out numComp ∧
      ∃ σ : Equiv.Perm ℕ, (∀ k, numComp ≤ k → σ k = k) ∧ out = comp ∘ σ) ∧
    (Sorted comp numComp → ∃ n, awgBinarySearch comp numComp c = some n ∧
      n = Nat.count (fun k => (comp k).start ≤ c.start) numComp ∧
      Sorted (fun k => if k < n then comp k else if k = n then c else comp (k - 1))
        (numComp + 1)) := by
  refine ⟨awgSortComponents_spec comp numComp, fun hsorted => ?_⟩
  obtain ⟨n, hle, hn, hlow, hhigh⟩ := awgBinarySearch_spec (c := c) hsorted
  refine ⟨n, hn, ?_, fun a b hab hb => ?_⟩
  · obtain ⟨m, rfl⟩ := Nat.exists_eq_add_of_le hle
    have hbehind : Nat.count (fun k => (comp (n + k)).start ≤ c.start) m = 0 :=
      Nat.count_iff_forall_not.mpr fun k hk => not_le.mpr (hhigh _ (by omega) (by omega))
    rw [Nat.count_add, Nat.count_iff_forall.mpr hlow, hbehind]
    rfl
  · dsimp only
    rcases Nat.lt_trichotomy a n with ha | rfl | ha
    · rw [if_pos ha]
      rcases Nat.lt_trichotomy b n with hbn | rfl | hbn
      · rw [if_pos hbn]
        exact hsorted a b hab (by omega)
      · rw [if_neg (lt_irrefl b), if_pos rfl]
        exact hlow a ha
      · rw [if_neg (by omega), if_neg (by omega)]
        exact hsorted a (b - 1) (by omega) (by omega)
    · rw [if_neg (lt_irrefl a), if_pos rfl, if_neg (by omega)]
      split
      · exact le_refl _
      · exact (hhigh (b - 1) (by omega) (by omega)).le
    · rw [if_neg (by omega), if_neg (by omega), if_neg (by omega), if_neg (by omega)]
      exact hsorted (a - 1) (b - 1) (by omega) (by omega)

end AdvLigoRts.Gds.Awg
