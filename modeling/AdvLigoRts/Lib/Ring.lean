import Mathlib.Tactic.Ring
import Mathlib.Tactic.Linarith

/-!
# Cyclic index arithmetic

Indices into a ring of `n` cells.
-/

namespace PvLib

/-- The cell `d` places after `s` in a ring of `n` cells. -/
def ringAt (n s d : ℕ) : ℕ := (s + d) % n

/-- How many places `j` lies after `s` in a ring of `n` cells. -/
def ringOffset (n s j : ℕ) : ℕ := (j + n - s) % n

/-- Number of cells from `s` up to but excluding `e`; `full` decides between `n` and `0`
when the ends coincide. -/
def ringLen (n s e : ℕ) (full : Bool) : ℕ :=
  if s = e then (if full then n else 0) else ringOffset n s e

variable {n s d d' j k : ℕ}

theorem ringAt_lt (hn : 0 < n) (s d : ℕ) : ringAt n s d < n := Nat.mod_lt _ hn

theorem ringAt_zero (hs : s < n) : ringAt n s 0 = s := by
  simp [ringAt, Nat.mod_eq_of_lt hs]

theorem ringAt_self (hs : s < n) : ringAt n s n = s := by
  simp [ringAt, Nat.mod_eq_of_lt hs]

/-- Moving the start by one is moving the offset by one. -/
theorem ringAt_succ_start (n s d : ℕ) : ringAt n ((s + 1) % n) d = ringAt n s (d + 1) := by
  unfold ringAt
  rw [Nat.mod_add_mod]
  congr 1
  omega

/-- The successor of the cell at offset `d` is the cell at offset `d + 1`. -/
theorem succ_ringAt (n s d : ℕ) : (ringAt n s d + 1) % n = ringAt n s (d + 1) := by
  unfold ringAt
  rw [Nat.mod_add_mod]
  congr 1

/-- A cell within one turn of `s`, without the remainder. -/
theorem ringAt_eq_ite (hs : s < n) (hd : d < n) :
    ringAt n s d = if s + d < n then s + d else s + d - n := by
  unfold ringAt
  split
  · exact Nat.mod_eq_of_lt ‹_›
  · rw [Nat.mod_eq_sub_mod (by omega), Nat.mod_eq_of_lt (by omega)]

/-- Offsets below `n` name different cells. -/
theorem ringAt_inj (hs : s < n) (hd : d < n) (hd' : d' < n) :
    ringAt n s d = ringAt n s d' ↔ d = d' := by
  rw [ringAt_eq_ite hs hd, ringAt_eq_ite hs hd']
  split <;> split <;> omega

theorem ringOffset_lt (hn : 0 < n) (s j : ℕ) : ringOffset n s j < n := Nat.mod_lt _ hn

/-- Every cell is reached from `s` at its offset. -/
theorem ringAt_ringOffset (hs : s < n) (hj : j < n) : ringAt n s (ringOffset n s j) = j := by
  unfold ringAt ringOffset
  rw [Nat.add_mod_mod, show s + (j + n - s) = j + n by omega, Nat.add_mod_right,
    Nat.mod_eq_of_lt hj]

theorem ringOffset_ringAt (hs : s < n) (hd : d < n) : ringOffset n s (ringAt n s d) = d :=
  (ringAt_inj hs (ringOffset_lt (by omega) _ _) hd).mp
    (ringAt_ringOffset hs (ringAt_lt (by omega) _ _))

theorem ringOffset_inj (hs : s < n) (hj : j < n) (hk : k < n) :
    ringOffset n s j = ringOffset n s k ↔ j = k := by
  constructor
  · intro h
    rw [← ringAt_ringOffset hs hj, h, ringAt_ringOffset hs hk]
  · rintro rfl
    rfl

theorem ringOffset_self (n s : ℕ) : ringOffset n s s = 0 := by
  simp [ringOffset]

/-- Moving the start by one brings every cell one place nearer, and takes the start to the
end. -/
theorem ringOffset_succ_start (hs : s < n) (hj : j < n) : ringOffset n ((s + 1) % n) j
    = if ringOffset n s j = 0 then n - 1 else ringOffset n s j - 1 := by
  have hlt := ringOffset_lt (Nat.zero_lt_of_lt hs) s j
  have hnext : (s + 1) % n < n := Nat.mod_lt _ (by omega)
  have hat := ringAt_ringOffset hs hj
  generalize ringOffset n s j = d at hlt hat ⊢
  subst hat
  split
  · next hd =>
    have hend : ringAt n s d = ringAt n ((s + 1) % n) (n - 1) := by
      rw [ringAt_succ_start, Nat.sub_add_cancel (by omega), ringAt_self hs, hd, ringAt_zero hs]
    rw [hend, ringOffset_ringAt hnext (by omega)]
  · next hd =>
    have hback : ringAt n s d = ringAt n ((s + 1) % n) (d - 1) := by
      rw [ringAt_succ_start, Nat.sub_add_cancel (by omega)]
    rw [hback, ringOffset_ringAt hnext (by omega)]

/-- The length of the range from `s` to the cell `k` places on, for `k` up to a full
turn, when `full` says whether the range holds any cell at all. -/
theorem ringLen_eq {full : Bool} (hs : s < n) (hk : k ≤ n)
    (hfull : ringAt n s k = s → (full = true ↔ 0 < k)) :
    ringLen n s (ringAt n s k) full = k := by
  unfold ringLen
  -- at `k = 0` and at `k = n` the ends meet, and `full` decides
  rcases Nat.lt_or_ge k n with hlt | hge
  · rcases Nat.eq_zero_or_pos k with rfl | hpos
    · have hz := ringAt_zero hs
      have : full = false := by
        have := hfull hz
        simpa using this
      simp [hz, this]
    · have hne : s ≠ ringAt n s k := by
        intro heq
        have := (ringAt_inj hs hlt (by omega)).mp (heq.symm.trans (ringAt_zero hs).symm)
        omega
      rw [if_neg hne, ringOffset_ringAt hs hlt]
  · obtain rfl : k = n := by omega
    have hself := ringAt_self hs
    have : full = true := (hfull hself).mpr (by omega)
    simp [hself, this]

/-! ## Marked ranges -/

/-- The `k` cells from `s` on are the marked ones, and `e` is the first cell after them. -/
structure Marked (n s e : ℕ) (mark : ℕ → Bool) (k : ℕ) : Prop where
  start_lt : s < n
  le : k ≤ n
  end_eq : ringAt n s k = e
  mark_eq : ∀ d < n, mark (ringAt n s d) = decide (d < k)

namespace Marked

variable {e : ℕ} {mark mark' : ℕ → Bool}

theorem ring_pos (h : Marked n s e mark k) : 0 < n := Nat.zero_lt_of_lt h.start_lt

/-- Only the marks on the ring matter. -/
theorem congr (h : Marked n s e mark k) (hm : ∀ j < n, mark' j = mark j) :
    Marked n s e mark' k where
  start_lt := h.start_lt
  le := h.le
  end_eq := h.end_eq
  mark_eq d hd := by
    rw [hm _ (ringAt_lt h.ring_pos s d)]
    exact h.mark_eq d hd

/-- A reader that starts where the writer stands has nothing to read. -/
theorem none_marked (hs : s < n) (hm : ∀ j < n, mark j = false) : Marked n s s mark 0 where
  start_lt := hs
  le := Nat.zero_le n
  end_eq := ringAt_zero hs
  mark_eq d _ := by simpa using hm _ (ringAt_lt (by omega) s d)

/-- The first cell is marked when there is anything to read. -/
theorem start_eq (h : Marked n s e mark k) : mark s = decide (0 < k) := by
  simpa [ringAt_zero h.start_lt] using h.mark_eq 0 h.ring_pos

/-- The ends and the mark on the first cell determine the length. -/
theorem ringLen_eq (h : Marked n s e mark k) : ringLen n s e (mark s) = k := by
  rw [← h.end_eq]
  refine PvLib.ringLen_eq h.start_lt h.le fun _ => ?_
  rw [h.start_eq, decide_eq_true_eq]

/-- The marked cells are the cells of the range. -/
theorem mark_iff (h : Marked n s e mark k) {j : ℕ} (hj : j < n) :
    mark j = true ↔ ∃ d < k, j = ringAt n s d := by
  have hoff := ringAt_ringOffset h.start_lt hj
  have hlt := ringOffset_lt h.ring_pos s j
  constructor
  · intro hm
    rw [← hoff, h.mark_eq _ hlt, decide_eq_true_eq] at hm
    exact ⟨_, hm, hoff.symm⟩
  · rintro ⟨d, hd, rfl⟩
    rw [h.mark_eq d (by have := h.le; omega), decide_eq_true_eq]
    exact hd

/-- The writer's cell is unmarked only when there is room. -/
theorem lt_of_end (h : Marked n s e mark k) (he : mark e = false) : k < n := by
  rcases Nat.lt_or_ge k n with hlt | hge
  · exact hlt
  · -- a full ring marks every cell, the writer's among them
    obtain rfl : k = n := Nat.le_antisymm h.le hge
    have hs := h.start_eq
    rw [← h.end_eq, ringAt_self h.start_lt, hs] at he
    have := h.ring_pos
    simp_all

/-- The writer marks its cell and moves on. -/
theorem push (h : Marked n s e mark k) (he : mark e = false) (hm : ∀ j < n,
    mark' j = if j = e then true else mark j) : Marked n s ((e + 1) % n) mark' (k + 1) where
  start_lt := h.start_lt
  le := h.lt_of_end he
  end_eq := by rw [← h.end_eq, succ_ringAt]
  mark_eq d hd := by
    have hk := h.lt_of_end he
    rw [hm _ (ringAt_lt h.ring_pos s d), ← h.end_eq]
    by_cases hdk : d = k
    · simp [hdk]
    · have hne : ringAt n s d ≠ ringAt n s k := fun heq =>
        hdk ((ringAt_inj h.start_lt hd hk).mp heq)
      rw [if_neg hne, h.mark_eq d hd, decide_eq_decide]
      omega

/-- The reader takes the mark off its cell and moves on. -/
theorem pop (h : Marked n s e mark k) (hs : mark s = true) (hm : ∀ j < n,
    mark' j = if j = s then false else mark j) : Marked n ((s + 1) % n) e mark' (k - 1) := by
  have hpos : 0 < k := by simpa [h.start_eq] using hs
  have hle := h.le
  refine ⟨Nat.mod_lt _ h.ring_pos, by omega, ?_, fun d hd => ?_⟩
  · rw [ringAt_succ_start, Nat.sub_add_cancel hpos, h.end_eq]
  · rw [ringAt_succ_start, hm _ (ringAt_lt h.ring_pos s _)]
    rcases Nat.lt_or_ge (d + 1) n with hlt | hge
    · have hne : ringAt n s (d + 1) ≠ s := by
        intro heq
        have := (ringAt_inj h.start_lt hlt h.ring_pos).mp
          (heq.trans (ringAt_zero h.start_lt).symm)
        omega
      rw [if_neg hne, h.mark_eq _ hlt, decide_eq_decide]
      omega
    · -- the last cell of the new range is the one the reader has just left
      have hlast : d + 1 = n := by omega
      rw [hlast, ringAt_self h.start_lt, if_pos rfl, eq_comm, decide_eq_false_iff_not]
      omega

end Marked

/-- What the `k` cells from `s` on hold. -/
def ringItems {α : Type*} (n s k : ℕ) (cell : ℕ → α) : List α :=
  (List.range k).map fun d => cell (ringAt n s d)

section Items

variable {α : Type*} {cell cell' : ℕ → α}

@[simp] theorem ringItems_zero : ringItems n s 0 cell = [] := rfl

theorem ringItems_congr (h : ∀ d < k, cell' (ringAt n s d) = cell (ringAt n s d)) :
    ringItems n s k cell' = ringItems n s k cell :=
  List.map_congr_left fun d hd => h d (List.mem_range.mp hd)

theorem ringItems_succ : ringItems n s (k + 1) cell
    = ringItems n s k cell ++ [cell (ringAt n s k)] := by
  simp [ringItems, List.range_succ]

theorem ringItems_cons (hs : s < n) (hk : 0 < k) : ringItems n s k cell
    = cell s :: ringItems n ((s + 1) % n) (k - 1) cell := by
  obtain ⟨k, rfl⟩ : ∃ m, k = m + 1 := ⟨k - 1, by omega⟩
  unfold ringItems
  rw [List.range_succ_eq_map, List.map_cons, ringAt_zero hs, List.map_map, Nat.add_sub_cancel]
  refine congrArg _ (List.map_congr_left fun d _ => ?_)
  simp [ringAt_succ_start]

/-- Writing the cell after a range that leaves room does not touch the range. -/
theorem ringItems_push {e : ℕ} {mark : ℕ → Bool} (h : Marked n s e mark k)
    (he : mark e = false) (hc : ∀ j, j ≠ e → cell' j = cell j) :
    ringItems n s (k + 1) cell' = ringItems n s k cell ++ [cell' e] := by
  have hk := h.lt_of_end he
  rw [ringItems_succ, h.end_eq]
  congr 1
  refine ringItems_congr fun d hd => hc _ fun heq => ?_
  rw [← h.end_eq] at heq
  have := (ringAt_inj h.start_lt (by omega) hk).mp heq
  omega

end Items

end PvLib
