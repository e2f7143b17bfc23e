import Mathlib.Data.List.Basic
import Mathlib.Algebra.Group.Nat.Defs

/-!
# Byte memories

A memory is a function from addresses to bytes. `blit` copies bytes of one memory over a range of
another, `bytesAt` reads a range out and `loadU32` reads a little-endian word of four bytes.
-/

namespace PvLib

/-- `mem` with the `len` bytes from `off` on replaced by the first `len` bytes of `src`. -/
def blit (mem : ℕ → UInt8) (off : ℕ) (src : ℕ → UInt8) (len : ℕ) : ℕ → UInt8 := fun i =>
  if off ≤ i ∧ i < off + len then src (i - off) else mem i

/-- The `len` bytes from `off` on. -/
def bytesAt (mem : ℕ → UInt8) (off len : ℕ) : List UInt8 :=
  (List.range len).map fun j => mem (off + j)

/-- The little-endian 32-bit word at `off`. -/
def loadU32 (mem : ℕ → UInt8) (off : ℕ) : ℕ :=
  (mem off).toNat + 2 ^ 8 * (mem (off + 1)).toNat + 2 ^ 16 * (mem (off + 2)).toNat
    + 2 ^ 24 * (mem (off + 3)).toNat

variable {mem mem' src : ℕ → UInt8} {off off' len len' : ℕ}

@[simp] theorem length_bytesAt : (bytesAt mem off len).length = len := by
  simp [bytesAt]

/-- Ranges that hold the same bytes read the same. -/
theorem bytesAt_congr (h : ∀ j < len, mem (off + j) = mem' (off' + j)) :
    bytesAt mem off len = bytesAt mem' off' len :=
  List.map_congr_left fun j hj => h j (List.mem_range.mp hj)

theorem loadU32_congr (h : ∀ j < 4, mem (off + j) = mem' (off' + j)) :
    loadU32 mem off = loadU32 mem' off' := by
  have h0 := h 0 (by decide)
  have h1 := h 1 (by decide)
  have h2 := h 2 (by decide)
  have h3 := h 3 (by decide)
  rw [Nat.add_zero, Nat.add_zero] at h0
  simp only [loadU32, h0, h1, h2, h3]

theorem bytesAt_take (mem : ℕ → UInt8) (off len n : ℕ) :
    (bytesAt mem off len).take n = bytesAt mem off (min n len) := by
  simp [bytesAt, ← List.map_take, List.take_range]

/-- What was copied is read back. -/
theorem blit_inside {j : ℕ} (hj : j < len) : blit mem off src len (off + j) = src j := by
  have hin : off ≤ off + j ∧ off + j < off + len := ⟨by omega, by omega⟩
  simp only [blit, if_pos hin, Nat.add_sub_cancel_left]

/-- Nothing else changes. -/
theorem blit_outside {i : ℕ} (hi : i < off ∨ off + len ≤ i) : blit mem off src len i = mem i := by
  have hout : ¬ (off ≤ i ∧ i < off + len) := by omega
  simp only [blit, if_neg hout]

/-! ## Logs of writes -/

/-- The bytes that are written from `addr` on. -/
structure Write where
  addr : ℕ
  bytes : List UInt8

/-- The first address behind the write. -/
def Write.stop (w : Write) : ℕ := w.addr + w.bytes.length

/-- The write leaves the byte at `i` alone. -/
def Write.Misses (w : Write) (i : ℕ) : Prop := i < w.addr ∨ w.stop ≤ i

def applyWrite (mem : ℕ → UInt8) (w : Write) : ℕ → UInt8 :=
  blit mem w.addr (fun j => w.bytes.getD j 0) w.bytes.length

def applyWrites (mem : ℕ → UInt8) (ws : List Write) : ℕ → UInt8 := ws.foldl applyWrite mem

variable {mem : ℕ → UInt8} {w : Write} {ws ws' : List Write} {i : ℕ}

@[simp] theorem applyWrites_cons :
    applyWrites mem (w :: ws) = applyWrites (applyWrite mem w) ws := rfl

theorem applyWrites_append :
    applyWrites mem (ws ++ ws') = applyWrites (applyWrites mem ws) ws' := List.foldl_append

theorem applyWrite_of_miss (h : w.Misses i) : applyWrite mem w i = mem i := blit_outside h

theorem applyWrites_of_miss (h : ∀ w ∈ ws, w.Misses i) : applyWrites mem ws i = mem i := by
  induction ws generalizing mem with
  | nil => rfl
  | cons w ws ih =>
    rw [applyWrites_cons, ih fun w' hw' => h w' (List.mem_cons_of_mem w hw')]
    exact applyWrite_of_miss (h w List.mem_cons_self)

theorem applyWrite_inside {j : ℕ} (hj : j < w.bytes.length) :
    applyWrite mem w (w.addr + j) = w.bytes.getD j 0 := blit_inside hj

/-- A range that no write meets. -/
theorem bytesAt_applyWrites_of_miss {off len : ℕ}
    (h : ∀ w ∈ ws, w.stop ≤ off ∨ off + len ≤ w.addr) :
    bytesAt (applyWrites mem ws) off len = bytesAt mem off len := by
  refine bytesAt_congr fun j hj => applyWrites_of_miss fun w hw => ?_
  rcases h w hw with hbefore | hbehind
  · exact Or.inr (by omega)
  · exact Or.inl (by omega)

variable (mem ws) in
theorem applyWrites_last (h : ∀ w' ∈ ws', w'.stop ≤ w.addr ∨ w.stop ≤ w'.addr) :
    bytesAt (applyWrites mem (ws ++ w :: ws')) w.addr w.bytes.length = w.bytes := by
  rw [applyWrites_append, applyWrites_cons, bytesAt_applyWrites_of_miss h]
  refine List.ext_getElem (by simp) fun j _ hj => ?_
  simp only [bytesAt, List.getElem_map, List.getElem_range]
  rw [applyWrite_inside hj, List.getD_eq_getElem?_getD, List.getElem?_eq_getElem hj,
    Option.getD_some]

/-! ## Consecutive writes -/

/-- Each write starts where the one before it stops, the first at `a`, and the last stops at
`b`. -/
def Consecutive (a : ℕ) : List Write → ℕ → Prop
  | [], b => a = b
  | w :: ws, b => w.addr = a ∧ Consecutive w.stop ws b

variable {a b c : ℕ}

theorem Consecutive.append (h : Consecutive a ws b) (h' : Consecutive b ws' c) :
    Consecutive a (ws ++ ws') c := by
  induction ws generalizing a with
  | nil =>
    obtain rfl : a = b := h
    exact h'
  | cons w ws ih => exact ⟨h.1, ih h.2⟩

theorem Consecutive.le (h : Consecutive a ws b) : a ≤ b := by
  induction ws generalizing a with
  | nil => exact Nat.le_of_eq h
  | cons w ws ih =>
    have hrest := ih h.2
    rw [Write.stop, h.1] at hrest
    omega

theorem Consecutive.stop_le (h : Consecutive a ws b) (hw : w ∈ ws) : w.stop ≤ b := by
  induction ws generalizing a with
  | nil => exact absurd hw List.not_mem_nil
  | cons w' ws ih =>
    rcases List.mem_cons.mp hw with rfl | htail
    · exact h.2.le
    · exact ih h.2 htail

/-- The log fills its range: if none of the writes meets a range that does not start before the
log, the log ends there. -/
theorem Consecutive.le_of_apart (start : ℕ) {stop : ℕ} (h : Consecutive a ws b) (hne : start < stop)
    (hapart : ∀ w ∈ ws, w.stop ≤ start ∨ stop ≤ w.addr) (ha : a ≤ start) : b ≤ start := by
  induction ws generalizing a with
  | nil =>
    obtain rfl : a = b := h
    exact ha
  | cons w ws ih =>
    refine ih h.2 (fun w' hw' => hapart w' (List.mem_cons_of_mem w hw')) ?_
    have haddr := h.1
    rcases hapart w List.mem_cons_self with hbefore | hbehind
    · exact hbefore
    · omega

end PvLib
