import AdvLigoRts.Lib.Machine
import Mathlib.Data.List.MinMax

/-!
# `gps_key` and the shared latest key

`gps_key` of `src/pub_sub_stream/recv_buffer.hh`, and the machine of threads that store keys
to one shared key with `atomic_store_to_if`. A call is one atomic load and then a loop of
compare-and-swaps; each of these is a step, and the steps of different calls interleave in
any way. The test of the loop is local and goes with the step before it.
-/

namespace AdvLigoRts.PubSub

open PvLib

/-- `gps_key`. -/
@[ext] structure GpsKey where
  key : UInt64
deriving DecidableEq, Inhabited, Repr

namespace GpsKey

/-- `gps_key( sec, cycle )`. -/
def ofTime (sec : UInt64) (cycle : UInt32) : GpsKey := ⟨sec <<< 4 ||| (cycle &&& 0xf).toUInt64⟩

def cycle (k : GpsKey) : UInt32 := (k.key &&& 0xf).toUInt32

/-- `gps_key( )`. -/
def zero : GpsKey := ⟨0⟩

/-- Keys are compared as numbers. -/
instance : LinearOrder GpsKey :=
  LinearOrder.lift' (fun k => k.key.toNat) fun _ _ h => GpsKey.ext (UInt64.toNat_inj.mp h)

theorem lt_def {k l : GpsKey} : k < l ↔ k.key.toNat < l.key.toNat := Iff.rfl

theorem le_def {k l : GpsKey} : k ≤ l ↔ k.key.toNat ≤ l.key.toNat := Iff.rfl

theorem zero_le (k : GpsKey) : zero ≤ k := by
  rw [le_def]
  exact Nat.zero_le _

theorem cycle_ofTime (sec : UInt64) {cycle : UInt32} (h : cycle < 16) :
    (ofTime sec cycle).cycle = cycle := by
  have hc : cycle.toNat < 16 := by simpa [UInt32.lt_iff_toNat_lt] using h
  apply UInt32.toNat_inj.mp
  have hand : ∀ n : ℕ, n &&& 15 = n % 16 := fun n => Nat.and_two_pow_sub_one_eq_mod n 4
  have hmask : cycle.toNat % 16 = cycle.toNat := Nat.mod_eq_of_lt hc
  have hhigh : (sec.toNat % 4294967296) <<< 4 % 4294967296 % 16 = 0 := by
    rw [Nat.shiftLeft_eq]
    omega
  have hor : ∀ a b : ℕ, (a ||| b) % 16 = a % 16 ||| b % 16 :=
    fun _ _ => Nat.or_mod_two_pow (n := 4)
  simp [ofTime, GpsKey.cycle, hand, hor, hmask, hhigh]

end GpsKey

/-! ## The machine of calls -/

/-- Where a call of `atomic_store_to_if` stands. -/
inductive StorePc
  /-- Before `atomic_load_from`. -/
  | loading
  /-- In the loop, which goes on for `old_key`. -/
  | looping (oldKey : GpsKey)
  /-- Returned. -/
  | finished
deriving DecidableEq, Repr

/-- A call: the key it stores, where it stands, and what it has done so far. -/
structure StoreCall where
  key : GpsKey
  pc : StorePc := .loading
  /-- Number of compare-and-swaps made. -/
  cas : ℕ := 0
  /-- Number of those that swapped. -/
  swaps : ℕ := 0
deriving DecidableEq, Repr

def StoreCall.test (pred : GpsKey → GpsKey → Bool) (c : StoreCall) (oldKey : GpsKey) :
    StoreCall :=
  { c with pc := if pred oldKey c.key then .looping oldKey else .finished }

/-- The shared key and all calls made so far. -/
structure StoreSys where
  latest : GpsKey
  calls : List StoreCall
deriving DecidableEq, Repr

/-- A thread calls `atomic_store_to_if`, or call number `n` makes its next step. -/
inductive StoreAction
  | call (key : GpsKey)
  | load (n : ℕ)
  | compareAndSwap (n : ℕ)
deriving DecidableEq, Repr

/-- `__sync_val_compare_and_swap`: the value found, and the value left. -/
def compareAndSwap (dest oldKey key : GpsKey) : GpsKey × GpsKey :=
  (dest, if dest = oldKey then key else dest)

def StoreSys.step (pred : GpsKey → GpsKey → Bool) (s : StoreSys) :
    StoreAction → Option (Unit × StoreSys)
  | .call key => some ((), { s with calls := s.calls ++ [{ key := key }] })
  | .load n =>
    match s.calls[n]? with
    | some c =>
      if c.pc = .loading then
        some ((), { s with calls := s.calls.set n (c.test pred s.latest) })
      else none
    | none => none
  | .compareAndSwap n =>
    match s.calls[n]? with
    | some c =>
      match c.pc with
      | .looping oldKey =>
        let (found, left) := PubSub.compareAndSwap s.latest oldKey c.key
        let c' := { c with
          cas := c.cas + 1
          swaps := if found = oldKey then c.swaps + 1 else c.swaps }
        some ((), { latest := left, calls := s.calls.set n (c'.test pred found) })
      | _ => none
    | none => none

/-- `std::less< gps_key >`. -/
def less (a b : GpsKey) : Bool := decide (a < b)

/-- No call made yet. -/
def StoreSys.start (initial : GpsKey) : StoreSys := ⟨initial, []⟩

/-! ## The invariant -/

/-- What holds between a call and the shared key. -/
def CallOk (latest : GpsKey) (c : StoreCall) : Prop :=
  match c.pc with
  | .loading => c.cas = 0 ∧ c.swaps = 0
  | .looping oldKey => oldKey < c.key ∧ oldKey ≤ latest ∧
      c.cas ≤ oldKey.key.toNat + c.swaps ∧
      (c.swaps = 0 ∨ c.swaps = 1 ∧ c.key ≤ latest)
  | .finished => c.key ≤ latest ∧ c.cas ≤ c.key.key.toNat + 1 ∧ c.swaps ≤ 1

/-- What holds of the shared key and of all calls. -/
structure StoreInv (initial : GpsKey) (s : StoreSys) : Prop where
  calls : ∀ c ∈ s.calls, CallOk s.latest c
  initial_le : initial ≤ s.latest
  source : s.latest = initial ∨ ∃ c ∈ s.calls, s.latest = c.key

variable {initial latest latest' : GpsKey} {s t : StoreSys} {c : StoreCall}

/-- A call does not mind that the shared key grows. -/
theorem CallOk.mono (h : CallOk latest c) (hle : latest ≤ latest') : CallOk latest' c := by
  unfold CallOk at *
  split at h
  · exact h
  · obtain ⟨hlt, hold, hcas, hswaps⟩ := h
    exact ⟨hlt, hold.trans hle, hcas, hswaps.imp id (And.imp_right (·.trans hle))⟩
  · obtain ⟨hkey, hrest⟩ := h
    exact ⟨hkey.trans hle, hrest⟩

theorem CallOk.load (h : CallOk latest c) (hpc : c.pc = .loading) :
    CallOk latest (c.test less latest) := by
  simp only [CallOk, hpc] at h
  obtain ⟨hcas, hswaps⟩ := h
  by_cases hlt : latest < c.key
  · simp [CallOk, StoreCall.test, less, hlt, hcas, hswaps]
  · simp only [CallOk, StoreCall.test, less, hlt, decide_false, hcas, hswaps]
    exact ⟨not_lt.mp hlt, Nat.zero_le _, Nat.zero_le _⟩

theorem CallOk.swaps_eq_zero {oldKey : GpsKey} (h : CallOk latest c) (hpc : c.pc = .looping oldKey)
    (hlt : latest < c.key) : c.swaps = 0 := by
  simp only [CallOk, hpc] at h
  obtain ⟨-, -, -, hzero | ⟨-, hle⟩⟩ := h
  · exact hzero
  · exact absurd hle (not_le.mpr hlt)

/-- A swap: the shared key was still the old one, so this is the call's first. -/
theorem CallOk.swap (h : CallOk latest c) (hpc : c.pc = .looping latest) :
    latest < c.key ∧ CallOk c.key
      (StoreCall.test less { c with cas := c.cas + 1, swaps := c.swaps + 1 } latest) := by
  have hzero := h.swaps_eq_zero hpc
  simp only [CallOk, hpc] at h
  obtain ⟨hlt, -, hcas, -⟩ := h
  have hfirst := hzero hlt
  refine ⟨hlt, ?_⟩
  simp only [CallOk, StoreCall.test, less, hlt, decide_true, if_true, hfirst]
  exact ⟨trivial, hlt.le, by omega, .inr ⟨trivial, le_refl _⟩⟩

/-- A compare-and-swap that finds another key: the loop goes on with it or ends. -/
theorem CallOk.retry {oldKey : GpsKey} (h : CallOk latest c) (hpc : c.pc = .looping oldKey)
    (hne : latest ≠ oldKey) :
    CallOk latest (StoreCall.test less { c with cas := c.cas + 1 } latest) := by
  have hzero := h.swaps_eq_zero hpc
  simp only [CallOk, hpc] at h
  obtain ⟨hlt, hold, hcas, hswaps⟩ := h
  -- the key found is larger than the one expected: this is what bounds the retries
  have hgrown : oldKey.key.toNat < latest.key.toNat :=
    GpsKey.lt_def.mp (lt_of_le_of_ne hold hne.symm)
  have hkey := GpsKey.lt_def.mp hlt
  by_cases hagain : latest < c.key
  · have hfirst := hzero hagain
    simp only [CallOk, StoreCall.test, less, hagain, decide_true, if_true, hfirst]
    exact ⟨trivial, le_refl _, by omega, .inl trivial⟩
  · simp only [CallOk, StoreCall.test, less, hagain, decide_false]
    have hmax : c.swaps ≤ 1 := by omega
    refine ⟨not_lt.mp hagain, ?_, hmax⟩
    omega

/-- All that a step can do. -/
inductive StoreSys.Moves (s : StoreSys) : StoreAction → StoreSys → Prop
  | call (key : GpsKey) : Moves s (.call key) { s with calls := s.calls ++ [{ key := key }] }
  | load (n : ℕ) (c : StoreCall) (hn : s.calls[n]? = some c) (hpc : c.pc = .loading) :
      Moves s (.load n) { s with calls := s.calls.set n (c.test less s.latest) }
  | swap (n : ℕ) (c : StoreCall) (hn : s.calls[n]? = some c) (hpc : c.pc = .looping s.latest) :
      Moves s (.compareAndSwap n) ⟨c.key, s.calls.set n
        (StoreCall.test less { c with cas := c.cas + 1, swaps := c.swaps + 1 } s.latest)⟩
  | retry (n : ℕ) (c : StoreCall) (oldKey : GpsKey) (hn : s.calls[n]? = some c)
      (hpc : c.pc = .looping oldKey) (hne : s.latest ≠ oldKey) :
      Moves s (.compareAndSwap n) ⟨s.latest, s.calls.set n
        (StoreCall.test less { c with cas := c.cas + 1 } s.latest)⟩

theorem StoreSys.step_moves {a : StoreAction} {e : Unit} (h : s.step less a = some (e, t)) :
    Moves s a t := by
  cases a with
  | call key =>
    cases h
    exact .call key
  | load n =>
    simp only [step] at h
    split at h
    · rename_i c hn
      split at h
      · rename_i hpc
        cases h
        exact .load n c hn hpc
      · cases h
    · cases h
  | compareAndSwap n =>
    simp only [step] at h
    split at h
    · rename_i c hn
      split at h
      · rename_i oldKey hpc
        cases h
        by_cases heq : s.latest = oldKey
        · subst heq
          simpa [PubSub.compareAndSwap] using Moves.swap n c hn hpc
        · simpa [PubSub.compareAndSwap, heq] using Moves.retry n c oldKey hn hpc heq
      · cases h
    · cases h

/-- A step never makes the shared key smaller. -/
theorem StoreInv.latest_le {a : StoreAction} {e : Unit} (h : StoreInv initial s)
    (hst : s.step less a = some (e, t)) : s.latest ≤ t.latest := by
  cases StoreSys.step_moves hst with
  | call key => exact le_refl _
  | load n c hn hpc => exact le_refl _
  | swap n c hn hpc => exact ((h.calls c (List.mem_of_getElem? hn)).swap hpc).1.le
  | retry n c oldKey hn hpc hne => exact le_refl _

theorem map_key_set {calls : List StoreCall} {n : ℕ} {c c' : StoreCall}
    (hn : calls[n]? = some c) (hkey : c'.key = c.key) :
    (calls.set n c').map StoreCall.key = calls.map StoreCall.key := by
  obtain ⟨hlt, rfl⟩ := List.getElem?_eq_some_iff.mp hn
  have hlt' : n < (calls.map StoreCall.key).length := by simpa using hlt
  have hself : (calls.map StoreCall.key).set n (calls.map StoreCall.key)[n] =
      calls.map StoreCall.key := List.set_getElem_self hlt'
  rw [List.map_set, hkey]
  simpa using hself

/-- The invariant after call `n` has moved and the shared key with it. -/
theorem StoreInv.of_set {n : ℕ} {c' : StoreCall} (h : StoreInv initial s)
    (hn : s.calls[n]? = some c) (hkey : c'.key = c.key) (hle : s.latest ≤ latest')
    (hok : CallOk latest' c') (hsource : latest' = s.latest ∨ latest' = c.key) :
    StoreInv initial ⟨latest', s.calls.set n c'⟩ where
  calls d hd := by
    rcases List.mem_or_eq_of_mem_set hd with hd | rfl
    · exact (h.calls d hd).mono hle
    · exact hok
  initial_le := h.initial_le.trans hle
  source := by
    have hlt := (List.getElem?_eq_some_iff.mp hn).1
    have hmem : c' ∈ s.calls.set n c' := List.mem_set hlt c'
    have hkeys := map_key_set hn hkey
    rcases hsource with rfl | rfl
    · refine h.source.imp id ?_
      rintro ⟨d, hd, hlatest⟩
      have hin : d.key ∈ (s.calls.set n c').map StoreCall.key := by
        rw [hkeys]
        exact List.mem_map_of_mem hd
      obtain ⟨d', hd', hd'key⟩ := List.mem_map.mp hin
      exact ⟨d', hd', hlatest.trans hd'key.symm⟩
    · exact .inr ⟨c', hmem, hkey.symm⟩

theorem StoreInv.step {a : StoreAction} {e : Unit} (h : StoreInv initial s)
    (hst : s.step less a = some (e, t)) : StoreInv initial t := by
  cases StoreSys.step_moves hst with
  | call key =>
    refine ⟨fun d hd => ?_, h.initial_le, ?_⟩
    · rcases List.mem_append.mp hd with hd | hd
      · exact h.calls d hd
      · rw [List.mem_singleton.mp hd]
        exact ⟨rfl, rfl⟩
    · refine h.source.imp id ?_
      rintro ⟨d, hd, hlatest⟩
      exact ⟨d, List.mem_append_left _ hd, hlatest⟩
  | load n c hn hpc =>
    exact h.of_set hn rfl (le_refl _) ((h.calls c (List.mem_of_getElem? hn)).load hpc) (.inl rfl)
  | swap n c hn hpc =>
    obtain ⟨hlt, hok⟩ := (h.calls c (List.mem_of_getElem? hn)).swap hpc
    exact h.of_set hn rfl hlt.le hok (.inr rfl)
  | retry n c oldKey hn hpc hne =>
    exact h.of_set hn rfl (le_refl _) ((h.calls c (List.mem_of_getElem? hn)).retry hpc hne)
      (.inl rfl)

/-! ## Every run -/

def storedKeys (as : List StoreAction) : List GpsKey :=
  as.filterMap fun a => match a with
    | .call key => some key
    | _ => none

theorem keys_of_run {as : List StoreAction} {tr : List Unit}
    (h : run (StoreSys.step less) s as = some (tr, t)) :
    t.calls.map StoreCall.key = s.calls.map StoreCall.key ++ storedKeys as := by
  induction as generalizing s tr with
  | nil =>
    rw [run_nil, Option.some.injEq, Prod.mk.injEq] at h
    simp [h.2, storedKeys]
  | cons a as ih =>
    obtain ⟨e, u, es, hst, hrest, rfl⟩ := run_cons h
    rw [ih hrest]
    cases StoreSys.step_moves hst with
    | call key => simp [storedKeys]
    | load n c hn hpc | swap n c hn hpc | retry n c oldKey hn hpc hne =>
      exact congrArg (· ++ _) (map_key_set hn rfl)

/-- A bound that is reached is the maximum. -/
theorem foldl_max_eq {keys : List GpsKey} {m : GpsKey} (h0 : initial ≤ m)
    (hle : ∀ k ∈ keys, k ≤ m) (hmem : m = initial ∨ m ∈ keys) :
    keys.foldl max initial = m := by
  -- the induction takes the larger of `initial` and the first key as the new start
  induction keys generalizing initial with
  | nil => simpa [eq_comm] using hmem
  | cons k ks ih =>
    rw [List.foldl_cons]
    have hk : k ≤ m := hle k List.mem_cons_self
    refine ih (max_le h0 hk) (fun j hj => hle j (List.mem_cons_of_mem _ hj)) ?_
    rcases hmem with rfl | hmem
    · exact .inl (max_eq_left hk).symm
    · rcases List.mem_cons.mp hmem with rfl | hmem
      · exact .inl (max_eq_right h0).symm
      · exact .inr hmem

/-- Over every interleaving of any number of calls: the shared key never gets smaller; once
all calls have returned it is the largest of the initial key and all keys stored; a call that
has not returned can always make its next step, makes at most `key + 1` compare-and-swaps, at
most one of which swaps, and the compare-and-swap after that one ends its loop. -/
theorem latest_never_decreases {as : List StoreAction} {tr : List Unit}
    (h : run (StoreSys.step less) (.start initial) as = some (tr, s)) :
    (∀ bs tr' u, run (StoreSys.step less) s bs = some (tr', u) → s.latest ≤ u.latest) ∧
    ((∀ c ∈ s.calls, c.pc = .finished) → s.latest = (storedKeys as).foldl max initial) ∧
    (∀ c ∈ s.calls, c.swaps ≤ 1 ∧ c.cas ≤ c.key.key.toNat + 1) ∧
    (∀ n c, s.calls[n]? = some c → c.pc ≠ .finished →
      (s.step less (.load n)).isSome ∨ (s.step less (.compareAndSwap n)).isSome) ∧
    (∀ n c, s.calls[n]? = some c → c.swaps = 1 → ∀ u,
      s.step less (.compareAndSwap n) = some ((), u) →
        u.latest = s.latest ∧ (u.calls[n]?).map StoreCall.pc = some .finished) := by
  have hinv : StoreInv initial s := by
    refine run_invariant (StoreInv initial) (fun _ _ _ _ _ hi hst => hi.step hst) ?_ h
    exact ⟨fun c hc => absurd hc List.not_mem_nil, le_refl _, .inl rfl⟩
  -- calls are only ever added, in the order of the run
  have hkeys : s.calls.map StoreCall.key = storedKeys as := by
    simpa [StoreSys.start] using keys_of_run h
  refine ⟨fun bs tr' u hrun => ?_, fun hfin => ?_, fun c hc => ?_, fun n c hn hpc => ?_, ?_⟩
  · refine (run_invariant (fun v => StoreInv initial v ∧ s.latest ≤ v.latest) ?_
      ⟨hinv, le_refl _⟩ hrun).2
    rintro v a - e w ⟨hv, hle⟩ hst
    exact ⟨hv.step hst, hle.trans (hv.latest_le hst)⟩
  · refine (foldl_max_eq hinv.initial_le ?_ ?_).symm
    · intro k hk
      rw [← hkeys] at hk
      obtain ⟨c, hc, rfl⟩ := List.mem_map.mp hk
      have hok := hinv.calls c hc
      rw [CallOk, hfin c hc] at hok
      exact hok.1
    · rw [← hkeys]
      refine hinv.source.imp id ?_
      rintro ⟨c, hc, hlatest⟩
      exact hlatest ▸ List.mem_map_of_mem hc
  · have hok := hinv.calls c hc
    unfold CallOk at hok
    split at hok
    · omega
    · obtain ⟨hlt, -, hcas, hswaps⟩ := hok
      have := GpsKey.lt_def.mp hlt
      omega
    · omega
  · cases hcase : c.pc with
    | loading => exact .inl (by simp [StoreSys.step, hn, hcase])
    | looping oldKey => exact .inr (by simp [StoreSys.step, hn, hcase])
    | finished => exact absurd hcase hpc
  · intro n c hn hone u hst
    have hok := hinv.calls c (List.mem_of_getElem? hn)
    have hlt := (List.getElem?_eq_some_iff.mp hn).1
    cases StoreSys.step_moves hst with
    | swap n c' hn' hpc =>
      obtain rfl : c' = c := Option.some.inj (hn'.symm.trans hn)
      have hzero := hok.swaps_eq_zero hpc (hok.swap hpc).1
      omega
    | retry n c' oldKey hn' hpc hne =>
      obtain rfl : c' = c := Option.some.inj (hn'.symm.trans hn)
      have hle : ¬ s.latest < c'.key := fun hlt' => by
        have hzero := hok.swaps_eq_zero hpc hlt'
        omega
      simp [hlt, StoreCall.test, less, hle]

/-- Two calls that race for the shared key; the smaller key is overtaken. -/
private def race : List StoreAction :=
  [.call ⟨7⟩, .call ⟨5⟩, .load 0, .load 1, .compareAndSwap 1, .compareAndSwap 0,
   .compareAndSwap 0, .compareAndSwap 0, .compareAndSwap 1]

theorem latest_never_decreases_race :
    ∃ tr s, run (StoreSys.step less) (.start ⟨3⟩) race = some (tr, s) ∧
      s.latest = (storedKeys race).foldl max ⟨3⟩ ∧ s.latest = ⟨7⟩ := by
  have hrun : (run (StoreSys.step less) (.start ⟨3⟩) race).map
      (fun r => (r.2.latest, r.2.calls.map StoreCall.pc))
      = some (⟨7⟩, [.finished, .finished]) := by
    decide +kernel
  obtain ⟨⟨tr, s⟩, hr, heq⟩ := Option.map_eq_some_iff.mp hrun
  simp only [Prod.mk.injEq] at heq
  obtain ⟨hlatest, hpcs⟩ := heq
  obtain ⟨-, hmax, -⟩ := latest_never_decreases hr
  refine ⟨tr, s, hr, hmax fun c hc => ?_, hlatest⟩
  have hpc := List.mem_map_of_mem (f := StoreCall.pc) hc
  rw [hpcs] at hpc
  simpa using hpc

end AdvLigoRts.PubSub
