import AdvLigoRts.PubSub.GpsKey
import Mathlib.Tactic.Ring

/-!
# The keys of messages

A publisher makes the key of a message from the second and the cycle of its block. The plugins,
`cds_pub_sub` and `gps_key` widen the second to 64 bits and then shift it by 4; `pub_xmit` shifts it
by 8 as an `unsigned int`, so its keys know the second modulo `2 ^ 24` only
(`message_keys_order_iff`).
-/

namespace AdvLigoRts.PubSub

/-! ## The keys -/

/-- The key that `send_to_local_memory` of `pub_xmit.cc` publishes. -/
def pubXmitKey (timeSec nextCycle : UInt32) : UInt64 := ((timeSec <<< 8) + nextCycle).toUInt64

/-- The key that `rmipc_sub_loop` of `sub_plugin_rmipc.cc` hands on. -/
def rmipcKey (timeSec nextCycle : UInt32) : UInt64 :=
  timeSec.toUInt64 <<< 4 ||| (nextCycle &&& 0x0f).toUInt64

/-- The key that the loop of `sub_plugin_daq_m.cc` hands on. -/
def daqMKey (timeSec curCycle : UInt32) : UInt64 :=
  timeSec.toUInt64 <<< 4 ||| (curCycle &&& 0x0f).toUInt64

/-- The key that `data_recorder` of `cds_pub_sub.cc` publishes. -/
def dataRecorderKey (timeSec cycle : UInt32) : UInt64 :=
  timeSec.toUInt64 <<< 4 + (cycle &&& 0x0f).toUInt64

/-- A block is earlier than another. -/
def Earlier (s₁ c₁ s₂ c₂ : UInt32) : Prop := s₁ < s₂ ∨ s₁ = s₂ ∧ c₁ < c₂

instance (s₁ c₁ s₂ c₂ : UInt32) : Decidable (Earlier s₁ c₁ s₂ c₂) := by
  unfold Earlier
  infer_instance

/-- The keys of two blocks compare as their times, and are equal for one time only. -/
structure OrdersLikeTime (key : UInt32 → UInt32 → UInt64) (s₁ c₁ s₂ c₂ : UInt32) : Prop where
  lt_iff : key s₁ c₁ < key s₂ c₂ ↔ Earlier s₁ c₁ s₂ c₂
  gt_iff : key s₂ c₂ < key s₁ c₁ ↔ Earlier s₂ c₂ s₁ c₁
  eq_iff : key s₁ c₁ = key s₂ c₂ ↔ s₁ = s₂ ∧ c₁ = c₂

/-! ## Numbers with two digits -/

/-- A number with a low digit below `b` is less if its high digit is, or that is the same and its
low digit is less. -/
theorem digits_lt_iff {b hi lo hi' lo' : ℕ} (h : lo < b) (h' : lo' < b) :
    hi * b + lo < hi' * b + lo' ↔ hi < hi' ∨ hi = hi' ∧ lo < lo' := by
  rcases lt_trichotomy hi hi' with hlt | rfl | hgt
  · have hstep : (hi + 1) * b ≤ hi' * b := Nat.mul_le_mul_right b hlt
    rw [Nat.succ_mul] at hstep
    omega
  · omega
  · have hstep : (hi' + 1) * b ≤ hi * b := Nat.mul_le_mul_right b hgt
    rw [Nat.succ_mul] at hstep
    omega

theorem digits_eq_iff {b hi lo hi' lo' : ℕ} (h : lo < b) (h' : lo' < b) :
    hi * b + lo = hi' * b + lo' ↔ hi = hi' ∧ lo = lo' := by
  have hless := @digits_lt_iff b hi lo hi' lo' h h'
  have hmore := @digits_lt_iff b hi' lo' hi lo h' h
  omega

/-! ## The keys as numbers -/

section Keys

variable {s c s₁ c₁ s₂ c₂ : UInt32}

theorem toNat_pubXmitKey (hc : c < 16) :
    (pubXmitKey s c).toNat = s.toNat % 2 ^ 24 * 256 + c.toNat := by
  have hcycle : c.toNat < 16 := UInt32.lt_iff_toNat_lt.mp hc
  have hshift : (s <<< 8).toNat = s.toNat * 256 % 4294967296 := by
    rw [UInt32.toNat_shiftLeft, Nat.shiftLeft_eq]
    rfl
  unfold pubXmitKey
  rw [UInt32.toNat_toUInt64, UInt32.toNat_add, hshift]
  omega

/-- The low four bits of a cycle are the cycle. -/
theorem toNat_and_0f (hc : c < 16) : (c &&& 0x0f).toNat = c.toNat := by
  rw [UInt32.toNat_and]
  exact (Nat.and_two_pow_sub_one_eq_mod c.toNat 4).trans
    (Nat.mod_eq_of_lt (UInt32.lt_iff_toNat_lt.mp hc))

theorem toNat_shiftLeft_four (s : UInt32) : (s.toUInt64 <<< 4).toNat = 2 ^ 4 * s.toNat := by
  have hsec : s.toNat < 4294967296 := s.toNat_lt
  rw [UInt64.toNat_shiftLeft, Nat.shiftLeft_eq, UInt32.toNat_toUInt64]
  show s.toNat * 2 ^ 4 % 18446744073709551616 = _
  omega

theorem toNat_rmipcKey (hc : c < 16) : (rmipcKey s c).toNat = s.toNat * 16 + c.toNat := by
  have hcycle : c.toNat < 16 := UInt32.lt_iff_toNat_lt.mp hc
  unfold rmipcKey
  rw [UInt64.toNat_or, UInt32.toNat_toUInt64, toNat_and_0f hc, toNat_shiftLeft_four,
    ← Nat.two_pow_add_eq_or_of_lt hcycle s.toNat]
  omega

theorem toNat_dataRecorderKey (hc : c < 16) :
    (dataRecorderKey s c).toNat = s.toNat * 16 + c.toNat := by
  have hcycle : c.toNat < 16 := UInt32.lt_iff_toNat_lt.mp hc
  have hsec : s.toNat < 4294967296 := s.toNat_lt
  unfold dataRecorderKey
  rw [UInt64.toNat_add, UInt32.toNat_toUInt64, toNat_and_0f hc, toNat_shiftLeft_four]
  omega

theorem ordersLikeTime_of_digits {key : UInt32 → UInt32 → UInt64}
    (hkey : ∀ s c : UInt32, c < 16 → (key s c).toNat = s.toNat * 16 + c.toNat)
    (h₁ : c₁ < 16) (h₂ : c₂ < 16) : OrdersLikeTime key s₁ c₁ s₂ c₂ := by
  have hc₁ : c₁.toNat < 16 := UInt32.lt_iff_toNat_lt.mp h₁
  have hc₂ : c₂.toNat < 16 := UInt32.lt_iff_toNat_lt.mp h₂
  have hearlier : ∀ {s c s' c' : UInt32}, Earlier s c s' c' ↔
      s.toNat < s'.toNat ∨ s.toNat = s'.toNat ∧ c.toNat < c'.toNat := by
    intro s c s' c'
    unfold Earlier
    rw [UInt32.lt_iff_toNat_lt, UInt32.lt_iff_toNat_lt, ← UInt32.toNat_inj]
  refine ⟨?_, ?_, ?_⟩
  · rw [UInt64.lt_iff_toNat_lt, hkey _ _ h₁, hkey _ _ h₂, hearlier]
    exact digits_lt_iff hc₁ hc₂
  · rw [UInt64.lt_iff_toNat_lt, hkey _ _ h₁, hkey _ _ h₂, hearlier]
    exact digits_lt_iff hc₂ hc₁
  · rw [← UInt64.toNat_inj, hkey _ _ h₁, hkey _ _ h₂, ← UInt32.toNat_inj, ← UInt32.toNat_inj]
    exact digits_eq_iff hc₁ hc₂

/-- The two seconds are in one turn of `2 ^ 24` seconds, or the times within their turns compare as
the seconds do. -/
def InOrderWithinTurns (s₁ c₁ s₂ c₂ : UInt32) : Prop :=
  s₁.toNat / 2 ^ 24 = s₂.toNat / 2 ^ 24 ∨
  s₁ < s₂ ∧ (s₁.toNat % 2 ^ 24 < s₂.toNat % 2 ^ 24 ∨
    s₁.toNat % 2 ^ 24 = s₂.toNat % 2 ^ 24 ∧ c₁ < c₂) ∨
  s₂ < s₁ ∧ (s₂.toNat % 2 ^ 24 < s₁.toNat % 2 ^ 24 ∨
    s₂.toNat % 2 ^ 24 = s₁.toNat % 2 ^ 24 ∧ c₂ < c₁)

theorem ordersLikeTime_pubXmitKey_iff (h₁ : c₁ < 16) (h₂ : c₂ < 16) :
    OrdersLikeTime pubXmitKey s₁ c₁ s₂ c₂ ↔ InOrderWithinTurns s₁ c₁ s₂ c₂ := by
  have hc₁ : c₁.toNat < 16 := UInt32.lt_iff_toNat_lt.mp h₁
  have hc₂ : c₂.toNat < 16 := UInt32.lt_iff_toNat_lt.mp h₂
  have hlt : pubXmitKey s₁ c₁ < pubXmitKey s₂ c₂ ↔ s₁.toNat % 2 ^ 24 < s₂.toNat % 2 ^ 24 ∨
      s₁.toNat % 2 ^ 24 = s₂.toNat % 2 ^ 24 ∧ c₁.toNat < c₂.toNat := by
    rw [UInt64.lt_iff_toNat_lt, toNat_pubXmitKey h₁, toNat_pubXmitKey h₂]
    exact digits_lt_iff (by omega) (by omega)
  have hgt : pubXmitKey s₂ c₂ < pubXmitKey s₁ c₁ ↔ s₂.toNat % 2 ^ 24 < s₁.toNat % 2 ^ 24 ∨
      s₂.toNat % 2 ^ 24 = s₁.toNat % 2 ^ 24 ∧ c₂.toNat < c₁.toNat := by
    rw [UInt64.lt_iff_toNat_lt, toNat_pubXmitKey h₁, toNat_pubXmitKey h₂]
    exact digits_lt_iff (by omega) (by omega)
  have heq : pubXmitKey s₁ c₁ = pubXmitKey s₂ c₂ ↔ s₁.toNat % 2 ^ 24 = s₂.toNat % 2 ^ 24 ∧
      c₁.toNat = c₂.toNat := by
    rw [← UInt64.toNat_inj, toNat_pubXmitKey h₁, toNat_pubXmitKey h₂]
    exact digits_eq_iff (by omega) (by omega)
  unfold InOrderWithinTurns
  simp only [UInt32.lt_iff_toNat_lt]
  constructor
  · intro h
    have hlt' := hlt.symm.trans h.lt_iff
    have hgt' := hgt.symm.trans h.gt_iff
    have heq' := heq.symm.trans h.eq_iff
    simp only [Earlier, UInt32.lt_iff_toNat_lt, ← UInt32.toNat_inj] at hlt' hgt' heq'
    omega
  · intro h
    refine ⟨hlt.trans ?_, hgt.trans ?_, heq.trans ?_⟩
    · simp only [Earlier, UInt32.lt_iff_toNat_lt, ← UInt32.toNat_inj]
      omega
    · simp only [Earlier, UInt32.lt_iff_toNat_lt, ← UInt32.toNat_inj]
      omega
    · simp only [← UInt32.toNat_inj]
      omega

end Keys

/-- The keys of all publishers, and `gps_key`, order two blocks like their times exactly if those
of `pub_xmit` do: within one turn of `2 ^ 24` seconds, and beyond it where the turns happen to
agree. -/
theorem message_keys_order_iff {s₁ c₁ s₂ c₂ : UInt32} (h₁ : c₁ < 16) (h₂ : c₂ < 16) :
    (OrdersLikeTime pubXmitKey s₁ c₁ s₂ c₂ ∧ OrdersLikeTime rmipcKey s₁ c₁ s₂ c₂ ∧
      OrdersLikeTime daqMKey s₁ c₁ s₂ c₂ ∧ OrdersLikeTime dataRecorderKey s₁ c₁ s₂ c₂ ∧
      OrdersLikeTime (fun s c => (GpsKey.ofTime s.toUInt64 c).key) s₁ c₁ s₂ c₂) ↔
      InOrderWithinTurns s₁ c₁ s₂ c₂ := by
  rw [ordersLikeTime_pubXmitKey_iff h₁ h₂]
  refine and_iff_left ⟨?_, ?_, ?_, ?_⟩
  · exact ordersLikeTime_of_digits (fun _ _ => toNat_rmipcKey) h₁ h₂
  · exact ordersLikeTime_of_digits (fun _ _ => toNat_rmipcKey) h₁ h₂
  · exact ordersLikeTime_of_digits (fun _ _ => toNat_dataRecorderKey) h₁ h₂
  · exact ordersLikeTime_of_digits (fun _ _ => toNat_rmipcKey) h₁ h₂

/-- Two seconds of one turn. -/
theorem message_keys_order_same_turn :
    (OrdersLikeTime pubXmitKey 1300000000 15 1300000001 0 ∧
      OrdersLikeTime rmipcKey 1300000000 15 1300000001 0 ∧
      OrdersLikeTime daqMKey 1300000000 15 1300000001 0 ∧
      OrdersLikeTime dataRecorderKey 1300000000 15 1300000001 0 ∧
      OrdersLikeTime (fun s c => (GpsKey.ofTime s.toUInt64 c).key) 1300000000 15 1300000001 0) ↔
      InOrderWithinTurns 1300000000 15 1300000001 0 :=
  message_keys_order_iff (by decide) (by decide)

/-- The last second of a turn and the next one: the key falls from `0xffffff00` to 0. -/
theorem pubXmitKey_falls : ¬ OrdersLikeTime pubXmitKey 1308622847 0 1308622848 0 := by
  intro h
  exact absurd (h.lt_iff.mpr (by decide)) (by decide)

end AdvLigoRts.PubSub
