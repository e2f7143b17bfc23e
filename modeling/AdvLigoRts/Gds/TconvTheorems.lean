import AdvLigoRts.Gds.Tconv
import Mathlib.Data.List.GetD

/-!
# The two conversions are inverse to each other

The year loop keeps the number of days since the first of January 1972, which is what `UTCtoTAI`
computes from the date; that it ends is shown by following its at most three turns.
-/

namespace AdvLigoRts.Gds

/-! ## Years -/

theorem secsPerHour_eq : secsPerHour = 3600 := by decide

theorem secsPerDay_eq : secsPerDay = 86400 := rfl

theorem offsTai_eq : offsTai = 441763210 := rfl

/-- On years of our era C's division is the one that rounds down. -/
theorem leapsThruEndOf_eq {y : ℤ} (hy : 0 ≤ y) :
    leapsThruEndOf y = y / 4 - y / 100 + y / 400 := by
  simp only [leapsThruEndOf, Int.tdiv_eq_ediv_of_nonneg hy]

theorem isLeap_eq {y : ℤ} (hy : 0 ≤ y) :
    isLeap y = decide (4 ∣ y ∧ (¬ 100 ∣ y ∨ 400 ∣ y)) := by
  simp only [isLeap, Int.tmod_eq_emod_of_nonneg hy, Int.dvd_iff_emod_eq_zero]

theorem leapsThruEndOf_succ {y : ℤ} (hy : 1 ≤ y) :
    leapsThruEndOf y - leapsThruEndOf (y - 1) = yearLength y - 365 := by
  rw [leapsThruEndOf_eq (by omega), leapsThruEndOf_eq (by omega), yearLength, isLeap_eq (by omega)]
  split
  · next h =>
    rw [decide_eq_true_eq] at h
    omega
  · next h =>
    rw [decide_eq_true_eq] at h
    omega

/-- At most every fourth year is a leap year. -/
theorem leapsThruEndOf_bounds {a b : ℤ} (ha : 1 ≤ a) (hab : a ≤ b) :
    0 ≤ leapsThruEndOf (b - 1) - leapsThruEndOf (a - 1) ∧
      4 * (leapsThruEndOf (b - 1) - leapsThruEndOf (a - 1)) ≤ b - a + 3 := by
  rw [leapsThruEndOf_eq (by omega), leapsThruEndOf_eq (by omega)]
  omega

theorem yearLength_bounds (y : ℤ) : 365 ≤ yearLength y ∧ yearLength y ≤ 366 := by
  unfold yearLength
  split <;> omega

/-- The days since the first of January 1972 of day `days` of year `y`. -/
def dayNumber (y days : ℤ) : ℤ :=
  days + 365 * (y - offsYear) + leapsThruEndOf (y - 1) - leapsThruEndOf (offsYear - 1)

theorem year_guess (days : ℤ) :
    days.tdiv 365 - (if days.tmod 365 < 0 then 1 else 0) = days / 365 := by
  have hsign : Int.sign 365 = 1 := rfl
  have habs : ((365 : ℤ).natAbs : ℤ) = 365 := rfl
  rw [Int.tdiv_eq_ediv, Int.tmod_eq_emod, hsign]
  by_cases h : 0 ≤ days ∨ 365 ∣ days
  · rw [if_pos h, if_pos h, if_neg (by omega)]
    omega
  · rw [if_neg h, if_neg h, habs, if_pos (by omega)]
    omega

/-- One turn of the loop, with the quotient rounded down. -/
theorem yearLoop_succ (fuel : ℕ) (y days : ℤ) :
    yearLoop (fuel + 1) y days =
      if days < 0 ∨ days ≥ yearLength y then
        yearLoop fuel (y + days / 365)
          (days % 365 - (leapsThruEndOf (y + days / 365 - 1) - leapsThruEndOf (y - 1)))
      else some (y, days) := by
  have hguess := year_guess days
  have hyear : y + days.tdiv 365 - (if days.tmod 365 < 0 then 1 else 0) = y + days / 365 := by
    omega
  have hdays : days - ((y + days / 365 - y) * 365 + leapsThruEndOf (y + days / 365 - 1)
      - leapsThruEndOf (y - 1))
      = days % 365 - (leapsThruEndOf (y + days / 365 - 1) - leapsThruEndOf (y - 1)) := by
    omega
  rw [yearLoop]
  simp only [hyear, hdays]

theorem yearLoop_spec {fuel : ℕ} {y days y' days' : ℤ}
    (h : yearLoop fuel y days = some (y', days')) :
    dayNumber y' days' = dayNumber y days ∧ 0 ≤ days' ∧ days' < yearLength y' := by
  induction fuel generalizing y days with
  | zero => cases h
  | succ fuel ih =>
    rw [yearLoop_succ] at h
    split at h
    · obtain ⟨hday, hyear⟩ := ih h
      refine ⟨hday.trans ?_, hyear⟩
      unfold dayNumber
      omega
    · next hexit =>
      cases h
      exact ⟨rfl, by omega⟩

/-- Three turns are enough from 1972 on, for as many days as there are in 2^40 seconds. -/
theorem yearLoop_isSome {days : ℤ} (h0 : 0 ≤ days) (hmax : days < 2 ^ 24) (fuel : ℕ) :
    ∃ y' days', yearLoop (fuel + 4) offsYear days = some (y', days') ∧ 1 ≤ y' := by
  have hy0 : offsYear = 1972 := rfl
  rw [yearLoop_succ]
  split
  · -- the first guess is late by the leap days before it
    have hlen := yearLength_bounds offsYear
    obtain ⟨hlo, hhi⟩ := leapsThruEndOf_bounds (a := offsYear) (b := offsYear + days / 365)
      (by omega) (by omega)
    generalize hy1 : offsYear + days / 365 = y1 at *
    generalize hd1 : days % 365 - (leapsThruEndOf (y1 - 1) - leapsThruEndOf (offsYear - 1)) = d1
      at *
    rw [yearLoop_succ]
    split
    · have hlen1 := yearLength_bounds y1
      have hneg : d1 < 0 := by omega
      -- the second goes back to where the year has begun, or to the end of the one before
      obtain ⟨hlo1, hhi1⟩ := leapsThruEndOf_bounds (a := y1 + d1 / 365) (b := y1)
        (by omega) (by omega)
      generalize hy2 : y1 + d1 / 365 = y2 at *
      generalize hd2 : d1 % 365 - (leapsThruEndOf (y2 - 1) - leapsThruEndOf (y1 - 1)) = d2 at *
      rw [yearLoop_succ]
      split
      · have hlen2 := yearLength_bounds y2
        have hq : d2 / 365 = 1 := by omega
        have hsucc := leapsThruEndOf_succ (y := y2) (by omega)
        have hlen3 := yearLength_bounds (y2 + 1)
        rw [hq, yearLoop_succ, if_neg]
        · exact ⟨_, _, rfl, by omega⟩
        · have : y2 + 1 - 1 = y2 := by omega
          rw [this]
          omega
      · exact ⟨_, _, rfl, by omega⟩
    · exact ⟨_, _, rfl, by omega⟩
  · exact ⟨_, _, rfl, by omega⟩

/-! ## Months -/

theorem monthLoop_spec {leap : Bool} {days : ℤ} (mon : ℕ) (h0 : 0 ≤ days)
    (h : days < monYday leap (mon + 1)) :
    monthLoop leap days mon ≤ mon ∧ monYday leap (monthLoop leap days mon) ≤ days ∧
      days < monYday leap (monthLoop leap days mon + 1) := by
  induction mon with
  | zero =>
    have hzero : monYday leap 0 = 0 := by cases leap <;> rfl
    rw [monthLoop, hzero]
    exact ⟨le_refl 0, h0, h⟩
  | succ mon ih =>
    rw [monthLoop]
    split
    · next hlt =>
      obtain ⟨hle, hspec⟩ := ih hlt
      exact ⟨by omega, hspec⟩
    · exact ⟨le_refl _, by omega, h⟩

theorem monYday_twelve {y : ℤ} : monYday (isLeap y) 12 = yearLength y := by
  unfold yearLength monYday
  cases isLeap y <;> rfl

theorem monYday_other : ∀ leap : Bool, ∀ mon < 12, mon ≠ 1 → monYday leap (mon + 1)
    = monYday leap mon + if mon = 3 ∨ mon = 5 ∨ mon = 8 ∨ mon = 10 then 30 else 31 := by
  decide

/-- The table `mon_yday` has the lengths of the months. -/
theorem monYday_succ {y : ℤ} (hy : 0 ≤ y) : ∀ mon < 12,
    monYday (isLeap y) (mon + 1) = monYday (isLeap y) mon + daysInMonth y mon := by
  have hfeb : daysInMonth y 1 = if isLeap y then 29 else 28 := by
    simp only [daysInMonth, if_true, isLeap_eq hy, decide_eq_true_eq]
  intro mon hmon
  by_cases h1 : mon = 1
  · subst h1
    rw [Nat.cast_one, hfeb]
    cases isLeap y <;> rfl
  · have hother : daysInMonth y mon =
        if mon = 3 ∨ mon = 5 ∨ mon = 8 ∨ mon = 10 then 30 else 31 := by
      unfold daysInMonth
      rw [if_neg (by omega)]
      norm_cast
    rw [hother]
    exact monYday_other (isLeap y) mon hmon h1

theorem sum_daysInMonth {y : ℤ} (hy : 0 ≤ y) {mon : ℕ} (hmon : mon ≤ 12) :
    ((List.range mon).map fun m : ℕ => daysInMonth y m).sum = monYday (isLeap y) mon := by
  induction mon with
  | zero => cases isLeap y <;> rfl
  | succ mon ih =>
    rw [List.range_succ, List.map_append, List.sum_append, ih (by omega),
      monYday_succ hy mon (by omega)]
    simp

/-! ## Leap seconds -/

section LeapTable

variable {leaps : List Leap} {day : ℕ → ℤ}

/-- `day` witnesses that the table has the built-in shape. -/
structure Shape (leaps : List Leap) (day : ℕ → ℤ) : Prop where
  nonneg : ∀ i < leaps.length, 0 ≤ day i
  increasing : ∀ i j, i < j → j < leaps.length → day i < day j
  entry : ∀ i < leaps.length, leaps.getD i default = ⟨offsTai + day i * secsPerDay + i, i + 1⟩

theorem Shape.mono (h : Shape leaps day) {i j : ℕ} (hij : i ≤ j) (hj : j < leaps.length) :
    day i ≤ day j := by
  rcases Nat.lt_or_eq_of_le hij with hlt | rfl
  · exact Int.le_of_lt (h.increasing i j hlt hj)
  · exact Int.le_refl _

/-- The backward search stops at the last transition not after `t`. -/
theorem findLeap_spec (leaps : List Leap) (t : ℤ) (m : ℕ) :
    (findLeap leaps t m = none ∧ ∀ i < m, t < (leaps.getD i default).transition) ∨
    ∃ i < m, findLeap leaps t m = some i ∧ (leaps.getD i default).transition ≤ t ∧
      ∀ j, i < j → j < m → t < (leaps.getD j default).transition := by
  induction m with
  | zero => exact Or.inl ⟨rfl, fun i hi => absurd hi (Nat.not_lt_zero i)⟩
  | succ m ih =>
    rw [findLeap]
    split
    · next hlt =>
      rcases ih with ⟨hnone, hall⟩ | ⟨i, hi, hsome, hle, hafter⟩
      · refine Or.inl ⟨hnone, fun i hi => ?_⟩
        rcases Nat.lt_succ_iff_lt_or_eq.mp hi with hi | rfl
        · exact hall i hi
        · exact hlt
      · refine Or.inr ⟨i, by omega, hsome, hle, fun j hj hjm => ?_⟩
        rcases Nat.lt_succ_iff_lt_or_eq.mp hjm with hjm | rfl
        · exact hafter j hj hjm
        · exact hlt
    · next hge =>
      exact Or.inr ⟨m, by omega, rfl, by omega, fun j hj hjm => by omega⟩

/-- Two transitions are never a second apart. -/
theorem leapExtraSecs_eq (h : Shape leaps day) {i : ℕ} (hi : i < leaps.length) :
    leapExtraSecs leaps i 1 = 1 := by
  cases i with
  | zero => rfl
  | succ i =>
    have hday := h.increasing i (i + 1) (by omega) hi
    rw [leapExtraSecs, if_neg]
    rw [h.entry _ hi, h.entry i (by omega), secsPerDay_eq]
    push_cast
    omega

/-- `TAItoUTC` finds either the number `c` of entries that lie in the past of a second, or the
entry whose leap second it is. -/
theorem leapAt_spec (h : Shape leaps day) {t : ℤ} (ht : offsTai < t) :
    (∃ c : ℕ, c ≤ leaps.length ∧ leapAt leaps t = ((c : ℤ), 0) ∧ 0 ≤ t - offsTai - c ∧
      ∀ i < leaps.length, day i * secsPerDay ≤ t - offsTai - c ↔ i < c) ∨
    ∃ i < leaps.length, leapAt leaps t = ((i : ℤ) + 1, 1) ∧ 1 ≤ day i ∧
      t = offsTai + day i * secsPerDay + i := by
  unfold leapAt
  rcases findLeap_spec leaps t leaps.length with
    ⟨hnone, hall⟩ | ⟨i, hi, hsome, hle, hafter⟩
  · -- before the first entry
    left
    refine ⟨0, Nat.zero_le _, by rw [hnone]; rfl, by push_cast; omega, fun j hj => ?_⟩
    have hfirst := hall 0 (by omega)
    have hmono := h.mono (Nat.zero_le j) hj
    rw [h.entry 0 (by omega)] at hfirst
    simp only [secsPerDay_eq] at hfirst ⊢
    push_cast at hfirst ⊢
    omega
  · have hentry := h.entry i hi
    rw [hentry] at hle
    have hchange : (i = 0 ∧ (leaps.getD i default).change > 0) ∨
        (leaps.getD i default).change > (leaps.getD (i - 1) default).change := by
      rcases Nat.eq_zero_or_pos i with rfl | hpos
      · left
        rw [hentry]
        exact ⟨rfl, by simp⟩
      · right
        rw [hentry, h.entry (i - 1) (by omega)]
        simp only
        omega
    simp only [hsome]
    by_cases heq : t = (leaps.getD i default).transition
    · -- in the inserted second
      right
      rw [if_pos ⟨heq, hchange⟩, leapExtraSecs_eq h hi]
      rw [hentry] at heq ⊢
      refine ⟨i, hi, rfl, ?_, heq⟩
      by_contra hday
      have hzero : day i = 0 := by have := h.nonneg i hi; omega
      rcases Nat.eq_zero_or_pos i with rfl | hpos
      · simp only [hzero] at heq
        push_cast at heq
        omega
      · have := h.increasing 0 i hpos hi
        have := h.nonneg 0 (by omega)
        omega
    · left
      rw [if_neg (fun hc => heq hc.1)]
      rw [hentry] at heq ⊢
      refine ⟨i + 1, hi, by push_cast; rfl, ?_, fun j hj => ?_⟩
      · have := h.nonneg i hi
        simp only [secsPerDay_eq] at heq hle ⊢
        push_cast
        omega
      · simp only [secsPerDay_eq] at heq hle ⊢
        push_cast
        constructor
        · intro hpast
          by_contra hlate
          -- entry `i + 1` would lie in the past too
          have hnext := hafter (i + 1) (by omega) (by omega)
          rw [h.entry (i + 1) (by omega), secsPerDay_eq] at hnext
          have := h.mono (show i + 1 ≤ j by omega) hj
          push_cast at hnext
          omega
        · intro hlt
          have := h.mono (show j ≤ i by omega) hi
          omega

/-- The forward loop passes the entries below `c` and no other. -/
theorem leapLoop_eq (h : Shape leaps day) {tai extra : ℤ} {c : ℕ} (hc : c ≤ leaps.length)
    (hpass : ∀ i < leaps.length, (extra > 0 ∧ tai + i - extra > offsTai + day i * secsPerDay + i ∨
      extra = 0 ∧ tai + i ≥ offsTai + day i * secsPerDay + i) ↔ i < c)
    {j : ℕ} (hj : j ≤ c) : leapLoop tai extra (leaps.drop j) j = c := by
  induction hk : c - j generalizing j with
  | zero =>
    obtain rfl : j = c := by omega
    rcases Nat.lt_or_ge j leaps.length with hlt | hge
    · have hentry := h.entry j hlt
      rw [List.getD_eq_getElem _ _ hlt] at hentry
      rw [List.drop_eq_getElem_cons hlt, leapLoop, hentry, if_neg]
      exact fun hcond => absurd ((hpass j hlt).mp hcond) (Nat.lt_irrefl j)
    · rw [List.drop_eq_nil_of_le hge, leapLoop]
  | succ k ih =>
    have hlt : j < leaps.length := by omega
    have hentry := h.entry j hlt
    rw [List.getD_eq_getElem _ _ hlt] at hentry
    rw [List.drop_eq_getElem_cons hlt, leapLoop, hentry,
      if_pos ((hpass j hlt).mpr (by omega))]
    have := ih (j := j + 1) (by omega) (by omega)
    push_cast at this
    exact this

end LeapTable

/-! ## There and back -/

/-- What `TAItoUTC` makes of the second `tt`, counted from 1972 without leap seconds. -/
theorem taiToUtc_eq {leaps : List Leap} {t correction extra tt : ℤ}
    (hleap : leapAt leaps (t + taiAtGpsZero) = (correction, extra))
    (htt : tt = t + taiAtGpsZero - offsTai - correction) (ht : offsTai ≤ t + taiAtGpsZero)
    (h0 : 0 ≤ tt) (hmax : tt < 2 ^ 24 * secsPerDay) :
    ∃ y yday, 1 ≤ y ∧ dayNumber y yday = tt / secsPerDay ∧ 0 ≤ yday ∧ yday < yearLength y ∧
      taiToUtc leaps t = some
        { sec := tt % 60 + extra
          min := tt / 60 % 60
          hour := tt % secsPerDay / 3600
          mday := yday - monYday (isLeap y) (monthLoop (isLeap y) yday 11) + 1
          mon := monthLoop (isLeap y) yday 11
          year := y - 1900
          wday := (6 + tt / secsPerDay) % 7
          yday := yday } := by
  rw [secsPerDay_eq] at hmax ⊢
  have hdays : 0 ≤ tt / 86400 := by omega
  obtain ⟨y, yday, hloop, hy⟩ :=
    yearLoop_isSome hdays (by omega) (tt / 86400).natAbs
  obtain ⟨hnumber, hyday⟩ := yearLoop_spec hloop
  refine ⟨y, yday, hy, ?_, hyday.1, hyday.2, ?_⟩
  · rw [hnumber]
    simp [dayNumber]
  · have hraise : raiseRem (tt / 86400) (tt % 86400) = (tt / 86400, tt % 86400) := by
      rw [raiseRem, if_neg (by omega)]
    have hlower : lowerRem (tt / 86400) (tt % 86400) = (tt / 86400, tt % 86400) := by
      rw [lowerRem, secsPerDay_eq, if_neg (by omega)]
    have hrem : 0 ≤ tt % 86400 := by omega
    have hrem' : 0 ≤ tt % 86400 % 3600 := by omega
    have hwday : 0 ≤ offsWday + tt / 86400 := by simp only [offsWday]; omega
    have hwday' : ¬ (offsWday + tt / 86400) % 7 < 0 := by omega
    have hsec : tt % 86400 % 3600 % 60 = tt % 60 := by omega
    have hmin : tt % 86400 % 3600 / 60 = tt / 60 % 60 := by omega
    simp only [taiToUtc, if_neg (Int.not_lt.mpr ht), hleap, ← htt, secsPerDay_eq,
      secsPerHour_eq, Int.tdiv_eq_ediv_of_nonneg h0, Int.tmod_eq_emod_of_nonneg h0, hraise,
      hlower, hloop, Int.tdiv_eq_ediv_of_nonneg hrem, Int.tmod_eq_emod_of_nonneg hrem,
      Int.tdiv_eq_ediv_of_nonneg hrem', Int.tmod_eq_emod_of_nonneg hrem', hsec, hmin,
      Int.tmod_eq_emod_of_nonneg hwday, if_neg hwday']
    rfl

/-- What `UTCtoTAI` makes of a date, once the leap second table has been gone through. -/
theorem utcToTai_eq {leaps : List Leap} {utc : Utc} {y yday : ℤ} {mon : ℕ} (hmon : mon < 12)
    (hum : utc.mon = mon) (huy : utc.year = y - 1900)
    (hday : utc.mday = yday - monYday (isLeap y) mon + 1) (h0 : 0 ≤ dayNumber y yday) :
    utcToTai leaps utc =
      let tai := dayNumber y yday * secsPerDay + offsTai + utc.hour * secsPerHour
        + utc.min * 60 + utc.sec
      tai + leapLoop tai (if utc.sec > 59 then utc.sec - 59 else 0) leaps 0 - taiAtGpsZero := by
  have hrem : utc.mon.tmod 12 = mon := by
    rw [hum, Int.tmod_eq_emod_of_nonneg (by omega)]
    omega
  have hquot : utc.mon.tdiv 12 = 0 := by
    rw [hum, Int.tdiv_eq_ediv_of_nonneg (by omega)]
    omega
  have hneg : ¬ ((mon : ℤ) < 0) := by omega
  have hyear : utc.year + 0 + 1900 = y := by omega
  have hydays : monYday (isLeap y) mon + utc.mday - 1 = yday := by omega
  have hnumber : yday + 365 * (y - offsYear) + leapsThruEndOf (y - 1)
      - leapsThruEndOf (offsYear - 1) = dayNumber y yday := rfl
  simp only [utcToTai, hrem, hquot, if_neg hneg, hyear, Int.toNat_natCast, hydays, hnumber,
    if_neg (Int.not_lt.mpr h0)]

/-- A date made of a day of the calendar and a second of that day is valid. -/
theorem valid_of_yday {utc : Utc} {y yday : ℤ} (hy : 1 ≤ y) (h0 : 0 ≤ yday)
    (hlen : yday < yearLength y) (hmon : utc.mon = monthLoop (isLeap y) yday 11)
    (hyear : utc.year = y - 1900)
    (hmday : utc.mday = yday - monYday (isLeap y) (monthLoop (isLeap y) yday 11) + 1)
    (hyday : utc.yday = yday) (hhour : 0 ≤ utc.hour ∧ utc.hour < 24)
    (hmin : 0 ≤ utc.min ∧ utc.min < 60) (hsec : 0 ≤ utc.sec ∧ utc.sec ≤ 60) : utc.Valid := by
  have hmonth := monthLoop_spec 11 h0 (by rw [monYday_twelve]; exact hlen)
  have hyear' : utc.year + 1900 = y := by omega
  have hy0 : 0 ≤ y := by omega
  refine ⟨hhour, hmin, hsec, by omega, ?_, ?_⟩
  · have hnext := monYday_succ hy0 (monthLoop (isLeap y) yday 11) (by omega)
    rw [hyear', hmon, hmday]
    omega
  · rw [hyear', hmon, Int.toNat_natCast, sum_daysInMonth hy0 (by omega), hmday, hyday]
    omega

/-- The round trip, from what the two leap second searches find: `TAItoUTC` corrects `t` to
the second `tt`, and `UTCtoTAI` passes `c` entries on the way back. -/
theorem round_trip_of_leaps {leaps : List Leap} {day : ℕ → ℤ} (hs : Shape leaps day)
    {t correction extra tt : ℤ} {c : ℕ}
    (hleap : leapAt leaps (t + taiAtGpsZero) = (correction, extra))
    (htt : tt = t + taiAtGpsZero - offsTai - correction) (ht : offsTai ≤ t + taiAtGpsZero)
    (h0 : 0 ≤ tt) (hmax : tt < 2 ^ 24 * secsPerDay)
    (hextra : extra = 0 ∨ extra = 1 ∧ tt % secsPerDay = secsPerDay - 1)
    (hc : c ≤ leaps.length) (hback : t + taiAtGpsZero = offsTai + tt + extra + c)
    (hpass : ∀ i < leaps.length, (extra > 0 ∧
      offsTai + tt + extra + i - extra > offsTai + day i * secsPerDay + i ∨
      extra = 0 ∧ offsTai + tt + extra + i ≥ offsTai + day i * secsPerDay + i) ↔ i < c) :
    ∃ utc, taiToUtc leaps t = some utc ∧ utc.Valid ∧ utcToTai leaps utc = t := by
  obtain ⟨y, yday, hy, hnumber, hyday0, hyday1, hutc⟩ := taiToUtc_eq hleap htt ht h0 hmax
  have hmonth := monthLoop_spec 11 hyday0 (by rw [monYday_twelve]; exact hyday1)
  rw [secsPerDay_eq] at hnumber hextra hutc
  refine ⟨_, hutc, ?_, ?_⟩
  · apply valid_of_yday hy hyday0 hyday1 rfl rfl rfl rfl
    all_goals
      simp only
      omega
  · have hlt : monthLoop (isLeap y) yday 11 < 12 := by omega
    rw [utcToTai_eq hlt rfl rfl rfl (by omega)]
    simp only [hnumber, secsPerDay_eq, secsPerHour_eq]
    have htai : tt / 86400 * 86400 + offsTai + tt % 86400 / 3600 * 3600 + tt / 60 % 60 * 60
        + (tt % 60 + extra) = offsTai + tt + extra := by
      omega
    have hover : (if tt % 60 + extra > 59 then tt % 60 + extra - 59 else 0) = extra := by
      split <;> omega
    have hloop := leapLoop_eq hs hc hpass (Nat.zero_le c)
    rw [List.drop_zero, Nat.cast_zero] at hloop
    rw [htai, hover, hloop]
    omega

/-- For every leap second table of the built-in shape and every GPS time below 2^40,
`TAItoUTC` fills in a valid date and time, and `UTCtoTAI` takes it back to the same time. -/
theorem tai_utc_round_trip (leaps : List Leap) (hshape : BuiltInShape leaps) (t : ℕ)
    (ht : t < 2 ^ 40) :
    ∃ utc, taiToUtc leaps t = some utc ∧ utc.Valid ∧ utcToTai leaps utc = t := by
  obtain ⟨day, hnonneg, hincreasing, hentry⟩ := hshape
  have hs : Shape leaps day := ⟨hnonneg, hincreasing, hentry⟩
  have hzero : taiAtGpsZero = 694656019 := rfl
  have hoffs := offsTai_eq
  have hday := secsPerDay_eq
  have ht' : (t : ℤ) < 2 ^ 40 := by exact_mod_cast ht
  rcases leapAt_spec hs (t := t + taiAtGpsZero) (by omega) with
    ⟨c, hc, hleap, h0, hpast⟩ | ⟨i, hi, hleap, hpos, heq⟩
  · -- an ordinary second
    apply round_trip_of_leaps hs hleap rfl (by omega) h0 (by omega) (Or.inl rfl) hc (by omega)
    intro i hi
    rw [← hpast i hi]
    constructor
    · rintro (⟨hfalse, -⟩ | ⟨-, hge⟩)
      · omega
      · omega
    · intro hle
      exact Or.inr ⟨rfl, by omega⟩
  · -- an inserted second: `UTCtoTAI` stops before its entry
    rw [hday] at heq
    have htt : t + taiAtGpsZero - offsTai - ((i : ℤ) + 1) = day i * 86400 - 1 := by omega
    apply round_trip_of_leaps hs hleap htt.symm (by omega) (by omega) (by omega)
      (Or.inr ⟨rfl, by rw [hday]; omega⟩) (Nat.le_of_lt hi) (by omega)
    intro j hj
    rw [hday]
    constructor
    · rintro (⟨-, hgt⟩ | ⟨hfalse, -⟩)
      · by_contra hge
        have := hs.mono (show i ≤ j by omega) hj
        omega
      · omega
    · intro hlt
      have := hs.increasing j i hlt hi
      exact Or.inl ⟨by omega, by omega⟩

/-- The days before which the built-in table inserts a second. -/
def builtInDay (i : ℕ) : ℤ :=
  [182, 366, 731, 1096, 1461, 1827, 2192, 2557, 2922, 3469, 3834, 4199, 4930, 5844, 6575, 6940,
    7487, 7852, 8217, 8766, 9313, 9862, 12419, 13515, 14792, 15887, 16437].getD i 0

theorem builtInShape_builtInLeaps : BuiltInShape builtInLeaps := by
  have hincreasing : ∀ j < builtInLeaps.length, ∀ i < j, builtInDay i < builtInDay j := by
    decide
  exact ⟨builtInDay, by decide, fun i j hij hj => hincreasing j hj i hij, by decide⟩

/-- The last second of 2016 was a leap second. -/
theorem tai_utc_round_trip_2016 : ∃ utc, taiToUtc builtInLeaps 1167264017 = some utc ∧
    utc.Valid ∧ utcToTai builtInLeaps utc = 1167264017 :=
  tai_utc_round_trip builtInLeaps builtInShape_builtInLeaps 1167264017 (by decide)

end AdvLigoRts.Gds
