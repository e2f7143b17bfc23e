import Mathlib.Data.List.Induction

/-!
# Reservations of DAC channels

The IOP clears the map `ioMemData->dacOutUsed` (`iop_dac_init`). An application checks and marks its
channels there when it starts (`app_dac_init`), and clears them when it ends
(`deallocate_dac_channels`). A mark does not say whose it is: that it belongs to one running
application is an invariant of all starts and exits (`Marked`).
-/

namespace AdvLigoRts.Drv.Reservation

/-- `MAX_DAC_MODULES`. -/
def maxDacModules : ℕ := 12

/-- `MAX_DAC_CHN_PER_MOD`. -/
def maxDacChnPerMod : ℕ := 16

/-- The DAC cards of an application. `dacConfig` is zero for a card that is not mapped. -/
structure App (adcCount : ℕ) where
  dacCount : ℕ
  dacConfig : ℕ → ℕ
  dacOutUsed : ℕ → ℕ → Bool
  count_le : dacCount ≤ maxDacModules
  unused : ∀ ii, dacCount ≤ ii → dacConfig ii = 0
  mapped : ∀ ii, dacConfig ii ≠ 0 →
    adcCount ≤ dacConfig ii ∧ dacConfig ii < adcCount + maxDacModules

/-- `ioMemData->dacOutUsed`, by the physical card and the channel. -/
abbrev ChannelMap := ℕ → ℕ → Bool

variable {adcCount : ℕ} (app : App adcCount) (used : ChannelMap)

/-! ## Code -/

/-- What `iop_dac_init` does to the map. -/
def iopDacInit : ChannelMap := fun pd jj =>
  if pd < maxDacModules ∧ jj < maxDacChnPerMod then false else used pd jj

/-- The physical DAC number of a card. -/
def App.pd (ii : ℕ) : ℕ := app.dacConfig ii - adcCount

/-- `ioMemData->dacOutUsed[ pd ][ jj ] = v`, for the used channels `chans` of a card. -/
def App.markChannels (v : Bool) (ii : ℕ) (chans : List ℕ) : ChannelMap :=
  chans.foldl (fun used jj =>
    if app.dacOutUsed ii jj then
      Function.update used (app.pd ii) (Function.update (used (app.pd ii)) jj v)
    else used) used

/-- The loop over `cards` of both functions. -/
def App.mark (v : Bool) (cards : List ℕ) : ChannelMap :=
  cards.foldl (fun used ii =>
    if app.dacConfig ii ≠ 0 then app.markChannels used v ii (List.range maxDacChnPerMod)
    else used) used

/-- A channel of the application is in the map already. -/
def App.conflict : Bool :=
  (List.range app.dacCount).any fun ii =>
    app.dacConfig ii ≠ 0 &&
      (List.range 16).any fun jj => app.dacOutUsed ii jj && used (app.pd ii) jj

/-- `app_dac_init`: what it returns, and the map. -/
def appDacInit : ℕ × ChannelMap :=
  if app.conflict used then (1, used) else (0, app.mark used true (List.range app.dacCount))

/-- `deallocate_dac_channels`. -/
def deallocateDacChannels : ChannelMap := app.mark used false (List.range maxDacModules)

/-! ## Starts and exits -/

/-- The map, and which applications are in the loop of `fe_start_controller`. -/
structure System (ι : Type) where
  used : ChannelMap
  running : ι → Bool

/-- An application starts, ends its loop, or leaves it for want of ADC data. -/
inductive Event (ι : Type)
  | start (a : ι)
  | exit (a : ι)
  | adcTimeout (a : ι)

variable {ι : Type} [DecidableEq ι] (apps : ι → App adcCount)

/-- The end of an application, if it is running. -/
def System.leave (s : System ι) (a : ι) : System ι :=
  if s.running a then
    ⟨deallocateDacChannels (apps a) s.used, Function.update s.running a false⟩
  else s

def System.step (s : System ι) : Event ι → System ι
  | .start a =>
    if s.running a then s
    else
      let r := appDacInit (apps a) s.used
      -- on an error `fe_start_controller` returns at once
      if r.1 ≠ 0 then ⟨r.2, s.running⟩ else ⟨r.2, Function.update s.running a true⟩
  | .exit a | .adcTimeout a => s.leave apps a

/-- The state after the events, from the start of the IOP on. -/
def System.run (evs : List (Event ι)) : System ι :=
  evs.foldl (System.step apps) ⟨iopDacInit used, fun _ => false⟩

/-! ## Claims -/

/-- Card `ii` has channel `jj` of the physical card `pd`. -/
def App.Has (ii pd jj : ℕ) : Prop :=
  app.dacConfig ii ≠ 0 ∧ app.pd ii = pd ∧ jj < maxDacChnPerMod ∧ app.dacOutUsed ii jj = true

instance (ii pd jj : ℕ) : Decidable (app.Has ii pd jj) := by
  unfold App.Has
  infer_instance

def App.Claims (pd jj : ℕ) : Prop := ∃ ii, app.Has ii pd jj

/-- No two cards of the application have the same channel. -/
def App.Distinct : Prop := ∀ ii ii' pd jj, app.Has ii pd jj → app.Has ii' pd jj → ii = ii'

/-- The map has the channels of the running applications, each of which is claimed by one. -/
structure Marked (s : System ι) : Prop where
  apart : ∀ a b pd jj, s.running a = true → s.running b = true →
    (apps a).Claims pd jj → (apps b).Claims pd jj → a = b
  marks : ∀ pd < maxDacModules, ∀ jj < maxDacChnPerMod,
    s.used pd jj = true ↔ ∃ a, s.running a = true ∧ (apps a).Claims pd jj

/-- What the reservations are to be in a state. -/
structure Exact (s : System ι) : Prop extends Marked apps s where
  once : ∀ a, s.running a = true → (apps a).Distinct
  refused : ∀ a, s.running a = false → (appDacInit (apps a) s.used).1 ≠ 0 →
    s.step apps (.start a) = s
  exits : ∀ a, s.running a = false → s.step apps (.exit a) = s ∧ s.step apps (.adcTimeout a) = s

variable {app used apps} {s : System ι} {v : Bool} {ii pd jj n : ℕ} {cards : List ℕ} {a : ι}

namespace App

theorem Has.card_lt (h : app.Has ii pd jj) : ii < app.dacCount := by
  by_contra hle
  exact h.1 (app.unused ii (Nat.le_of_not_lt hle))

theorem Claims.bounds (h : app.Claims pd jj) : pd < maxDacModules ∧ jj < maxDacChnPerMod := by
  obtain ⟨ii, hcfg, rfl, hjj, -⟩ := h
  have hmap := app.mapped ii hcfg
  refine ⟨?_, hjj⟩
  rw [App.pd]
  omega

theorem markChannels_apply (chans : List ℕ) :
    app.markChannels used v ii chans pd jj =
      if app.pd ii = pd ∧ jj ∈ chans ∧ app.dacOutUsed ii jj = true then v else used pd jj := by
  induction chans generalizing used with
  | nil => simp [markChannels]
  | cons k chans ih =>
    have hcons : app.markChannels used v ii (k :: chans) =
        app.markChannels (app.markChannels used v ii [k]) v ii chans := rfl
    have hone : app.markChannels used v ii [k] pd jj =
        if app.pd ii = pd ∧ jj = k ∧ app.dacOutUsed ii jj = true then v else used pd jj := by
      show (if app.dacOutUsed ii k then _ else used) pd jj = _
      by_cases hpd : pd = app.pd ii
      · subst hpd
        by_cases hjj : jj = k
        · subst hjj
          by_cases hu : app.dacOutUsed ii jj = true <;> simp [hu]
        · by_cases hu : app.dacOutUsed ii k = true <;> simp [hu, hjj]
      · have hpd' : app.pd ii ≠ pd := fun h => hpd h.symm
        by_cases hu : app.dacOutUsed ii k = true <;> simp [hu, hpd, hpd']
    rw [hcons, ih, hone]
    simp only [List.mem_cons]
    grind

theorem mark_apply : app.mark used v cards pd jj =
    if ∃ ii ∈ cards, app.Has ii pd jj then v else used pd jj := by
  induction cards generalizing used with
  | nil => simp [mark]
  | cons k cards ih =>
    have hcons : app.mark used v (k :: cards) =
        app.mark (app.mark used v [k]) v cards := rfl
    have hone : app.mark used v [k] pd jj = if app.Has k pd jj then v else used pd jj := by
      show (if app.dacConfig k ≠ 0 then _ else used) pd jj = _
      by_cases hcfg : app.dacConfig k ≠ 0
      · rw [if_pos hcfg, markChannels_apply]
        simp only [App.Has, hcfg, List.mem_range, ne_eq, not_false_eq_true, true_and]
      · rw [if_neg hcfg, if_neg fun h => hcfg h.1]
    have hsplit : (∃ ii ∈ k :: cards, app.Has ii pd jj) ↔
        app.Has k pd jj ∨ ∃ ii ∈ cards, app.Has ii pd jj := by
      simp only [List.mem_cons, or_and_right, exists_or, exists_eq_left]
    rw [hcons, ih, hone]
    by_cases hk : app.Has k pd jj <;> by_cases hc : ∃ ii ∈ cards, app.Has ii pd jj <;>
      simp [-List.mem_cons, hsplit, hk, hc]

theorem mark_of_claims (hn : app.dacCount ≤ n) (h : app.Claims pd jj) :
    app.mark used v (List.range n) pd jj = v := by
  obtain ⟨ii, hhas⟩ := h
  rw [mark_apply, if_pos]
  exact ⟨ii, List.mem_range.mpr (Nat.lt_of_lt_of_le hhas.card_lt hn), hhas⟩

theorem mark_of_not (h : ¬ app.Claims pd jj) : app.mark used v cards pd jj = used pd jj := by
  rw [mark_apply, if_neg]
  rintro ⟨ii, -, hhas⟩
  exact h ⟨ii, hhas⟩

theorem conflict_iff :
    app.conflict used = true ↔ ∃ pd jj, app.Claims pd jj ∧ used pd jj = true := by
  simp only [conflict, List.any_eq_true, List.mem_range, Bool.and_eq_true, decide_eq_true_eq]
  constructor
  · rintro ⟨ii, -, hcfg, jj, hjj, hout, hused⟩
    exact ⟨_, jj, ⟨ii, hcfg, rfl, hjj, hout⟩, hused⟩
  · rintro ⟨pd, jj, ⟨ii, hhas⟩, hused⟩
    obtain ⟨hcfg, rfl, hjj, hout⟩ := id hhas
    exact ⟨ii, hhas.card_lt, hcfg, jj, hjj, hout, hused⟩

end App

/-! ## Runs -/

theorem Marked.start (h : Marked apps s) (hfree : (apps a).conflict s.used = false) :
    Marked apps ⟨(apps a).mark s.used true (List.range (apps a).dacCount),
      Function.update s.running a true⟩ := by
  have hunused {pd jj : ℕ} (hc : (apps a).Claims pd jj) : s.used pd jj ≠ true := fun hu =>
    Bool.false_ne_true (hfree.symm.trans (App.conflict_iff.mpr ⟨pd, jj, hc, hu⟩))
  have hrun (x : ι) : Function.update s.running a true x = true ↔ x = a ∨ s.running x = true := by
    by_cases hx : x = a <;> simp [hx]
  -- a running application would have marked what `a` claims
  have hnone {x : ι} {pd jj : ℕ} (hx : s.running x = true) (hcx : (apps x).Claims pd jj)
      (hca : (apps a).Claims pd jj) : False :=
    hunused hca ((h.marks pd hca.bounds.1 jj hca.bounds.2).mpr ⟨x, hx, hcx⟩)
  refine ⟨fun x y pd jj hx hy hcx hcy => ?_, fun pd hpd jj hjj => ?_⟩
  · rcases (hrun x).mp hx with rfl | hx' <;> rcases (hrun y).mp hy with rfl | hy'
    · rfl
    · exact (hnone hy' hcy hcx).elim
    · exact (hnone hx' hcx hcy).elim
    · exact h.apart x y pd jj hx' hy' hcx hcy
  · by_cases hc : (apps a).Claims pd jj
    · exact iff_of_true (App.mark_of_claims (Nat.le_refl _) hc) ⟨a, (hrun a).mpr (.inl rfl), hc⟩
    · show App.mark .. = true ↔ _
      rw [App.mark_of_not hc, h.marks pd hpd jj hjj]
      refine exists_congr fun x => and_congr_left fun hcx => ?_
      have hne : x ≠ a := fun heq => hc (heq ▸ hcx)
      simp [hne]

theorem Marked.leave (h : Marked apps s) (a : ι) : Marked apps (s.leave apps a) := by
  rw [System.leave]
  split
  · next hr =>
    have hrun (x : ι) :
        Function.update s.running a false x = true ↔ x ≠ a ∧ s.running x = true := by
      by_cases hx : x = a <;> simp [hx]
    refine ⟨fun x y pd jj hx hy => ?_, fun pd hpd jj hjj => ?_⟩
    · exact h.apart x y pd jj ((hrun x).mp hx).2 ((hrun y).mp hy).2
    · show App.mark .. = true ↔ _
      by_cases hc : (apps a).Claims pd jj
      · rw [App.mark_of_claims (apps a).count_le hc]
        refine iff_of_false Bool.false_ne_true ?_
        rintro ⟨x, hx, hcx⟩
        obtain ⟨hne, hx⟩ := (hrun x).mp hx
        exact hne (h.apart x a pd jj hx hr hcx hc)
      · rw [App.mark_of_not hc, h.marks pd hpd jj hjj]
        refine exists_congr fun x => and_congr_left fun hcx => ?_
        have hne : x ≠ a := fun heq => hc (heq ▸ hcx)
        simp [hne]
  · exact h

theorem step_start (hr : s.running a = false) : s.step apps (.start a) =
    if (apps a).conflict s.used then s
    else ⟨(apps a).mark s.used true (List.range (apps a).dacCount),
      Function.update s.running a true⟩ := by
  rw [System.step, hr, appDacInit]
  cases (apps a).conflict s.used <;> rfl

theorem Marked.step (h : Marked apps s) (e : Event ι) : Marked apps (s.step apps e) := by
  cases e with
  | start a =>
    by_cases hr : s.running a = true
    · rwa [System.step, if_pos hr]
    · rw [step_start (Bool.eq_false_iff.mpr hr)]
      split
      · exact h
      · next hfree => exact h.start (Bool.eq_false_iff.mpr hfree)
  | exit a => exact h.leave a
  | adcTimeout a => exact h.leave a

theorem run_append (evs : List (Event ι)) (e : Event ι) :
    System.run used apps (evs ++ [e]) = (System.run used apps evs).step apps e := by
  rw [System.run, List.foldl_append]
  rfl

theorem marked_run (evs : List (Event ι)) : Marked apps (System.run used apps evs) := by
  induction evs using List.reverseRecOn with
  | nil =>
    refine ⟨fun _ _ _ _ h => absurd h Bool.false_ne_true, fun pd hpd jj hjj => ?_⟩
    simp [System.run, iopDacInit, hpd, hjj]
  | append_singleton evs e ih =>
    rw [run_append]
    exact ih.step e

/-- An application runs after a step if it did before, or if it is the one that was accepted. -/
theorem running_step {e : Event ι} (h : (s.step apps e).running a = true) :
    s.running a = true ∨
      e = .start a ∧ s.running a = false ∧ (apps a).conflict s.used = false := by
  have hleave (b : ι) (h : (s.leave apps b).running a = true) : s.running a = true := by
    rw [System.leave] at h
    split at h
    · by_cases hab : a = b
      · simp [hab] at h
      · simpa [hab] using h
    · exact h
  cases e with
  | start b =>
    cases hr : s.running b with
    | true =>
      rw [System.step, if_pos hr] at h
      exact .inl h
    | false =>
      rw [step_start hr] at h
      split at h
      · exact .inl h
      · next hfree =>
        by_cases hab : a = b
        · subst hab
          exact .inr ⟨rfl, hr, Bool.eq_false_iff.mpr hfree⟩
        · exact .inl (by simpa [hab] using h)
  | exit b | adcTimeout b => exact .inl (hleave b h)

/-- The reservations are exact in every state of a run, where no application that is accepted has
a channel twice. -/
theorem reservations_exact_iff (apps : ι → App adcCount) (used : ChannelMap)
    (evs : List (Event ι)) :
    (∀ pre, pre <+: evs → Exact apps (System.run used apps pre)) ↔
      ∀ pre a, pre ++ [.start a] <+: evs → (System.run used apps pre).running a = false →
        (apps a).conflict (System.run used apps pre).used = false → (apps a).Distinct := by
  constructor
  · intro h pre a hpre hr hfree
    apply (h _ hpre).once a
    rw [run_append, step_start hr, hfree]
    exact Function.update_self ..
  · intro h pre hpre
    refine ⟨marked_run pre, fun a ha => ?_, fun a hr hstatus => ?_, fun a hr => ?_⟩
    · induction pre using List.reverseRecOn with
      | nil => exact absurd ha Bool.false_ne_true
      | append_singleton pre e ih =>
        rw [run_append] at ha
        rcases running_step ha with ha | ⟨rfl, hr, hfree⟩
        · exact ih ((List.prefix_append pre [e]).trans hpre) ha
        · exact h pre a hpre hr hfree
    · have hconflict : (apps a).conflict (System.run used apps pre).used = true := by
        by_contra hfree
        exact hstatus (by rw [appDacInit, if_neg hfree])
      rw [step_start hr, if_pos hconflict]
    · have hleave : (System.run used apps pre).leave apps a = System.run used apps pre := by
        rw [System.leave, hr]
        rfl
      exact ⟨hleave, hleave⟩

/-- Two local cards with channel 0 of one physical card. -/
def sharedCard : App 1 where
  dacCount := 2
  dacConfig ii := if ii < 2 then 1 else 0
  dacOutUsed _ jj := jj == 0
  count_le := by decide
  unused ii h := if_neg (Nat.not_lt_of_le h)
  mapped ii h := by
    by_cases hii : ii < 2
    · simp [hii, maxDacModules]
    · exact absurd (if_neg hii) h

theorem channel_reserved_twice : ¬ ∀ (apps : Unit → App 1) (used : ChannelMap)
    (evs pre : List (Event Unit)), pre <+: evs → Exact apps (System.run used apps pre) := by
  intro h
  have hrun := h (fun _ => sharedCard) (fun _ _ => false) [.start ()] _ List.prefix_rfl
  have honce := hrun.once () (by decide)
  exact absurd (honce 0 1 0 0 (by decide) (by decide)) (by decide)

end AdvLigoRts.Drv.Reservation
