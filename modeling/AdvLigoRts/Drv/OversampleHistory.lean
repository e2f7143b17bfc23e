import AdvLigoRts.Lib.Machine
import Mathlib.Data.Int.Order.Basic
import Mathlib.Data.List.Basic

/-!
# The histories of the oversampling filters

A channel is not disturbed by the others if those that use its row of the history table read the
same sample as it does. In `dHistory` the row depends on the number of channels of the card alone,
so that cards of different types meet (`oversampling_independent`).
-/

namespace AdvLigoRts.Drv.Oversample

open PvLib

variable {κ K H : Type}

/-! ## Channels that are filtered one after the other -/

/-- What is put out for each channel, and the rows of the history table. -/
structure FilterBank (κ K H : Type) where
  out : κ → K
  history : ℕ → H

namespace FilterBank

section Pass

variable [DecidableEq κ]

variable (filter : K → H → K × H) (used : κ → Bool) (row : κ → ℕ) (input idle : κ → K)

/-- One channel of a loop over the channels: `iir_filter_biquad` for a used one. -/
def channel (s : FilterBank κ K H) (k : κ) : FilterBank κ K H :=
  if used k then
    ⟨Function.update s.out k (filter (input k) (s.history (row k))).1,
      Function.update s.history (row k) (filter (input k) (s.history (row k))).2⟩
  else ⟨Function.update s.out k (idle k), s.history⟩

/-- Two states that look the same to the used channels of a row. -/
def Agree (r : ℕ) (s t : FilterBank κ K H) : Prop :=
  s.history r = t.history r ∧ ∀ k, used k → row k = r → s.out k = t.out k

variable {filter used row input idle} {input' idle' : κ → K} {s t : FilterBank κ K H} {r : ℕ}

theorem channel_out_of_ne {k k' : κ} (h : k' ≠ k) :
    (s.channel filter used row input idle k).out k' = s.out k' := by
  unfold channel
  split <;> exact Function.update_of_ne h _ _

theorem Agree.channel (h : Agree used row r s t) {k : κ}
    (hinput : used k → row k = r → input k = input' k) :
    Agree used row r (s.channel filter used row input idle k)
      (t.channel filter used row input' idle' k) := by
  have hothers : ∀ k', k' ≠ k → used k' → row k' = r →
      (s.channel filter used row input idle k).out k' =
        (t.channel filter used row input' idle' k).out k' := by
    intro k' hk hused hrow
    rw [channel_out_of_ne hk, channel_out_of_ne hk]
    exact h.2 k' hused hrow
  by_cases hturn : used k = true ∧ row k = r
  · obtain ⟨hused, rfl⟩ := hturn
    have hs : ∀ (s : FilterBank κ K H) (input idle : κ → K),
        (s.channel filter used row input idle k).history (row k) =
            (filter (input k) (s.history (row k))).2 ∧
          (s.channel filter used row input idle k).out k =
            (filter (input k) (s.history (row k))).1 := by
      intro s input idle
      simp [FilterBank.channel, hused]
    refine ⟨?_, fun k' hused' hrow' => ?_⟩
    · rw [(hs _ _ _).1, (hs _ _ _).1, hinput hused rfl, h.1]
    · by_cases hk : k' = k
      · rw [hk, (hs _ _ _).2, (hs _ _ _).2, hinput hused rfl, h.1]
      · exact hothers k' hk hused' hrow'
  · have hs : ∀ (s : FilterBank κ K H) (input idle : κ → K),
        (s.channel filter used row input idle k).history r = s.history r := by
      intro s input idle
      unfold FilterBank.channel
      split
      · exact Function.update_of_ne (fun hrow => hturn ⟨‹_›, hrow.symm⟩) _ _
      · rfl
    refine ⟨by rw [hs, hs, h.1], fun k' hused hrow => ?_⟩
    exact hothers k' (fun hk => hturn (hk ▸ ⟨hused, hrow⟩)) hused hrow

theorem Agree.foldl (h : Agree used row r s t) {ks : List κ}
    (hinput : ∀ k ∈ ks, used k → row k = r → input k = input' k) :
    Agree used row r (ks.foldl (FilterBank.channel filter used row input idle) s)
      (ks.foldl (FilterBank.channel filter used row input' idle') t) := by
  induction ks generalizing s t with
  | nil => exact h
  | cons k ks ih =>
    exact ih (h.channel (hinput k List.mem_cons_self)) fun k' hk' =>
      hinput k' (List.mem_cons_of_mem _ hk')

/-- The filter that keeps whether a sample was set. -/
def anySet (x h : Bool) : Bool × Bool := (x || h, x || h)

theorem foldl_anySet_of_unset {input : κ → Bool} {s : FilterBank κ Bool Bool} {ks : List κ}
    (hinput : ∀ k, input k = false) (hs : s = ⟨fun _ => false, fun _ => false⟩) :
    ks.foldl (channel anySet used row input input) s = s := by
  induction ks with
  | nil => rfl
  | cons k ks ih =>
    have hsame : channel anySet used row input input s k = s := by
      simp [channel, anySet, hinput, hs]
    rw [List.foldl_cons, hsame, ih]

theorem history_channel_anySet {input : κ → Bool} {s : FilterBank κ Bool Bool} {k : κ}
    (h : s.history r = true ∨ used k ∧ row k = r ∧ input k = true) :
    (channel anySet used row input input s k).history r = true := by
  unfold channel anySet
  by_cases hused : used k = true
  · rw [if_pos hused]
    by_cases hrow : row k = r
    · subst hrow
      rcases h with hs | ⟨-, -, hinput⟩ <;> simp [*]
    · simpa [Function.update_of_ne (Ne.symm hrow), hrow] using h
  · simpa [hused] using h

theorem history_foldl_anySet {input : κ → Bool} {s : FilterBank κ Bool Bool} {ks : List κ}
    (h : s.history r = true ∨ ∃ k ∈ ks, used k ∧ row k = r ∧ input k = true) :
    (ks.foldl (channel anySet used row input input) s).history r = true := by
  induction ks generalizing s with
  | nil => simpa using h
  | cons k ks ih =>
    apply ih
    rw [List.exists_mem_cons_iff, ← or_assoc] at h
    exact h.imp_left history_channel_anySet

theorem out_foldl_anySet {input : κ → Bool} {s : FilterBank κ Bool Bool} {ks : List κ} {k : κ}
    (hused : used k) (hs : s.history (row k) = true) (h : k ∈ ks ∨ s.out k = true) :
    (ks.foldl (channel anySet used row input input) s).out k = true := by
  induction ks generalizing s with
  | nil => simpa using h
  | cons k' ks ih =>
    apply ih (history_channel_anySet (.inl hs))
    by_cases hk : k = k'
    · right
      simp [channel, anySet, ← hk, hused, hs]
    · rw [channel_out_of_ne hk]
      simpa [hk] using h

variable (used row) in
theorem out_second_cycle (input : κ → Bool) {ks : List κ} {k k' : κ} (hk : k ∈ ks)
    (hused : used k) (hk' : k' ∈ ks ∧ used k' ∧ row k' = row k ∧ input k' = true)
    (s : FilterBank κ Bool Bool) :
    (ks.foldl (channel anySet used row input input)
      (ks.foldl (channel anySet used row input input) s)).out k = true :=
  out_foldl_anySet hused (history_foldl_anySet (.inr ⟨k', hk'⟩)) (.inl hk)

end Pass

/-- A run of cycles, with what each puts out for a channel. -/
def outputs {I : Type} (cycle : FilterBank κ K H → I → FilterBank κ K H) (k : κ)
    (s : FilterBank κ K H) (xs : List I) : List K :=
  foldlLog (fun s x => [(cycle s x).out k]) cycle s xs

/-- Two runs whose cycles keep the row of a channel the same put out the same for it. -/
theorem outputs_congr (used : κ → Bool) (row : κ → ℕ) {I : Type}
    {cycle : FilterBank κ K H → I → FilterBank κ K H} {k : κ} (hused : used k)
    {R : I → I → Prop} (hcycle : ∀ s t x y, R x y → Agree used row (row k) s t →
      Agree used row (row k) (cycle s x) (cycle t y))
    {xs ys : List I} (hxs : List.Forall₂ R xs ys) {s t : FilterBank κ K H}
    (h : Agree used row (row k) s t) : outputs cycle k s xs = outputs cycle k t ys := by
  induction hxs generalizing s t with
  | nil => rfl
  | cons hR _ ih =>
    have hnext := hcycle s t _ _ hR h
    unfold outputs at ih ⊢
    unfold foldlLog
    rw [ih hnext, hnext.2 k hused rfl]

end FilterBank

/-! ## `app_adc_read` -/

inductive AdcType
  | gsc16ai64ssa
  | gsc18ai32ssc1m
deriving DecidableEq

/-- A card of the application, with the number of its data in `ioMemData->iodata`. -/
structure AdcCard where
  adcType : AdcType
  adcConfig : ℤ

def AdcCard.numChans (c : AdcCard) : ℕ := if c.adcType = .gsc18ai32ssc1m then 8 else 32

/-- A turn of the loop over the channels of a card. -/
structure AdcChannel where
  card : ℕ
  chan : ℕ
  mm : ℤ
  numChans : ℕ
deriving DecidableEq

/-- `&dHistory[ chan + card * num_chans ][ 0 ]` -/
def AdcChannel.row (k : AdcChannel) : ℕ := k.chan + k.card * k.numChans

/-- The turns of the two loops, in order. -/
def adcChannels (cards : List AdcCard) : List AdcChannel :=
  cards.zipIdx.flatMap fun c =>
    if c.1.adcConfig ≥ 0 then
      (List.range c.1.numChans).map fun chan => ⟨c.2, chan, c.1.adcConfig, c.1.numChans⟩
    else []

section Adc

variable (filter : K → H → K × H) (cards : List AdcCard) (dWordUsed : ℕ → ℕ → Bool)

/-- A cycle of `app_adc_read` with `OVERSAMPLE`; `out` is `dWord`. -/
def appAdcRead (s : FilterBank AdcChannel K H) (iodata : ℤ → ℕ → K) : FilterBank AdcChannel K H :=
  (adcChannels cards).foldl (FilterBank.channel filter (fun k => dWordUsed k.card k.chan)
    AdcChannel.row (fun k => iodata k.mm k.chan) fun k => iodata k.mm k.chan) s

/-- The down-sampled data of a channel depend on its samples alone. -/
def AdcIndependent (k : AdcChannel) : Prop :=
  ∀ (K H : Type) (filter : K → H → K × H) (s : FilterBank AdcChannel K H)
    (xs ys : List (ℤ → ℕ → K)), List.Forall₂ (fun x y => x k.mm k.chan = y k.mm k.chan) xs ys →
      FilterBank.outputs (appAdcRead filter cards dWordUsed) k s xs =
        FilterBank.outputs (appAdcRead filter cards dWordUsed) k s ys

/-- The used channels that share the row of a channel read its own samples. -/
def OwnRow (k : AdcChannel) : Prop :=
  ∀ k' ∈ adcChannels cards, dWordUsed k'.card k'.chan → k'.row = k.row →
    k'.mm = k.mm ∧ k'.chan = k.chan

variable {cards dWordUsed} {k : AdcChannel}

theorem OwnRow.independent (h : OwnRow cards dWordUsed k) (hused : dWordUsed k.card k.chan) :
    AdcIndependent cards dWordUsed k := by
  intro K H filter s xs ys hxs
  refine FilterBank.outputs_congr (fun k => dWordUsed k.card k.chan) AdcChannel.row hused
    (fun s t x y hxy hagree => hagree.foldl ?_) hxs ⟨rfl, fun _ _ _ => rfl⟩
  intro k' hk' hused' hrow'
  obtain ⟨hmm, hchan⟩ := h k' hk' hused' hrow'
  show x k'.mm k'.chan = y k'.mm k'.chan
  rw [hmm, hchan]
  exact hxy

/-- Another sample that goes through the row is seen in the next cycle. -/
theorem AdcIndependent.ownRow (h : AdcIndependent cards dWordUsed k) (hk : k ∈ adcChannels cards)
    (hused : dWordUsed k.card k.chan) : OwnRow cards dWordUsed k := by
  intro k' hk' hused' hrow
  by_contra hother
  -- all samples but those of the channel are set in one run, and none in the other one
  have hsame := h Bool Bool FilterBank.anySet ⟨fun _ => false, fun _ => false⟩
    [fun mm chan => !decide (mm = k.mm ∧ chan = k.chan),
      fun mm chan => !decide (mm = k.mm ∧ chan = k.chan)]
    [fun _ _ => false, fun _ _ => false] (by simp)
  simp only [FilterBank.outputs, foldlLog, appAdcRead, List.cons_append, List.nil_append,
    List.cons.injEq, FilterBank.foldl_anySet_of_unset (fun _ => rfl) rfl] at hsame
  have hout := FilterBank.out_second_cycle (fun k => dWordUsed k.card k.chan) AdcChannel.row
    (fun k' => !decide (k'.mm = k.mm ∧ k'.chan = k.chan)) hk hused
    ⟨hk', hused', hrow, by rw [decide_eq_false hother]; rfl⟩ ⟨fun _ => false, fun _ => false⟩
  exact absurd (hout.symm.trans hsame.2.1) (by decide)

end Adc

/-! ## `app_dac_write` -/

inductive DacType
  | gsc16ao16
  | gsc18ao8
  | gsc20ao8
deriving DecidableEq

structure DacCard where
  dacType : DacType
  dacConfig : ℤ

/-- `GSAO_16BIT_CHAN_COUNT` and the counts of the other types. -/
def DacCard.numOuts (c : DacCard) : ℕ := if c.dacType = .gsc16ao16 then 16 else 8

/-- A turn of the loops over the samples at the IOP rate and the channels of a card. -/
structure DacChannel where
  card : ℕ
  kk : ℕ
  chan : ℕ
deriving DecidableEq

/-- `&dDacHistory[ ii + jj * MAX_DAC_CHN_PER_MOD ][ 0 ]` -/
def DacChannel.row (k : DacChannel) : ℕ := k.chan + k.card * 16

def dacChannels (times : ℕ) (cards : List DacCard) : List DacChannel :=
  cards.zipIdx.flatMap fun c =>
    if c.1.dacConfig ≠ 0 then
      (List.range times).flatMap fun kk => (List.range c.1.numOuts).map fun ii => ⟨c.2, kk, ii⟩
    else []

section Dac

variable [Zero K] (filter : K → H → K × H) (gain : K → K) (noZeroPad : Bool) (times : ℕ)
variable (cards : List DacCard) (dacOutUsed : ℕ → ℕ → Bool)

/-- What is put into the filter, with and without `NO_ZERO_PAD`. -/
def dacInput (dacOut : ℕ → ℕ → K) (k : DacChannel) : K :=
  if noZeroPad ∨ k.kk = 0 then dacOut k.card k.chan else 0

/-- A cycle of `app_dac_write` with `OVERSAMPLE_DAC`, up to the filtered values `dac_in`. -/
def appDacWrite (s : FilterBank DacChannel K H) (dacOut : ℕ → ℕ → K) : FilterBank DacChannel K H :=
  (dacChannels times cards).foldl (FilterBank.channel
    (fun x h => (gain (filter x h).1, (filter x h).2)) (fun k => dacOutUsed k.card k.chan)
    DacChannel.row (dacInput noZeroPad dacOut) fun _ => 0) s

variable {filter gain noZeroPad times cards dacOutUsed} {k k' : DacChannel}

theorem chan_lt_of_mem (hk : k ∈ dacChannels times cards) : k.chan < 16 := by
  unfold dacChannels at hk
  obtain ⟨c, -, hc⟩ := List.mem_flatMap.mp hk
  split at hc
  · obtain ⟨kk, -, hkk⟩ := List.mem_flatMap.mp hc
    obtain ⟨ii, hii, rfl⟩ := List.mem_map.mp hkk
    have hlt := List.mem_range.mp hii
    unfold DacCard.numOuts at hlt
    show ii < 16
    split at hlt <;> omega
  · cases hc

/-- The up-sampled values of a channel depend on its outputs alone. -/
theorem dac_independent (hk : k ∈ dacChannels times cards) (hused : dacOutUsed k.card k.chan)
    {xs ys : List (ℕ → ℕ → K)}
    (hxs : List.Forall₂ (fun x y => x k.card k.chan = y k.card k.chan) xs ys)
    (s : FilterBank DacChannel K H) :
    FilterBank.outputs (appDacWrite filter gain noZeroPad times cards dacOutUsed) k s xs =
      FilterBank.outputs (appDacWrite filter gain noZeroPad times cards dacOutUsed) k s ys := by
  refine FilterBank.outputs_congr (fun k => dacOutUsed k.card k.chan) DacChannel.row hused
    (fun s t x y hxy hagree => hagree.foldl ?_) hxs ⟨rfl, fun _ _ _ => rfl⟩
  intro k' hk' _ hrow
  have hlt := chan_lt_of_mem hk
  have hlt' := chan_lt_of_mem hk'
  unfold DacChannel.row at hrow
  unfold dacInput
  rw [show k'.card = k.card by omega, show k'.chan = k.chan by omega, hxy]

end Dac

/-- A used ADC channel is down-sampled on its own exactly if it has its row for itself; a DAC
channel is always up-sampled on its own. -/
theorem oversampling_independent (cards : List AdcCard) (dWordUsed : ℕ → ℕ → Bool) :
    (∀ k ∈ adcChannels cards, dWordUsed k.card k.chan →
      (AdcIndependent cards dWordUsed k ↔ OwnRow cards dWordUsed k)) ∧
    ∀ (K H : Type) [Zero K] (filter : K → H → K × H) (gain : K → K) (noZeroPad : Bool) (times : ℕ)
      (cards : List DacCard) (dacOutUsed : ℕ → ℕ → Bool), ∀ k ∈ dacChannels times cards,
      dacOutUsed k.card k.chan → ∀ (s : FilterBank DacChannel K H) (xs ys : List (ℕ → ℕ → K)),
        List.Forall₂ (fun x y => x k.card k.chan = y k.card k.chan) xs ys →
          FilterBank.outputs (appDacWrite filter gain noZeroPad times cards dacOutUsed) k s xs =
            FilterBank.outputs (appDacWrite filter gain noZeroPad times cards dacOutUsed) k s ys :=
  ⟨fun _ hk hused => ⟨fun h => h.ownRow hk hused, fun h => h.independent hused⟩,
    fun _ _ _ _ _ _ _ _ _ _ hk hused s _ _ hxs => dac_independent hk hused hxs s⟩

/-- Channel 8 of a slow card and channel 0 of a fast one behind it share a row. -/
theorem adc_channels_meet : ¬ ∀ (cards : List AdcCard) (dWordUsed : ℕ → ℕ → Bool),
    ∀ k ∈ adcChannels cards, dWordUsed k.card k.chan → AdcIndependent cards dWordUsed k := by
  intro h
  have hk : (⟨1, 0, 1, 8⟩ : AdcChannel) ∈
      adcChannels [⟨.gsc16ai64ssa, 0⟩, ⟨.gsc18ai32ssc1m, 1⟩] := by
    decide
  have hown := (h _ (fun _ _ => true) _ hk rfl).ownRow hk rfl ⟨0, 8, 0, 32⟩ (by decide) rfl rfl
  exact absurd hown.1 (by decide)

end AdvLigoRts.Drv.Oversample
