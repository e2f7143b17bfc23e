import Mathlib.Data.List.Basic

/-!
# Loops whose steps touch different places

The steps of a loop are known by the places that each of them touches. The loop leaves alone what no
step touches.
-/

namespace PvLib

variable {σ α ι β : Type*}

/-- A step changes only what its item touches. -/
structure Framed (step : σ → α → σ) (inv : σ → Prop) (view : σ → ι → β) (touches : α → ι → Prop)
    (xs : List α) : Prop where
  keeps : ∀ s, inv s → ∀ x ∈ xs, inv (step s x)
  frame : ∀ s, inv s → ∀ x ∈ xs, ∀ c, ¬touches x c → view (step s x) c = view s c

namespace Framed

variable {step : σ → α → σ} {inv : σ → Prop} {view : σ → ι → β} {touches : α → ι → Prop}
  {xs ys : List α} {s : σ}

theorem of_subset (h : Framed step inv view touches ys) (hsub : ∀ x ∈ xs, x ∈ ys) :
    Framed step inv view touches xs :=
  ⟨fun s hs x hx => h.keeps s hs x (hsub x hx), fun s hs x hx => h.frame s hs x (hsub x hx)⟩

theorem foldl_inv (h : Framed step inv view touches xs) (hs : inv s) : inv (xs.foldl step s) := by
  induction xs generalizing s with
  | nil => exact hs
  | cons x xs ih =>
    exact ih (h.of_subset fun y hy => List.mem_cons_of_mem x hy)
      (h.keeps s hs x List.mem_cons_self)

theorem foldl_untouched (h : Framed step inv view touches xs) (hs : inv s) {c : ι}
    (hc : ∀ x ∈ xs, ¬touches x c) : view (xs.foldl step s) c = view s c := by
  induction xs generalizing s with
  | nil => rfl
  | cons x xs ih =>
    have hstep := h.frame s hs x List.mem_cons_self c (hc x List.mem_cons_self)
    have hrest := ih (h.of_subset fun y hy => List.mem_cons_of_mem x hy)
      (h.keeps s hs x List.mem_cons_self) fun y hy => hc y (List.mem_cons_of_mem x hy)
    exact hrest.trans hstep

/-- What a step makes of the places that only it touches is what the loop leaves. -/
theorem foldl_touched (h : Framed step inv view touches xs) (hs : inv s)
    (hdisj : xs.Pairwise fun y z => ∀ c, touches y c → ¬touches z c) {x : α} (hx : x ∈ xs) :
    ∃ s', inv s' ∧ (∀ c, touches x c → view s' c = view s c) ∧
      ∀ c, touches x c → view (xs.foldl step s) c = view (step s' x) c := by
  obtain ⟨before, after, rfl⟩ := List.append_of_mem hx
  obtain ⟨-, hafter, hbefore⟩ := List.pairwise_append.mp hdisj
  have hpre : Framed step inv view touches before :=
    h.of_subset fun y hy => List.mem_append_left _ hy
  have hpost : Framed step inv view touches after :=
    h.of_subset fun y hy => List.mem_append_right _ (List.mem_cons_of_mem x hy)
  have hs' := hpre.foldl_inv hs
  refine ⟨before.foldl step s, hs', fun c hc => ?_, fun c hc => ?_⟩
  · exact hpre.foldl_untouched hs fun y hy htouch => hbefore y hy x List.mem_cons_self c htouch hc
  · rw [List.foldl_append, List.foldl_cons]
    exact hpost.foldl_untouched (h.keeps _ hs' x hx) fun y hy =>
      List.rel_of_pairwise_cons hafter hy c hc

end Framed

end PvLib
