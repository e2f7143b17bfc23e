import Mathlib.Data.List.Perm.Basic
import Mathlib.Logic.Function.Iterate

/-!
# Taking the first elements of a kind out of a list

`List.eraseP s` takes out the first element that satisfies `s`, and its iterate takes out the first
`m` of them.
-/

namespace PvLib

variable {α β : Type*} {s : α → Bool} {m : ℕ} {l old new : List α}

theorem eraseP_filter_perm (s : α → Bool) (m : ℕ) (l : List α) :
    ((l.filter s).take m ++ (List.eraseP s)^[m] l).Perm l := by
  induction m generalizing l with
  | zero => exact List.Perm.refl l
  | succ m ih =>
    rw [Function.iterate_succ_apply]
    rcases List.exists_or_eq_self_of_eraseP s l with hself | ⟨a, l₁, l₂, hnone, ha, hl, herase⟩
    · have hnil : l.filter s = [] := by
        rw [List.filter_eq_nil_iff]
        exact List.eraseP_eq_self_iff.mp hself
      have hrest := ih l
      rw [hnil, List.take_nil] at hrest ⊢
      rwa [hself]
    · have hfilter₁ : l₁.filter s = [] := List.filter_eq_nil_iff.mpr hnone
      have hrest := ih (l₁ ++ l₂)
      rw [List.filter_append, hfilter₁, List.nil_append] at hrest
      rw [herase, hl, List.filter_append, hfilter₁, List.nil_append, List.filter_cons_of_pos ha,
        List.take_succ_cons, List.cons_append]
      exact (hrest.cons a).trans List.perm_middle.symm

/-- What was put behind a list is gone again, as far as `f` sees it, if and only if the elements
taken out are those put in. -/
theorem map_iterate_eraseP_perm_iff (f : α → β) :
    (((List.eraseP s)^[m] (old ++ new)).map f).Perm (old.map f) ↔
      ((((old ++ new).filter s).take m).map f).Perm (new.map f) := by
  have hall : ((((old ++ new).filter s).take m).map f ++
      ((List.eraseP s)^[m] (old ++ new)).map f).Perm (old.map f ++ new.map f) := by
    rw [← List.map_append, ← List.map_append]
    exact (eraseP_filter_perm s m (old ++ new)).map f
  constructor
  · intro h
    have hleft := (List.Perm.append_left _ h).symm.trans hall
    exact (List.perm_append_right_iff _).mp (hleft.trans List.perm_append_comm)
  · intro h
    have hleft := (List.Perm.append_right _ h).symm.trans hall
    exact (List.perm_append_left_iff _).mp (hleft.trans List.perm_append_comm)

end PvLib
