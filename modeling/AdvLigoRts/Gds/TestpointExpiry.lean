import AdvLigoRts.Gds.TestpointTheorems

/-!
# Which expired users a clean-up releases

The scan of `cleanupTestpoints` goes on to the next index after it has removed a user, so that it
passes over the one behind it (`passOver`).
-/

namespace AdvLigoRts.Gds

open TpNode

variable {tpNode : TpNode} {t : ℤ} {e e' : TpEntry} {us done rest : List TpUsage}

/-! ## What a clean-up should do -/

/-- The timeout of a user is over. -/
def Expired (t : ℤ) (u : TpUsage) : Prop := u.timeout > 0 ∧ u.reqTime + u.timeout < t

instance (t : ℤ) (u : TpUsage) : Decidable (Expired t u) := inferInstanceAs (Decidable (_ ∧ _))

/-- The users of an entry whose timeout is not over. -/
def unexpired (t : ℤ) (us : List TpUsage) : List TpUsage := us.filter fun u => ¬Expired t u

/-- The expired users of an entry are gone, the others are there in their order, and the slot is
free if there are no others. -/
structure EntryReleased (t : ℤ) (e e' : TpEntry) : Prop where
  gone : ∀ u ∈ e'.live, ¬Expired t u
  kept : (unexpired t e.live).Sublist e'.live ∧ (unexpired t e.live ≠ [] → e'.id = e.id)
  freed : e.live ≠ [] → (∀ u ∈ e.live, Expired t u) → e'.id = 0

/-- All expired users of the table are released. -/
def Released (t : ℤ) (indx indx' : Indx) : Prop :=
  ∀ f j, (indx f j).id ≠ 0 → EntryReleased t (indx f j) (indx' f j)

/-- Among the users that the comparison of 64 bits takes for expired, those that the scan visits
are expired and those that it passes over are not; of all others, none is expired. -/
def Alternates (t : ℤ) : List TpUsage → Prop
  | [] => True
  | [u] => expired t u = true ↔ Expired t u
  | u :: v :: us =>
    if expired t u then Expired t u ∧ ¬Expired t v ∧ Alternates t us
    else ¬Expired t u ∧ Alternates t (v :: us)

/-! ## What the scan does -/

/-- The users that the scan leaves. -/
def passOver (t : ℤ) : List TpUsage → List TpUsage
  | [] => []
  | [u] => if expired t u then [] else [u]
  | u :: v :: us => if expired t u then v :: passOver t us else u :: passOver t (v :: us)

/-- One index of the scan. -/
def cleanupStep (t : ℤ) (e : TpEntry) (k : ℕ) : TpEntry :=
  if k < e.inUse ∧ expired t (e.users k) then e.removeUser k else e

theorem users_of_live {u : TpUsage} (h : e.live = done ++ u :: rest) :
    e.users done.length = u ∧ done.length < e.inUse := by
  have hlen : e.inUse = done.length + (rest.length + 1) := by
    rw [← TpEntry.length_live, h, List.length_append, List.length_cons]
  have hget := congrArg (fun l => l[done.length]?) h
  have hlt : done.length < e.inUse := by omega
  simp only [TpEntry.live, List.getElem?_map, List.getElem?_range hlt, Option.map_some,
    List.getElem?_append_right le_rfl, Nat.sub_self, List.getElem?_cons_zero,
    Option.some.injEq] at hget
  exact ⟨hget, hlt⟩

theorem cleanupStep_keep {u : TpUsage} (h : e.live = done ++ u :: rest)
    (hu : expired t u = false) : cleanupStep t e done.length = e := by
  rw [cleanupStep, (users_of_live h).1, hu]
  simp

theorem cleanupStep_remove {u : TpUsage} (h : e.live = done ++ u :: rest)
    (hu : expired t u = true) : (cleanupStep t e done.length).live = done ++ rest := by
  obtain ⟨huser, hlt⟩ := users_of_live h
  rw [cleanupStep, huser, hu, if_pos ⟨hlt, rfl⟩, TpEntry.live_removeUser hlt, h,
    List.eraseIdx_append_of_length_le le_rfl, Nat.sub_self, List.eraseIdx_cons_zero]

/-- Behind the users in use there is nothing to remove. -/
theorem foldl_cleanupStep_done {k n : ℕ} (h : e.inUse ≤ k) :
    (List.range' k n).foldl (cleanupStep t) e = e := by
  induction n generalizing k with
  | zero => rfl
  | succ n ih =>
    have hstep : cleanupStep t e k = e := by
      rw [cleanupStep, if_neg fun hk => absurd hk.1 (by omega)]
    rw [List.range'_succ, List.foldl_cons, hstep]
    exact ih (by omega)

/-- The scan from an index on: the users before it stay. -/
theorem live_foldl_cleanupStep {n : ℕ} (h : e.live = done ++ rest) (hn : rest.length ≤ n) :
    ((List.range' done.length n).foldl (cleanupStep t) e).live = done ++ passOver t rest := by
  induction rest using passOver.induct t generalizing e done n with
  | case1 =>
    rw [List.append_nil] at h
    have huse : e.inUse ≤ done.length := by rw [← TpEntry.length_live, h]
    rw [foldl_cleanupStep_done huse, h, passOver, List.append_nil]
  | case2 u hu =>
    obtain ⟨n, rfl⟩ : ∃ m, n = m + 1 := ⟨n - 1, by simp at hn; omega⟩
    have hstep := cleanupStep_remove h hu
    have huse : (cleanupStep t e done.length).inUse ≤ done.length + 1 := by
      rw [← TpEntry.length_live, hstep, List.append_nil]
      omega
    rw [List.range'_succ, List.foldl_cons, foldl_cleanupStep_done huse, hstep, passOver, if_pos hu]
  | case3 u hu =>
    rw [Bool.not_eq_true] at hu
    obtain ⟨n, rfl⟩ : ∃ m, n = m + 1 := ⟨n - 1, by simp at hn; omega⟩
    have huse : e.inUse ≤ done.length + 1 := by
      rw [← TpEntry.length_live, h, List.length_append, List.length_singleton]
    rw [List.range'_succ, List.foldl_cons, cleanupStep_keep h hu, foldl_cleanupStep_done huse, h,
      passOver, hu, if_neg Bool.false_ne_true]
  | case4 u v us hu ih =>
    obtain ⟨n, rfl⟩ : ∃ m, n = m + 1 := ⟨n - 1, by simp at hn; omega⟩
    -- `v` has moved to the index that was just looked at
    have hstep : (cleanupStep t e done.length).live = (done ++ [v]) ++ us := by
      rw [cleanupStep_remove h hu, List.append_assoc, List.singleton_append]
    have hnext := ih hstep (n := n) (by simp only [List.length_cons] at hn; omega)
    rw [List.length_append, List.length_singleton] at hnext
    rw [List.range'_succ, List.foldl_cons, hnext, passOver, if_pos hu, List.append_assoc,
      List.singleton_append]
  | case5 u v us hu ih =>
    rw [Bool.not_eq_true] at hu
    obtain ⟨n, rfl⟩ : ∃ m, n = m + 1 := ⟨n - 1, by simp at hn; omega⟩
    have hsplit : e.live = (done ++ [u]) ++ v :: us := by
      rw [h, List.append_assoc, List.singleton_append]
    have hnext := ih hsplit (n := n) (by simp only [List.length_cons] at hn ⊢; omega)
    rw [List.length_append, List.length_singleton] at hnext
    rw [List.range'_succ, List.foldl_cons, cleanupStep_keep h hu, hnext, passOver, hu,
      if_neg Bool.false_ne_true, List.append_assoc, List.singleton_append]

/-- The users that a clean-up leaves in a slot. -/
theorem live_cleanupEntry (h0 : e.id ≠ 0) : (cleanupEntry t e).live = passOver t e.live := by
  have hloop := @live_foldl_cleanupStep t _ [] _ _ (List.nil_append e.live).symm
    (TpEntry.length_live (e := e)).le
  rw [List.nil_append, List.length_nil, ← List.range_eq_range'] at hloop
  rw [cleanupEntry, if_neg h0]
  exact hloop

theorem id_cleanupStep {k : ℕ} (h : e'.inUse ≠ 0 → e'.id = e.id) (h0 : e'.inUse = 0 → e'.id = 0) :
    ((cleanupStep t e' k).inUse ≠ 0 → (cleanupStep t e' k).id = e.id) ∧
      ((cleanupStep t e' k).inUse = 0 → (cleanupStep t e' k).id = 0) := by
  unfold cleanupStep
  split
  case isTrue hk =>
    have hid := h (by omega)
    rw [TpEntry.inUse_removeUser, TpEntry.id_removeUser, hid]
    exact ⟨fun hne => if_neg hne, fun heq => if_pos heq⟩
  case isFalse => exact ⟨h, h0⟩

/-- A slot that had users keeps its test point until the last of them is gone. -/
theorem id_cleanupEntry (h0 : e.id ≠ 0) (hlive : e.live ≠ []) :
    ((cleanupEntry t e).live ≠ [] → (cleanupEntry t e).id = e.id) ∧
      ((cleanupEntry t e).live = [] → (cleanupEntry t e).id = 0) := by
  rw [Ne, TpEntry.live_eq_nil, cleanupEntry, if_neg h0]
  rw [Ne, TpEntry.live_eq_nil] at hlive
  generalize List.range e.inUse = ks
  suffices hgen : ∀ e' : TpEntry, (e'.inUse ≠ 0 → e'.id = e.id) → (e'.inUse = 0 → e'.id = 0) →
      ((ks.foldl (cleanupStep t) e').inUse ≠ 0 → (ks.foldl (cleanupStep t) e').id = e.id) ∧
        ((ks.foldl (cleanupStep t) e').inUse = 0 → (ks.foldl (cleanupStep t) e').id = 0) from
    hgen e (fun _ => rfl) fun h => absurd h hlive
  induction ks with
  | nil => exact fun e' h h0 => ⟨h, h0⟩
  | cons k ks ih =>
    intro e' h h0
    obtain ⟨hne, heq⟩ := id_cleanupStep (t := t) (k := k) h h0
    exact ih _ hne heq

theorem passOver_sublist (t : ℤ) (us : List TpUsage) : (passOver t us).Sublist us := by
  induction us using passOver.induct t with
  | case1 => exact List.Sublist.refl _
  | case2 u hu =>
    rw [passOver, if_pos hu]
    exact List.nil_sublist _
  | case3 u hu =>
    rw [passOver, if_neg hu]
  | case4 u v us hu ih =>
    rw [passOver, if_pos hu]
    exact (ih.cons_cons v).cons u
  | case5 u v us hu ih =>
    rw [passOver, if_neg hu]
    exact ih.cons_cons u

/-! ## When they agree -/

theorem unexpired_cons_of_expired {u : TpUsage} (h : Expired t u) :
    unexpired t (u :: us) = unexpired t us := by simp [unexpired, h]

theorem unexpired_cons_of_not {u : TpUsage} (h : ¬Expired t u) :
    unexpired t (u :: us) = u :: unexpired t us := by simp [unexpired, h]

theorem not_expired_of_mem {u : TpUsage} (h : u ∈ unexpired t us) : ¬Expired t u := by
  simpa using (List.mem_filter.mp h).2

theorem eq_unexpired_iff {vs : List TpUsage} (h : vs.Sublist us) :
    (∀ u ∈ vs, ¬Expired t u) ∧ (unexpired t us).Sublist vs ↔ vs = unexpired t us := by
  constructor
  · rintro ⟨hgone, hkept⟩
    have hself : unexpired t vs = vs := by
      apply List.filter_eq_self.mpr
      intro u hu
      simpa using hgone u hu
    have hsub : vs.Sublist (unexpired t us) := hself ▸ h.filter _
    exact hsub.antisymm hkept
  · rintro rfl
    exact ⟨fun u hu => not_expired_of_mem hu, List.Sublist.refl _⟩

/-- The scan leaves just the users that are not expired if the users alternate. -/
theorem passOver_eq_unexpired_iff (t : ℤ) (us : List TpUsage) :
    passOver t us = unexpired t us ↔ Alternates t us := by
  induction us using passOver.induct t with
  | case1 => simp [passOver, unexpired, Alternates]
  | case2 u hu =>
    rw [passOver, if_pos hu, Alternates, hu]
    by_cases h : Expired t u
    · rw [unexpired_cons_of_expired h]
      simp [unexpired, h]
    · rw [unexpired_cons_of_not h]
      simp [h]
  | case3 u hu =>
    rw [passOver, if_neg hu, Alternates]
    by_cases h : Expired t u
    · rw [unexpired_cons_of_expired h]
      simp [unexpired, h, hu]
    · rw [unexpired_cons_of_not h]
      simp [unexpired, h, hu]
  | case4 u v us hu ih =>
    rw [passOver, if_pos hu, Alternates, if_pos hu, ← ih]
    by_cases h : Expired t u
    · rw [unexpired_cons_of_expired h]
      by_cases hv : Expired t v
      · rw [unexpired_cons_of_expired hv]
        have hne : v :: passOver t us ≠ unexpired t us := fun heq =>
          @not_expired_of_mem _ us _ (heq ▸ List.mem_cons_self) hv
        simp [hne, hv]
      · rw [unexpired_cons_of_not hv]
        simp [h, hv]
    · -- `u` goes although it is not expired, and one user too few is left
      have hlen : (unexpired t (passOver t us)).length ≤ (unexpired t us).length :=
        ((passOver_sublist t us).filter _).length_le
      have hne : v :: passOver t us ≠ unexpired t (u :: v :: us) := by
        intro heq
        have hself := congrArg (unexpired t) heq
        rw [unexpired, unexpired, unexpired, List.filter_filter] at hself
        simp only [Bool.and_self] at hself
        have hcount := congrArg List.length hself
        by_cases hv : Expired t v
        · simp [unexpired, h, hv] at hcount hlen
          omega
        · simp [unexpired, h, hv] at hcount hlen
          omega
      simp [hne, h]
  | case5 u v us hu ih =>
    rw [passOver, if_neg hu, Alternates, if_neg hu, ← ih]
    by_cases h : Expired t u
    · have hne : u :: passOver t (v :: us) ≠ unexpired t (u :: v :: us) := fun heq =>
        @not_expired_of_mem _ (u :: v :: us) _ (heq ▸ List.mem_cons_self) h
      simp [hne, h]
    · rw [unexpired_cons_of_not h]
      simp [h]

theorem entryReleased_iff (h0 : e.id ≠ 0) :
    EntryReleased t e (cleanupEntry t e) ↔ Alternates t e.live := by
  have hlive := live_cleanupEntry (t := t) h0
  rw [← passOver_eq_unexpired_iff, ← eq_unexpired_iff (passOver_sublist t e.live), ← hlive]
  constructor
  · exact fun h => ⟨h.gone, h.kept.1⟩
  · rintro ⟨hgone, hkept⟩
    refine ⟨hgone, ⟨hkept, fun hne => ?_⟩, fun hne hall => ?_⟩
    · have hsome : (cleanupEntry t e).live ≠ [] := fun hnil =>
        hne (List.sublist_nil.mp (hnil ▸ hkept))
      have hold : e.live ≠ [] := fun hnil => hne (by rw [hnil]; rfl)
      exact (id_cleanupEntry h0 hold).1 hsome
    · have hnone : (cleanupEntry t e).live = [] := by
        apply List.eq_nil_iff_forall_not_mem.mpr
        intro u hu
        have hmem : u ∈ e.live := (passOver_sublist t e.live).subset (hlive ▸ hu)
        exact hgone u hu (hall u hmem)
      exact (id_cleanupEntry h0 hne).2 hnone

/-- In a slot that the clean-up does not look at, no user may be expired. -/
theorem entryReleased_self : EntryReleased t e e ↔ ∀ u ∈ e.live, ¬Expired t u := by
  constructor
  · exact fun h => h.gone
  · intro h
    refine ⟨h, ⟨List.filter_sublist, fun _ => rfl⟩, fun hne hall => ?_⟩
    obtain ⟨u, hu⟩ := List.exists_mem_of_ne_nil _ hne
    exact absurd (hall u hu) (h u hu)

/-- The clean-ups of the interfaces are one of the whole table. -/
theorem cleanupTestpoints_apply (hvalid : tpNode.valid = true) (time epoch : ℤ) (indx : Indx)
    (f : Fin tpMaxInterface) (j : Fin tpMaxIndex) :
    tpNode.cleanupTestpoints time epoch indx f j =
      cleanupEntry (time * oneSec + epoch * epochLength) (indx f j) := by
  have hfold : ∀ (fs : List (Fin tpMaxInterface)) (t : ℤ) (indx : Indx), fs.Nodup →
      fs.foldl (cleanupInterface t) indx f j =
        if f ∈ fs then cleanupEntry t (indx f j) else indx f j := by
    intro fs t
    induction fs with
    | nil => exact fun _ _ => rfl
    | cons g fs ih =>
      intro indx hnodup
      rw [List.nodup_cons] at hnodup
      rw [List.foldl_cons, ih _ hnodup.2]
      by_cases hf : f = g
      · subst hf
        rw [if_neg hnodup.1, if_pos List.mem_cons_self, cleanupInterface, Function.update_self]
      · have hmem : f ∈ g :: fs ↔ f ∈ fs := by simp [hf]
        rw [cleanupInterface, Function.update_of_ne hf]
        exact if_congr hmem.symm rfl rfl
  rw [cleanupTestpoints, hvalid, if_pos rfl, hfold _ _ _ (List.nodup_finRange _),
    if_pos (List.mem_finRange f)]

/-- A clean-up releases all expired users if and only if the users of every slot in use
alternate; on a node that is not valid it does nothing, so that none may be expired. -/
theorem cleanupTestpoints_released_iff (tpNode : TpNode) (time epoch : ℤ) (indx : Indx) :
    Released (time * oneSec + epoch * epochLength) indx
        (tpNode.cleanupTestpoints time epoch indx) ↔
      ∀ f j, (indx f j).id ≠ 0 →
        if tpNode.valid then Alternates (time * oneSec + epoch * epochLength) (indx f j).live
        else ∀ u ∈ (indx f j).live, ¬Expired (time * oneSec + epoch * epochLength) u := by
  unfold Released
  refine forall_congr' fun f => forall_congr' fun j => imp_congr_right fun h0 => ?_
  cases hvalid : tpNode.valid with
  | true =>
    rw [cleanupTestpoints_apply hvalid, if_pos rfl]
    exact entryReleased_iff h0
  | false =>
    rw [cleanupTestpoints, hvalid, if_neg Bool.false_ne_true, if_neg Bool.false_ne_true]
    exact entryReleased_self

/-- Two clients ask for test point 5 for one nanosecond. -/
theorem cleanup_passes_over_user :
    ¬Released (1 * oneSec + 0 * epochLength)
      (plainTpNode.runTo [.request ⟨1, 0, [5], 1, fun _ _ => 0, true⟩,
        .request ⟨2, 0, [5], 1, fun _ _ => 0, true⟩]).indx
      (plainTpNode.cleanupTestpoints 1 0
        (plainTpNode.runTo [.request ⟨1, 0, [5], 1, fun _ _ => 0, true⟩,
          .request ⟨2, 0, [5], 1, fun _ _ => 0, true⟩]).indx) := by
  intro h
  have hused : ((plainTpNode.runTo [.request ⟨1, 0, [5], 1, fun _ _ => 0, true⟩,
      .request ⟨2, 0, [5], 1, fun _ _ => 0, true⟩]).indx 0 0).id ≠ 0 := by decide +kernel
  have hleft : ⟨0, 1, 2⟩ ∈ (plainTpNode.cleanupTestpoints 1 0
      (plainTpNode.runTo [.request ⟨1, 0, [5], 1, fun _ _ => 0, true⟩,
        .request ⟨2, 0, [5], 1, fun _ _ => 0, true⟩]).indx 0 0).live := by decide +kernel
  exact (h 0 0 hused).gone _ hleft (by decide)

end AdvLigoRts.Gds
