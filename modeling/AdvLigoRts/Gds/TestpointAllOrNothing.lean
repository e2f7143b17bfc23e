import AdvLigoRts.Gds.TestpointUsers

/-!
# Requests that do all or nothing

A request should add a user for each test point of its list that the node knows, or fail and leave
the users as they were.
-/

namespace AdvLigoRts.Gds

open PvLib TpNode

variable {tpNode : TpNode} {indx indx' : Indx} {r : RequestTp} {l : List ℕ} {tp i : ℕ}

/-- What the undoing of a request goes by. -/
def TpUsage.clientTimeout (u : TpUsage) : ℤ × ℤ := (u.clntId, u.timeout)

/-- Each test point has the same users up to the time of their request. -/
def SameUsers (indx indx' : Indx) : Prop :=
  ∀ tp, ((usersOf indx' tp).map TpUsage.clientTimeout).Perm
    ((usersOf indx tp).map TpUsage.clientTimeout)

/-- Each test point has one user of the client more for each time that it is in the list and the
node knows it. -/
def Added (tpNode : TpNode) (r : RequestTp) (indx indx' : Indx) : Prop :=
  ∀ tp, ∃ us, usersOf indx' tp = usersOf indx tp ++ us ∧
    us.map TpUsage.clientTimeout = List.replicate (knownCount tpNode r.tp tp) (r.id, r.timeout)

/-- The request returns; it has done all or nothing and says so; and its status is negative if the
DAQ block would be too large, an interface is full or a test point has too many users. -/
def AllOrNothing (tpNode : TpNode) (r : RequestTp) (indx : Indx) (o : Outcome ResultRequestTp) :
    Prop :=
  ∃ result, o.ret = some result ∧
    (result.status = 0 ∧ Added tpNode r indx o.indx ∨
      result.status < 0 ∧ SameUsers indx o.indx) ∧
    (tpNode.tooMany r indx = true ∨ (∃ i, tpNode.Overfull indx r.tp i) → result.status < 0)

/-! ## When the undoing is right -/

/-- A request that stops at test point `i` of its list is undone right on a test point: if it has
no timeout, the users that it put there are taken away or others of the client like them, and the
client has no user that is taken away besides; if it has a timeout, it put no user there. -/
def UndoneOn (tpNode : TpNode) (r : RequestTp) (indx : Indx) (i tp : ℕ) : Prop :=
  let old := (usersOf indx tp).filter (clearable r.id)
  let placed := knownCount tpNode (r.tp.take i) tp
  let cleared := (r.tp.take (i + 1)).count tp
  (old = [] ∨ cleared = if r.timeout ≤ 0 then placed else 0) ∧
    if r.timeout ≤ 0 then ∀ u ∈ old.take placed, u.timeout = r.timeout else placed = 0

/-- The users of the table are those of the preselected test points. -/
def Preselected (tpNode : TpNode) (r : RequestTp) (indx : Indx) : Prop :=
  let pre := tpNode.preselectRequest r.node r.taiNow
  ∀ tp, (if tpNode.tooMany pre Indx.zero then []
      else List.replicate (knownCount tpNode pre.tp tp) (pre.id, pre.timeout)).Perm
    ((usersOf indx tp).map TpUsage.clientTimeout)

/-- A request that stops at test point `i` of its list is undone right. -/
def UndoneRight (tpNode : TpNode) (r : RequestTp) (indx : Indx) (i : ℕ) : Prop :=
  if r.malloc then
    tpNode.relock = true ∧
      if tpClearAll ∈ r.tp.take i then Preselected tpNode r indx
      else ∀ tp, UndoneOn tpNode r indx i tp
  else ∀ tp, knownCount tpNode (r.tp.take i) tp = 0

/-- The request is rejected, or the DAQ block does not become too large and the request is undone
right if it stops. -/
def UndoneIfStopped (tpNode : TpNode) (r : RequestTp) (indx : Indx) : Prop :=
  tpNode.rejects r.id r.node = true ∨ tpNode.tooMany r indx = false ∧
    ∀ i, tpNode.Overfull indx r.tp i → (∀ j < i, ¬tpNode.Overfull indx r.tp j) →
      UndoneRight tpNode r indx i

theorem map_placedUsers {k : ℕ} : (placedUsers tpNode r k l tp).map TpUsage.clientTimeout =
    List.replicate (knownCount tpNode l tp) (r.id, r.timeout) := by
  rw [List.eq_replicate_iff, List.length_map, length_placedUsers]
  refine ⟨rfl, fun key hkey => ?_⟩
  obtain ⟨u, hu, rfl⟩ := List.mem_map.mp hkey
  obtain ⟨hid, htimeout⟩ := mem_placedUsers hu
  rw [TpUsage.clientTimeout, hid, htimeout]

theorem knownCount_le (tpNode : TpNode) (l : List ℕ) (tp : ℕ) :
    knownCount tpNode l tp ≤ l.count tp := by
  unfold knownCount
  split
  · exact le_rfl
  · exact Nat.zero_le _

theorem knownCount_take_le (tpNode : TpNode) (l : List ℕ) (i tp : ℕ) :
    knownCount tpNode (l.take i) tp ≤ (l.take (i + 1)).count tp :=
  (knownCount_le ..).trans ((List.take_sublist_take_left (Nat.le_succ i)).count_le tp)

/-- The first `m` users of the client without a timeout go, and `n` users like `key` were put
behind the others before. -/
theorem taken_perm_placed_iff {id timeout : ℤ} {us new : List TpUsage} {m n : ℕ} (hnm : n ≤ m)
    (hnew : new.map TpUsage.clientTimeout = List.replicate n (id, timeout)) :
    ((((us ++ new).filter (clearable id)).take m).map TpUsage.clientTimeout).Perm
        (new.map TpUsage.clientTimeout) ↔
      (us.filter (clearable id) = [] ∨ m = if timeout ≤ 0 then n else 0) ∧
        if timeout ≤ 0 then ∀ u ∈ (us.filter (clearable id)).take n, u.timeout = timeout
        else n = 0 := by
  have hmem : ∀ u ∈ new, u.clntId = id ∧ u.timeout = timeout := by
    intro u hu
    have hkey := List.eq_of_mem_replicate (hnew ▸ List.mem_map_of_mem hu)
    exact Prod.mk.inj hkey
  have hlen : new.length = n := by
    have := congrArg List.length hnew
    rwa [List.length_map, List.length_replicate] at this
  have hold : ∀ u ∈ us.filter (clearable id), u.clntId = id ∧ u.timeout ≤ 0 := by
    intro u hu
    simpa [clearable] using (List.mem_filter.mp hu).2
  rw [List.filter_append, hnew, List.perm_replicate, List.eq_replicate_iff]
  generalize us.filter (clearable id) = old at hold ⊢
  by_cases hneg : timeout ≤ 0
  · have hself : new.filter (clearable id) = new := by
      apply List.filter_eq_self.mpr
      intro u hu
      simp [clearable, hmem u hu, hneg]
    rw [hself, if_pos hneg, if_pos hneg, List.length_map, List.length_take, List.length_append,
      hlen]
    have hcount : min m (old.length + n) = n ↔ old = [] ∨ m = n := by
      rw [← List.length_eq_zero_iff]
      omega
    rw [hcount]
    refine and_congr_right fun hcase => ?_
    constructor
    · intro h u hu
      have hu' : u ∈ (old ++ new).take m := by
        rw [List.take_append]
        exact List.mem_append_left _ ((List.take_sublist_take_left hnm).subset hu)
      exact (Prod.mk.inj (h _ (List.mem_map_of_mem hu'))).2
    · intro h key hkey
      obtain ⟨u, hu, rfl⟩ := List.mem_map.mp hkey
      rw [List.take_append, List.mem_append] at hu
      rcases hu with hu | hu
      · rcases hcase with hnil | hm
        · rw [hnil, List.take_nil] at hu
          cases hu
        · rw [hm] at hu
          rw [TpUsage.clientTimeout, (hold u (List.mem_of_mem_take hu)).1, h u hu]
      · obtain ⟨hid, htimeout⟩ := hmem u (List.mem_of_mem_take hu)
        rw [TpUsage.clientTimeout, hid, htimeout]
  · -- the new users have a timeout, and none of them goes
    have hnone : new.filter (clearable id) = [] := by
      apply List.filter_eq_nil_iff.mpr
      intro u hu
      simp [clearable, hmem u hu, hneg]
    rw [hnone, List.append_nil, if_neg hneg, if_neg hneg, List.length_map, List.length_take,
      ← List.length_eq_zero_iff]
    constructor
    · rintro ⟨hmin, hall⟩
      cases old with
      | nil => exact ⟨Or.inl rfl, by simpa using hmin.symm⟩
      | cons u old =>
        cases m with
        | zero => exact ⟨Or.inr rfl, by omega⟩
        | succ m =>
          have hkey := hall u.clientTimeout (by simp)
          have htimeout := (Prod.mk.inj hkey).2
          have := (hold u List.mem_cons_self).2
          omega
    · rintro ⟨hcase, hn⟩
      have hnil : old.take m = [] := by
        rw [List.take_eq_nil_iff, ← List.length_eq_zero_iff]
        omega
      rw [hnil, hn]
      exact ⟨by omega, fun key hkey => by cases hkey⟩

/-! ## The request -/

theorem not_allOrNothing_tooMany (hsize : tpNode.tooMany r indx = true) (time : Option ℤ) :
    ¬AllOrNothing tpNode r indx ⟨indx', some ⟨0, time⟩⟩ := by
  rintro ⟨result, hret, -, hneg⟩
  cases hret
  exact absurd (hneg (Or.inl hsize)) (lt_irrefl 0)

theorem allOrNothing_stopped_iff {status : ℤ} {time : Option ℤ} (hneg : status < 0) :
    AllOrNothing tpNode r indx ⟨indx', some ⟨status, time⟩⟩ ↔ SameUsers indx indx' := by
  constructor
  · rintro ⟨result, hret, hcase, -⟩
    cases hret
    rcases hcase with ⟨hzero, -⟩ | ⟨-, hsame⟩
    · exact absurd hzero hneg.ne
    · exact hsame
  · exact fun hsame => ⟨_, rfl, Or.inr ⟨hneg, hsame⟩, fun _ => hneg⟩

/-- What the clean-up of a request leaves. -/
theorem sameUsers_clearTps_iff (ht' : TableOk indx')
    (husers : ∀ tp, usersOf indx' tp =
      usersOf indx tp ++ placedUsers tpNode r 0 (r.tp.take i) tp)
    (hall : tpClearAll ∉ r.tp.take (i + 1)) :
    SameUsers indx (clearTps r.id (r.tp.take (i + 1)) indx').1 ↔
      ∀ tp, UndoneOn tpNode r indx i tp := by
  obtain ⟨-, -, hclear⟩ := clearTps_usersOf ht' r.id hall
  refine forall_congr' fun tp => ?_
  rw [hclear, husers, map_iterate_eraseP_perm_iff]
  exact taken_perm_placed_iff (knownCount_take_le ..) map_placedUsers

/-- A request leaves nothing behind that was placed if it placed nothing. -/
theorem sameUsers_placed_iff
    (husers : ∀ tp, usersOf indx' tp =
      usersOf indx tp ++ placedUsers tpNode r 0 (r.tp.take i) tp) :
    SameUsers indx indx' ↔ ∀ tp, knownCount tpNode (r.tp.take i) tp = 0 := by
  refine forall_congr' fun tp => ?_
  rw [husers]
  constructor
  · intro h
    have hlen := h.length_eq
    rw [List.length_map, List.length_map, List.length_append, length_placedUsers] at hlen
    omega
  · intro h
    have hnil : placedUsers tpNode r 0 (r.tp.take i) tp = [] := by
      rw [← List.length_eq_zero_iff, length_placedUsers, h]
    rw [hnil, List.append_nil]

theorem rejects_preselect {n : ℤ} (h : tpNode.rejects r.id n = false) :
    tpNode.rejects 0x7fffffff n = false := by
  unfold TpNode.rejects at h ⊢
  simp only [decide_eq_false_iff_not, not_or] at h ⊢
  exact ⟨by decide, h.2⟩

/-- The undoing of a request that has stopped at test point `i`. -/
theorem cleanUp_iff (ht' : TableOk indx') (hrej : tpNode.rejects r.id r.node = false)
    (hover : tpNode.Overfull indx r.tp i)
    (husers : ∀ tp, usersOf indx' tp =
      usersOf indx tp ++ placedUsers tpNode r 0 (r.tp.take i) tp) (time : Option ℤ) :
    (∃ o, (if r.malloc then
          (tpNode.cleartp (tpNode.requesttp 1) true indx'
            ⟨r.id, r.node, r.tp.take (i + 1), fun l => r.taiNow (l + 3)⟩).map fun o =>
              (⟨o.indx, o.ret.map fun _ => ⟨-(i + 1), time⟩⟩ : Outcome ResultRequestTp)
        else some ⟨indx', some ⟨-(i + 1), time⟩⟩) = some o ∧ AllOrNothing tpNode r indx o) ↔
      UndoneRight tpNode r indx i := by
  have hneg : -((i : ℤ) + 1) < 0 := by omega
  unfold UndoneRight
  cases hmalloc : r.malloc with
  | false =>
    simp only [Bool.false_eq_true, if_false, Option.some.injEq, exists_eq_left']
    rw [allOrNothing_stopped_iff hneg]
    exact sameUsers_placed_iff husers
  | true =>
    unfold TpNode.cleartp
    rw [if_pos rfl, if_pos rfl, hrej, if_neg Bool.false_ne_true]
    cases hrelock : tpNode.relock with
    | false =>
      -- the call waits for the mutex that it holds
      simp only [Bool.true_and, Bool.not_false, if_true, Option.map_some, Option.map_none,
        Option.some.injEq, exists_eq_left', Bool.false_eq_true, false_and, iff_false]
      rintro ⟨result, hret, -⟩
      cases hret
    | true =>
      simp only [Bool.true_and, Bool.not_true, Bool.false_eq_true, if_false, true_and]
      by_cases hmem : tpClearAll ∈ r.tp.take i
      · rw [if_pos hmem, clearTps_all _ _ _ ((mem_take_succ_clearAll hover).mpr hmem)]
        obtain ⟨o, ho, hpre⟩ := setPreselect_usersOf (n := r.node) (fun l => r.taiNow (l + 3))
          hrelock (rejects_preselect hrej) 0 true
        simp only [Nat.zero_add] at ho
        simp only [if_true, ho, Option.map_some, Option.some.injEq, exists_eq_left']
        rw [allOrNothing_stopped_iff hneg]
        refine forall_congr' fun tp => ?_
        have hsize : tpNode.tooMany (tpNode.preselectRequest r.node fun l => r.taiNow (l + 3))
            Indx.zero = tpNode.tooMany (tpNode.preselectRequest r.node r.taiNow) Indx.zero :=
          tooMany_congr rfl
        rw [hpre, hsize]
        split
        case isTrue => exact Iff.rfl
        case isFalse =>
          rw [map_placedUsers]
          exact Iff.rfl
      · have hmem' := mt (mem_take_succ_clearAll hover).mp hmem
        rw [if_neg hmem, (clearTps_usersOf ht' r.id hmem').1]
        simp only [Bool.false_eq_true, if_false, Option.map_some, Option.some.injEq,
          exists_eq_left']
        rw [allOrNothing_stopped_iff hneg]
        exact sameUsers_clearTps_iff ht' husers hmem'

theorem requesttp_allOrNothing_iff (ht : TableOk indx) (r : RequestTp) :
    (∃ o, tpNode.requesttp 2 false indx r = some o ∧ AllOrNothing tpNode r indx o) ↔
      UndoneIfStopped tpNode r indx := by
  unfold TpNode.requesttp UndoneIfStopped
  cases hrej : tpNode.rejects r.id r.node with
  | true =>
    simp only [if_true, Option.some.injEq, exists_eq_left', true_or, iff_true]
    exact (allOrNothing_stopped_iff (by decide)).mpr fun _ => List.Perm.refl _
  | false =>
    rw [if_neg Bool.false_ne_true, Bool.false_and, if_neg Bool.false_ne_true]
    cases hsize : tpNode.tooMany r indx with
    | true =>
      simp only [if_true, Option.some.injEq, exists_eq_left', Bool.false_eq_true, false_and,
        reduceCtorEq, or_self, iff_false]
      exact not_allOrNothing_tooMany hsize _
    | false =>
      simp only [Bool.false_eq_true, if_false, true_and, false_or]
      have hplace := place_project_usersOf tpNode r ht
      split
      case h_1 indx' hpl =>
        rw [hpl] at hplace
        obtain ⟨hroom, husers⟩ := hplace
        simp only [Option.some.injEq, exists_eq_left']
        constructor
        · exact fun _ i hi => absurd hi (hroom i)
        · intro _
          refine ⟨_, rfl, Or.inl ⟨rfl, fun tp => ⟨_, husers tp, map_placedUsers⟩⟩, ?_⟩
          rintro (htoo | ⟨i, hi⟩)
          · rw [hsize] at htoo
            cases htoo
          · exact absurd hi (hroom i)
      case h_2 indx' i hpl =>
        rw [hpl] at hplace
        obtain ⟨⟨hover, hfirst⟩, ht', husers⟩ := hplace
        rw [cleanUp_iff ht' hrej hover husers]
        constructor
        · intro h j hj hjfirst
          rwa [overfull_unique hj hjfirst hover hfirst]
        · exact fun h => h i hover hfirst

/-- After every run, a request does all or nothing and says so if and only if it is rejected, or
it does not make the DAQ block too large and is undone right if it stops. -/
theorem run_allOrNothing_iff (tpNode : TpNode) (secs : List TpSection) (r : RequestTp) :
    (∃ o, tpNode.requesttp 2 false (tpNode.runTo secs).indx r = some o ∧
        AllOrNothing tpNode r (tpNode.runTo secs).indx o) ↔
      UndoneIfStopped tpNode r (tpNode.runTo secs).indx :=
  requesttp_allOrNothing_iff (runTo_tableOk tpNode secs) r

/-- A request for test point 1, 65 times: the status is 0, and no user is added. -/
theorem refused_request_not_said :
    ¬∃ o, plainTpNode.requesttp 2 false (plainTpNode.runTo []).indx
        (plainRequest 1 (List.replicate 65 1)) = some o ∧
      AllOrNothing plainTpNode (plainRequest 1 (List.replicate 65 1))
        (plainTpNode.runTo []).indx o := by
  rintro ⟨o, ho, result, hret, -, hneg⟩
  have hsize : plainTpNode.tooMany (plainRequest 1 (List.replicate 65 1))
      (plainTpNode.runTo []).indx = true := by decide +kernel
  have hstatus : (plainTpNode.requesttp 2 false (plainTpNode.runTo []).indx
      (plainRequest 1 (List.replicate 65 1))).bind Outcome.ret = some ⟨0, none⟩ := by
    decide +kernel
  rw [ho, Option.bind_some, hret, Option.some.injEq] at hstatus
  rw [hstatus] at hneg
  exact absurd (hneg (Or.inl hsize)) (lt_irrefl 0)

end AdvLigoRts.Gds
