import AdvLigoRts.Gds.TestpointCalls
import AdvLigoRts.Lib.Machine

/-!
# The test point table over whole runs

A run is any sequence of sections under the server mutex, so that the calls of all clients may
follow each other in any order. Every run keeps the table in order.
-/

namespace AdvLigoRts.Gds

open PvLib TpNode

variable {tpNode : TpNode} {s : TpState} {sec : TpSection} {secs : List TpSection}

/-- The table is a set of users: no test point is in two slots of an interface, each is in the
interface that it belongs to, and a slot has a test point if and only if it has users. -/
structure Faithful (indx : Indx) : Prop where
  distinct : ∀ f i j, (indx f i).id ≠ 0 → (indx f i).id = (indx f j).id → i = j
  belongs : ∀ f j, (indx f j).id ≠ 0 → tpInterface (indx f j).id = some f
  used : ∀ f j, (indx f j).id ≠ 0 ↔ 1 ≤ (indx f j).inUse ∧ (indx f j).inUse ≤ tpMaxUser

theorem TableOk.faithful {indx : Indx} (ht : TableOk indx) : Faithful indx where
  distinct := fun f => (ht f).distinct
  belongs := fun f j => ((ht f).entry j).belongs
  used := fun f j =>
    ((ht f).entry j).used.trans ⟨fun h => ⟨h, ((ht f).entry j).bound⟩, And.left⟩

def LeavesAlone (indx indx' : Indx) : TpSection → Prop
  | .request r => Frame r.id r.tp indx indx'
  | .clear c => tpClearAll ∉ c.tp → Frame c.id c.tp indx indx'
  | .cleanup .. => True

/-- The section is no request whose clean-up clears all test points. A default mutex makes the
clean-up wait for its own thread, so there this is so of every section. -/
def NoClearAll (tpNode : TpNode) (s : TpState) : TpSection → Prop
  | .request r => ∀ i, ¬ClearsAllAt tpNode r s.indx i
  | _ => True

theorem step_request (ht : TableOk s.indx) (r : RequestTp) :
    RequestEffect tpNode r s.indx (tpNode.step s (.request r)).indx := by
  unfold step
  dsimp only
  split
  case isTrue => exact .same
  case isFalse =>
    obtain ⟨o, ho, heff⟩ := requesttp_effect tpNode ht 0 false r
    simp only [Nat.zero_add] at ho
    rw [ho]
    exact heff

/-- What a clear does, whether or not it has to wait. -/
theorem step_clear (tpNode : TpNode) (ht : TableOk s.indx) (c : ClearTp) :
    (tpNode.step s (.clear c)).indx = Indx.zero ∧ tpClearAll ∈ c.tp ∨
      Cleared c.id c.tp s.indx (tpNode.step s (.clear c)).indx := by
  unfold step
  dsimp only
  split
  case isTrue => exact Or.inr (Cleared.refl ht)
  case isFalse =>
    by_cases hall : tpClearAll ∈ c.tp
    · exact Or.inl ⟨by rw [clearTps_all _ _ _ hall], hall⟩
    · exact Or.inr (clearTps_cleared ht c.id c.tp (List.Subset.refl _) hall).2

theorem step_cleanup (tpNode : TpNode) (ht : TableOk s.indx) (t : ℤ)
    (f : Fin tpMaxInterface) :
    TableOk (tpNode.step s (.cleanup t f)).indx ∧
      Shrinks s.indx (tpNode.step s (.cleanup t f)).indx := by
  unfold step
  dsimp only
  split
  case isTrue => exact ⟨ht, Shrinks.refl _⟩
  case isFalse => exact cleanupInterface_spec ht t f

theorem step_tableOk (tpNode : TpNode) (ht : TableOk s.indx) (sec : TpSection) :
    TableOk (tpNode.step s sec).indx := by
  cases sec with
  | request r => exact (step_request ht r).tableOk ht
  | clear c =>
    rcases step_clear tpNode ht c with ⟨hzero, -⟩ | hclear
    · rw [hzero]
      exact TableOk.zero
    · exact hclear.table
  | cleanup t f => exact (step_cleanup tpNode ht t f).1

theorem step_stays (ht : TableOk s.indx) (hno : NoClearAll tpNode s sec) :
    Stays s.indx (tpNode.step s sec).indx := by
  have hgrows : Grows s.indx s.indx := (SameUse.refl _).grows
  have ht' := step_tableOk tpNode ht sec
  cases sec with
  | request r => exact ((step_request ht r).keeps ht hno).1
  | clear c =>
    rcases step_clear tpNode ht c with ⟨hzero, -⟩ | hclear
    · intro f j _ huser
      rw [hzero] at huser
      exact absurd (usersOf_zero _) huser
    · exact hgrows.stays hclear.shrinks ht ht'
  | cleanup t f => exact hgrows.stays (step_cleanup tpNode ht t f).2 ht ht'

theorem step_leavesAlone (ht : TableOk s.indx) (hno : NoClearAll tpNode s sec) :
    LeavesAlone s.indx (tpNode.step s sec).indx sec := by
  cases sec with
  | request r => exact ((step_request ht r).keeps ht hno).2
  | clear c =>
    intro hall
    rcases step_clear tpNode ht c with ⟨-, hmem⟩ | hclear
    · exact absurd hmem hall
    · exact hclear.frame
  | cleanup t f => trivial

/-! ## Calls are runs of sections -/

/-- `cleartp_1_svc` is a clear that the request for the preselected test points may follow. -/
theorem cleartp_eq_run {c : ClearTp} {o : Outcome ℤ} (hs : s.blocked = false)
    (h : tpNode.cleartp (tpNode.requesttp 2) false s.indx c = some o) :
    ∃ secs, secs <+: [.clear c, .request (tpNode.preselectRequest c.node c.taiNow)] ∧
      (secs.foldl tpNode.step s).indx = o.indx := by
  unfold cleartp at h
  split at h
  case isTrue =>
    cases h
    exact ⟨[], List.nil_prefix, rfl⟩
  case isFalse hrej =>
    have hclear : tpNode.step s (.clear c) = { s with indx := (clearTps c.id c.tp s.indx).1 } := by
      simp [step, hs, hrej]
    rw [if_neg (by simp)] at h
    dsimp only at h
    split at h
    case isFalse =>
      cases h
      exact ⟨[.clear c], ⟨_, rfl⟩, by rw [List.foldl_cons, List.foldl_nil, hclear]⟩
    case isTrue =>
      rw [Option.map_eq_some_iff] at h
      obtain ⟨o', ho', rfl⟩ := h
      unfold setPreselect at ho'
      dsimp only at ho'
      split at ho'
      case isFalse =>
        cases ho'
        exact ⟨[.clear c], ⟨_, rfl⟩, by rw [List.foldl_cons, List.foldl_nil, hclear]⟩
      case isTrue =>
        rw [Option.map_eq_some_iff] at ho'
        obtain ⟨o'', ho'', rfl⟩ := ho'
        refine ⟨_, List.prefix_rfl, ?_⟩
        rw [List.foldl_cons, List.foldl_cons, List.foldl_nil, hclear]
        simp only [step, hs, Bool.false_eq_true, if_false, ho'']

/-- `cleanupTestpoints` is a clean-up of each interface. -/
theorem cleanupTestpoints_eq_run (tpNode : TpNode) (hs : s.blocked = false) (time epoch : ℤ) :
    tpNode.cleanupTestpoints time epoch s.indx =
      (((List.finRange tpMaxInterface).map (TpSection.cleanup
        (time * oneSec + epoch * epochLength))).foldl tpNode.step s).indx := by
  unfold cleanupTestpoints
  dsimp only
  generalize List.finRange tpMaxInterface = fs
  split
  case isFalse hvalid =>
    rw [Bool.not_eq_true] at hvalid
    induction fs with
    | nil => rfl
    | cons f fs ih => simpa [step, hvalid] using ih
  case isTrue hvalid =>
    induction fs generalizing s with
    | nil => rfl
    | cons f fs ih =>
      have hstep : tpNode.step s (.cleanup (time * oneSec + epoch * epochLength) f) =
          { s with indx := cleanupInterface (time * oneSec + epoch * epochLength) s.indx f } := by
        simp [step, hs, hvalid]
      rw [List.map_cons, List.foldl_cons, List.foldl_cons, hstep]
      exact ih (s := { s with indx := _ }) hs

/-! ## Runs -/

theorem runTo_append (tpNode : TpNode) (past mid : List TpSection) :
    tpNode.runTo (past ++ mid) = mid.foldl tpNode.step (tpNode.runTo past) := List.foldl_append

theorem runTo_tableOk (tpNode : TpNode) (secs : List TpSection) :
    TableOk (tpNode.runTo secs).indx := by
  refine foldl_invariant (P := fun _ _ => True) (fun s : TpState => TableOk s.indx)
    (fun s sec ht _ => step_tableOk tpNode ht sec) TableOk.zero ?_
  exact stepsMeet_of_forall _ fun _ _ _ => trivial

theorem run_stays {past mid : List TpSection} {f : Fin tpMaxInterface} {j : Fin tpMaxIndex}
    (h : StepsMeet tpNode.step (NoClearAll tpNode) TpState.start (past ++ mid))
    (hj : ((tpNode.runTo past).indx f j).id ≠ 0)
    (husers : ∀ m, m <+: mid →
      usersOf (tpNode.runTo (past ++ m)).indx ((tpNode.runTo past).indx f j).id ≠ []) :
    ((tpNode.runTo (past ++ mid)).indx f j).id = ((tpNode.runTo past).indx f j).id := by
  induction mid using List.reverseRecOn with
  | nil => rw [List.append_nil]
  | append_singleton mid sec ih =>
    rw [← List.append_assoc] at h ⊢
    obtain ⟨hmid, hsec, -⟩ := stepsMeet_append.mp h
    have hid := ih hmid fun m hm => husers m (hm.trans (List.prefix_append _ _))
    have hlast := husers (mid ++ [sec]) List.prefix_rfl
    rw [← List.append_assoc] at hlast
    have hstep : tpNode.runTo (past ++ mid ++ [sec]) =
        tpNode.step (tpNode.runTo (past ++ mid)) sec := runTo_append tpNode _ [sec]
    rw [hstep] at hlast ⊢
    have hstay := step_stays (runTo_tableOk tpNode (past ++ mid)) hsec f j (by rwa [hid])
      (by rwa [hid])
    rw [hstay, hid]

/-- With a default mutex no clean-up of a request clears anything. -/
theorem noClearAll_of_relock (hrelock : tpNode.relock = false) (s : TpState) (sec : TpSection) :
    NoClearAll tpNode s sec := by
  cases sec with
  | request r =>
    intro i hall
    have hheld := hall.relock
    rw [hrelock] at hheld
    cases hheld
  | clear c => trivial
  | cleanup t f => trivial

/-- Over every run of a server with a default mutex, the table is a set of users, test points
with users stay in their slots, and requests and clears leave alone what is not their own. The
calls of `cleartp_1_svc` and `cleanupTestpoints` are such runs of sections. -/
theorem testpoints_faithful (tpNode : TpNode) (hrelock : tpNode.relock = false)
    (secs : List TpSection) :
    Faithful (tpNode.runTo secs).indx ∧
      (∀ past mid, past ++ mid = secs → ∀ f j, ((tpNode.runTo past).indx f j).id ≠ 0 →
        (∀ m, m <+: mid →
          usersOf (tpNode.runTo (past ++ m)).indx ((tpNode.runTo past).indx f j).id ≠ []) →
        ((tpNode.runTo secs).indx f j).id = ((tpNode.runTo past).indx f j).id) ∧
      (∀ past sec, past ++ [sec] = secs →
        LeavesAlone (tpNode.runTo past).indx (tpNode.runTo secs).indx sec) ∧
      ((tpNode.runTo secs).blocked = false →
        (∀ c o, tpNode.cleartp (tpNode.requesttp 2) false (tpNode.runTo secs).indx c = some o →
          ∃ call, call <+: [.clear c, .request (tpNode.preselectRequest c.node c.taiNow)] ∧
            (tpNode.runTo (secs ++ call)).indx = o.indx) ∧
        ∀ time epoch, tpNode.cleanupTestpoints time epoch (tpNode.runTo secs).indx =
          (tpNode.runTo (secs ++ (List.finRange tpMaxInterface).map
            (TpSection.cleanup (time * oneSec + epoch * epochLength)))).indx) := by
  have hmeet : StepsMeet tpNode.step (NoClearAll tpNode) TpState.start secs :=
    stepsMeet_of_forall _ fun s sec _ => noClearAll_of_relock hrelock s sec
  refine ⟨(runTo_tableOk tpNode secs).faithful, ?_, ?_, fun hfree =>
    ⟨fun c o ho => ?_, fun time epoch => ?_⟩⟩
  · rintro past mid rfl f j hj husers
    exact run_stays hmeet hj husers
  · rintro past sec rfl
    obtain ⟨-, hsec, -⟩ := stepsMeet_append.mp hmeet
    rw [runTo_append]
    exact step_leavesAlone (runTo_tableOk tpNode past) hsec
  · obtain ⟨call, hcall, hindx⟩ := cleartp_eq_run hfree ho
    refine ⟨call, hcall, ?_⟩
    rw [runTo_append]
    exact hindx
  · rw [runTo_append]
    exact cleanupTestpoints_eq_run tpNode hfree time epoch

/-! ## A server -/

/-- A node that knows every test point and preselects none, with a default mutex. -/
def plainTpNode : TpNode where
  valid := true
  node := 0
  preselect := fun _ => 0
  tplookup := fun _ => some []
  curDaqBlockSize := 0
  sysFreqMult := 1
  relock := false

/-- A request without a timeout. -/
def plainRequest (id : ℤ) (tp : List ℕ) : RequestTp := ⟨id, 0, tp, 0, fun _ _ => 0, true⟩

theorem testpoints_faithful_one_request :
    plainTpNode.relock = false ∧
      Faithful (plainTpNode.runTo [.request (plainRequest 1 [5]),
        .clear ⟨1, 0, [5], fun _ _ => 0⟩]).indx :=
  ⟨rfl, (testpoints_faithful plainTpNode rfl _).1⟩

end AdvLigoRts.Gds
