import AdvLigoRts.Gds.TestpointNames

/-!
# Requests and clears by name

A request by name and a clear by the same names should leave the users as they were. The clear
takes the first users of the client away that have no timeout, which need not be those that the
request has placed.
-/

namespace AdvLigoRts.Gds

open PvLib TpNode

/-- The arguments of `requesttpname_1_svc`; `memory` is false if there is none for the numbers. -/
structure RequestTpName where
  id : ℤ
  tpNames : List Char
  timeout : ℤ
  taiNow : ℕ → ℕ → ℤ
  malloc : Bool
  memory : Bool

/-- The arguments of `cleartpname_1_svc`. -/
structure ClearTpName where
  id : ℤ
  tpNames : List Char
  taiNow : ℕ → ℕ → ℤ
  memory : Bool

namespace TpNode

variable (tpNode : TpNode)

/-- The call of `requesttp_1_svc` for a list of test points. -/
def byNumber (r : RequestTpName) (tps : List ℕ) : RequestTp :=
  ⟨r.id, tpNode.node, tps, r.timeout, r.taiNow, r.malloc⟩

/-- `requesttpname_1_svc`. The result is not set if the node is not valid. -/
def requesttpname (number : List Char → Option ℕ) (indx : Indx) (r : RequestTpName) :
    Option (Outcome (Option ResultRequestTp)) :=
  if tpNode.valid then
    match tpName2Index r.memory number r.tpNames with
    | none => some ⟨indx, some (some ⟨-1, none⟩)⟩
    | some tps => (tpNode.requesttp 2 false indx (tpNode.byNumber r tps)).map fun o =>
        ⟨o.indx, o.ret.map fun result =>
          some (if result.status < 0 then { result with status := -2 } else result)⟩
  else some ⟨indx, some none⟩

/-- `cleartpname_1_svc`. -/
def cleartpname (number : List Char → Option ℕ) (indx : Indx) (c : ClearTpName) :
    Option (Outcome ℤ) :=
  match tpName2Index c.memory number c.tpNames with
  | none => some ⟨indx, some 0⟩
  | some tps =>
    (tpNode.cleartp (tpNode.requesttp 2) false indx ⟨c.id, tpNode.node, tps, c.taiNow⟩).map
      fun o => ⟨o.indx, o.ret.map fun _ => 0⟩

end TpNode

variable {tpNode : TpNode} {indx indx' : Indx} {number : List Char → Option ℕ}
variable {r : RequestTp} {rn : RequestTpName} {cn : ClearTpName} {tps : List ℕ} {tp i : ℕ}

/-- Both calls return, and each test point has the users that it had before. -/
def RestoresUsers (tpNode : TpNode) (number : List Char → Option ℕ) (rn : RequestTpName)
    (cn : ClearTpName) (indx : Indx) : Prop :=
  ∃ o, tpNode.requesttpname number indx rn = some o ∧ o.ret.isSome ∧
    ∃ o', tpNode.cleartpname number o.indx cn = some o' ∧ o'.ret.isSome ∧
      ∀ tp, (usersOf o'.indx tp).Perm (usersOf indx tp)

/-! ## When the users are restored -/

/-- Of the client's users without a timeout, those that were there and those placed behind them,
the first ones that are cleared are those that were placed. -/
def TakenBack (r : RequestTp) (indx : Indx) (placed : ℕ → List TpUsage) (cleared : ℕ → ℕ) :
    Prop :=
  ∀ tp, (((usersOf indx tp ++ placed tp).filter (clearable r.id)).take (cleared tp)).Perm
    (placed tp)

/-- How many users of a test point are cleared if the request stops at test point `i` of the list:
those of its own clean-up and those of the clear behind it. -/
def clearedAfterStop (r : RequestTp) (i tp : ℕ) : ℕ :=
  r.tp.count tp + if r.malloc then (r.tp.take (i + 1)).count tp else 0

def ClearTakesBack (tpNode : TpNode) (r : RequestTp) (indx : Indx) : Prop :=
  tpNode.rejects r.id r.node = true ∨
    if tpNode.tooMany r indx then TakenBack r indx (fun _ => []) fun tp => r.tp.count tp
    else
      ((∀ i, ¬tpNode.Overfull indx r.tp i) →
        TakenBack r indx (placedUsers tpNode r 0 r.tp) fun tp => r.tp.count tp) ∧
      ∀ i, tpNode.Overfull indx r.tp i → (∀ j < i, ¬tpNode.Overfull indx r.tp j) →
        (r.malloc = true → tpNode.relock = true) ∧
          TakenBack r indx (placedUsers tpNode r 0 (r.tp.take i)) (clearedAfterStop r i)

structure LeavesUsers (r : RequestTp) (indx : Indx) (placed : ℕ → List TpUsage) (cleared : ℕ → ℕ)
    (indx' : Indx) : Prop where
  table : TableOk indx'
  users : ∀ tp, usersOf indx' tp =
    (List.eraseP (clearable r.id))^[cleared tp] (usersOf indx tp ++ placed tp)

/-- What becomes of a request that is not rejected and has not `_TP_CLEAR_ALL` in its list. -/
inductive Requested (tpNode : TpNode) (r : RequestTp) (indx : Indx) :
    Outcome ResultRequestTp → Prop
  | refused {indx' : Indx} {result : ResultRequestTp} (hsize : tpNode.tooMany r indx = true)
      (h : LeavesUsers r indx (fun _ => []) (fun _ => 0) indx') :
      Requested tpNode r indx ⟨indx', some result⟩
  | placed {indx' : Indx} {result : ResultRequestTp} (hsize : tpNode.tooMany r indx = false)
      (hroom : ∀ i, ¬tpNode.Overfull indx r.tp i)
      (h : LeavesUsers r indx (placedUsers tpNode r 0 r.tp) (fun _ => 0) indx') :
      Requested tpNode r indx ⟨indx', some result⟩
  | stopped {indx' : Indx} {result : ResultRequestTp} {i : ℕ}
      (hsize : tpNode.tooMany r indx = false) (hover : tpNode.Overfull indx r.tp i)
      (hfirst : ∀ j < i, ¬tpNode.Overfull indx r.tp j)
      (hlock : r.malloc = true → tpNode.relock = true)
      (h : LeavesUsers r indx (placedUsers tpNode r 0 (r.tp.take i))
        (fun tp => if r.malloc then (r.tp.take (i + 1)).count tp else 0) indx') :
      Requested tpNode r indx ⟨indx', some result⟩
  /-- The call waits for the mutex that it holds. -/
  | waits {indx' : Indx} {i : ℕ} (hsize : tpNode.tooMany r indx = false)
      (hover : tpNode.Overfull indx r.tp i) (hfirst : ∀ j < i, ¬tpNode.Overfull indx r.tp j)
      (hlock : ¬(r.malloc = true → tpNode.relock = true)) : Requested tpNode r indx ⟨indx', none⟩

theorem requesttp_requested (ht : TableOk indx) (hrej : tpNode.rejects r.id r.node = false)
    (hall : tpClearAll ∉ r.tp) :
    ∃ o, tpNode.requesttp 2 false indx r = some o ∧ Requested tpNode r indx o := by
  unfold TpNode.requesttp
  rw [hrej, if_neg Bool.false_ne_true, Bool.false_and, if_neg Bool.false_ne_true]
  have hproject := (project_spec tpNode r indx).1
  cases hsize : tpNode.tooMany r indx with
  | true =>
    rw [if_pos rfl]
    refine ⟨_, rfl, .refused hsize ⟨hproject.tableOk ht, fun tp => ?_⟩⟩
    rw [hproject.usersOf, List.append_nil]
    rfl
  | false =>
    rw [if_neg Bool.false_ne_true]
    have hplace := place_project_usersOf tpNode r ht
    have hstaged := place_project tpNode r ht
    dsimp only
    split
    case h_1 indx' hpl =>
      rw [hpl] at hplace hstaged
      exact ⟨_, rfl, .placed hsize hplace.1 ⟨hstaged.1.table, hplace.2⟩⟩
    case h_2 indx' i hpl =>
      rw [hpl] at hplace
      obtain ⟨⟨hover, hfirst⟩, ht', husers⟩ := hplace
      cases hmalloc : r.malloc with
      | false =>
        refine ⟨_, rfl, .stopped hsize hover hfirst (by simp [hmalloc]) ⟨ht', fun tp => ?_⟩⟩
        rw [husers, hmalloc]
        rfl
      | true =>
        unfold TpNode.cleartp
        rw [if_pos rfl, hrej, if_neg Bool.false_ne_true]
        cases hrelock : tpNode.relock with
        | false => exact ⟨_, rfl, .waits hsize hover hfirst (by simp [hmalloc, hrelock])⟩
        | true =>
          have hmem : tpClearAll ∉ r.tp.take (i + 1) := fun h => hall (List.mem_of_mem_take h)
          obtain ⟨hflag, ht'', hclear⟩ := clearTps_usersOf ht' r.id hmem
          simp only [Bool.true_and, Bool.not_true, Bool.false_eq_true, if_false, hflag,
            Option.map_some]
          refine ⟨_, rfl, .stopped hsize hover hfirst (fun _ => hrelock) ⟨ht'', fun tp => ?_⟩⟩
          rw [hclear, husers, hmalloc, if_pos rfl]

theorem LeavesUsers.clear_iff {placed : ℕ → List TpUsage} {cleared : ℕ → ℕ}
    (h : LeavesUsers r indx placed cleared indx') (hrej : tpNode.rejects r.id r.node = false)
    (hall : tpClearAll ∉ tps) (taiNow : ℕ → ℕ → ℤ) :
    (∃ o, tpNode.cleartp (tpNode.requesttp 2) false indx' ⟨r.id, r.node, tps, taiNow⟩ = some o ∧
        o.ret.isSome ∧ ∀ tp, (usersOf o.indx tp).Perm (usersOf indx tp)) ↔
      TakenBack r indx placed fun tp => tps.count tp + cleared tp := by
  obtain ⟨hflag, -, hclear⟩ := clearTps_usersOf h.table r.id hall
  unfold TpNode.cleartp
  rw [hrej, if_neg Bool.false_ne_true, Bool.false_and, if_neg Bool.false_ne_true]
  simp only [hflag, Bool.false_eq_true, if_false, Option.some.injEq, exists_eq_left',
    Option.isSome_some, true_and]
  refine forall_congr' fun tp => ?_
  have hiff := @map_iterate_eraseP_perm_iff _ _ (clearable r.id) (tps.count tp + cleared tp)
    (usersOf indx tp) (placed tp) id
  simp only [List.map_id] at hiff
  rw [hclear, h.users, ← Function.iterate_add_apply]
  exact hiff

theorem request_clear_iff (ht : TableOk indx) (hall : tpClearAll ∉ r.tp) (taiNow : ℕ → ℕ → ℤ) :
    (∃ o, tpNode.requesttp 2 false indx r = some o ∧ o.ret.isSome ∧
        ∃ o', tpNode.cleartp (tpNode.requesttp 2) false o.indx ⟨r.id, r.node, r.tp, taiNow⟩ =
          some o' ∧ o'.ret.isSome ∧ ∀ tp, (usersOf o'.indx tp).Perm (usersOf indx tp)) ↔
      ClearTakesBack tpNode r indx := by
  unfold ClearTakesBack
  cases hrej : tpNode.rejects r.id r.node with
  | true =>
    simp only [true_or, iff_true]
    refine ⟨⟨indx, some ⟨-2, none⟩⟩, ?_, rfl, ⟨indx, some (-2)⟩, ?_, rfl, fun _ => List.Perm.refl _⟩
    · unfold TpNode.requesttp
      rw [hrej, if_pos rfl]
    · unfold TpNode.cleartp
      rw [hrej, if_pos rfl]
  | false =>
    obtain ⟨o, ho, hreq⟩ := requesttp_requested ht hrej hall
    rw [ho]
    simp only [Option.some.injEq, exists_eq_left', Bool.false_eq_true, false_or]
    cases hreq with
    | refused hsize h =>
      rw [hsize, if_pos rfl, h.clear_iff hrej hall]
      simp
    | placed hsize hroom h =>
      rw [hsize, if_neg Bool.false_ne_true, h.clear_iff hrej hall]
      simp [hroom]
    | stopped hsize hover hfirst hlock h =>
      rw [hsize, if_neg Bool.false_ne_true, h.clear_iff hrej hall, Option.isSome_some]
      constructor
      · refine fun htaken => ⟨fun hroom => absurd hover (hroom _), fun j hj hjfirst => ?_⟩
        rw [overfull_unique hj hjfirst hover hfirst]
        exact ⟨hlock, htaken.2⟩
      · exact fun hboth => ⟨rfl, (hboth.2 _ hover hfirst).2⟩
    | waits hsize hover hfirst hlock =>
      rw [hsize, if_neg Bool.false_ne_true]
      simp only [Option.isSome_none, Bool.false_eq_true, false_and, false_iff]
      exact fun hboth => hlock (hboth.2 _ hover hfirst).1

/-! ## By name -/

theorem tpNumber_some {gdsChannelInfo : List Char → Option GdsChnInfo} {n : ℤ} {name : List Char}
    (h : tpNumber gdsChannelInfo n name = some tp) :
    (gdsChannelInfo name).isSome ∧ tpIdToInterface tp ≥ 0 := by
  unfold tpNumber tpIsValid at h
  split at h
  case h_1 => cases h
  case h_2 chn hchn =>
    rw [hchn]
    split at h
    case h_1 => cases h
    case h_2 tpNode' tp' hvalid =>
      split at h
      case isFalse => cases h
      case isTrue =>
        cases h
        split at hvalid
        case isFalse => cases hvalid
        case isTrue hboth =>
          cases hvalid
          exact ⟨rfl, hboth.2⟩

/-- A test point of a name is no `_TP_CLEAR_ALL`. -/
theorem clearAll_not_mem_numbers {gdsChannelInfo : List Char → Option GdsChnInfo} {n : ℤ}
    {names : NameList} : tpClearAll ∉ names.numbers (tpNumber gdsChannelInfo n) := by
  intro h
  obtain ⟨p, -, hp⟩ := List.mem_filterMap.mp h
  exact absurd (tpNumber_some hp).2 (by decide)

theorem tpName2Index_eq_iff (h : NamesOnly number) {names : NameList} (hsep : names.Separated)
    (hlen : names.length ≤ maxTpNames) (hknown : ∀ p ∈ names, (number p.2).isSome)
    (memory : Bool) :
    tpName2Index memory number names.text = some (names.numbers number) ↔
      memory = true ∧ names.NoCommaTouches := by
  rw [← nameLoop_text_iff h hsep hlen hknown, tpName2Index]
  cases memory <;> simp

theorem restoresUsers_iff {names : List Char} (ht : TableOk indx) (id timeout : ℤ)
    (taiNow taiNow' : ℕ → ℕ → ℤ) (malloc memory memory' : Bool)
    (hreq : tpName2Index memory number names = some tps)
    (hclear : tpName2Index memory' number names = some tps) (hall : tpClearAll ∉ tps) :
    RestoresUsers tpNode number ⟨id, names, timeout, taiNow, malloc, memory⟩
        ⟨id, names, taiNow', memory'⟩ indx ↔
      ClearTakesBack tpNode ⟨id, tpNode.node, tps, timeout, taiNow, malloc⟩ indx := by
  unfold RestoresUsers TpNode.requesttpname TpNode.cleartpname
  cases hvalid : tpNode.valid with
  | false =>
    have hrej : tpNode.rejects id tpNode.node = true := by simp [TpNode.rejects, hvalid]
    simp only [hclear, Bool.false_eq_true, if_false, Option.some.injEq, exists_eq_left',
      Option.isSome_some, true_and]
    unfold TpNode.cleartp ClearTakesBack
    simp only [hrej, if_true, Option.map_some, Option.some.injEq, exists_eq_left',
      Option.isSome_some, true_or, iff_true, true_and]
    exact fun _ => List.Perm.refl _
  | true =>
    rw [← request_clear_iff ht hall taiNow']
    simp only [hreq, hclear, if_true, Option.map_eq_some_iff, byNumber]
    constructor
    · rintro ⟨-, ⟨o, ho, rfl⟩, hret, -, ⟨o', ho', rfl⟩, hret', hperm⟩
      exact ⟨o, ho, by simpa using hret, o', ho', by simpa using hret', hperm⟩
    · rintro ⟨o, ho, hret, o', ho', hret', hperm⟩
      exact ⟨_, ⟨o, ho, rfl⟩, by simpa using hret, _, ⟨o', ho', rfl⟩, by simpa using hret', hperm⟩

/-- After every run, names are translated to their test points in both calls, and the calls
restore the users, if and only if there is memory, no comma touches a name up to the one behind
the first name, and the clear takes back what the request has placed. -/
theorem run_byName_iff (gdsChannelInfo : List Char → Option GdsChnInfo)
    (hinfo : ∀ name, (gdsChannelInfo name).isSome → name ≠ [] ∧ ∀ c ∈ name, firstSep c = false)
    (tpNode : TpNode) (secs : List TpSection) (names : NameList) (hsep : names.Separated)
    (hlen : names.length ≤ maxTpNames)
    (hknown : ∀ p ∈ names, (tpNumber gdsChannelInfo tpNode.node p.2).isSome)
    (id timeout : ℤ) (taiNow taiNow' : ℕ → ℕ → ℤ) (malloc memory memory' : Bool) :
    tpName2Index memory (tpNumber gdsChannelInfo tpNode.node) names.text =
          some (names.numbers (tpNumber gdsChannelInfo tpNode.node)) ∧
        tpName2Index memory' (tpNumber gdsChannelInfo tpNode.node) names.text =
          some (names.numbers (tpNumber gdsChannelInfo tpNode.node)) ∧
        RestoresUsers tpNode (tpNumber gdsChannelInfo tpNode.node)
          ⟨id, names.text, timeout, taiNow, malloc, memory⟩ ⟨id, names.text, taiNow', memory'⟩
          (tpNode.runTo secs).indx ↔
      memory = true ∧ memory' = true ∧ names.NoCommaTouches ∧
        ClearTakesBack tpNode ⟨id, tpNode.node,
          names.numbers (tpNumber gdsChannelInfo tpNode.node), timeout, taiNow, malloc⟩
          (tpNode.runTo secs).indx := by
  have hnames : NamesOnly (tpNumber gdsChannelInfo tpNode.node) := by
    intro name hsome
    obtain ⟨tp, htp⟩ := Option.isSome_iff_exists.mp hsome
    exact hinfo name (tpNumber_some htp).1
  have htranslate := tpName2Index_eq_iff hnames hsep hlen hknown
  have hall : tpClearAll ∉ names.numbers (tpNumber gdsChannelInfo tpNode.node) :=
    clearAll_not_mem_numbers
  have ht := runTo_tableOk tpNode secs
  constructor
  · rintro ⟨hreq, hclear, hrest⟩
    exact ⟨((htranslate memory).mp hreq).1, ((htranslate memory').mp hclear).1,
      ((htranslate memory).mp hreq).2,
      (restoresUsers_iff ht id timeout taiNow taiNow' malloc memory memory' hreq hclear hall).mp
        hrest⟩
  · rintro ⟨hmem, hmem', hcomma, hback⟩
    have hreq := (htranslate memory).mpr ⟨hmem, hcomma⟩
    have hclear := (htranslate memory').mpr ⟨hmem', hcomma⟩
    exact ⟨hreq, hclear,
      (restoresUsers_iff ht id timeout taiNow taiNow' malloc memory memory' hreq hclear hall).mpr
        hback⟩

theorem takenBack_of_none {placed : ℕ → List TpUsage} {cleared : ℕ → ℕ}
    (hold : ∀ tp, (usersOf indx tp).filter (clearable r.id) = [])
    (hplaced : ∀ tp, ∀ u ∈ placed tp, clearable r.id u = true)
    (hcount : ∀ tp, (placed tp).length ≤ cleared tp) : TakenBack r indx placed cleared := by
  intro tp
  rw [List.filter_append, hold, List.nil_append, List.filter_eq_self.mpr (hplaced tp),
    List.take_of_length_le (hcount tp)]

/-- The names `A`, `B` and `C` are those of test points 1, 2 and 3 of the node. -/
def threeNames (name : List Char) : Option GdsChnInfo :=
  if name = ['A'] then some ⟨0, 1, 1⟩
  else if name = ['B'] then some ⟨0, 2, 1⟩
  else if name = ['C'] then some ⟨0, 3, 1⟩
  else none

theorem threeNames_isSome {name : List Char} (h : (threeNames name).isSome) :
    name ≠ [] ∧ ∀ c ∈ name, firstSep c = false := by
  have hname : name = ['A'] ∨ name = ['B'] ∨ name = ['C'] := by
    unfold threeNames at h
    by_contra! hno
    rw [if_neg hno.1, if_neg hno.2.1, if_neg hno.2.2] at h
    cases h
  rcases hname with rfl | rfl | rfl <;> simp [firstSep]

theorem run_byName_two :
    tpName2Index true (tpNumber threeNames plainTpNode.node) ['A', ',', ' ', 'B'] =
      some [1, 2] := by
  have hback : ClearTakesBack plainTpNode ⟨1, 0, [1, 2], 0, fun _ _ => 0, true⟩
      (plainTpNode.runTo []).indx := by
    have hsize : plainTpNode.tooMany ⟨1, 0, [1, 2], 0, fun _ _ => 0, true⟩ Indx.zero = false := by
      decide +kernel
    right
    rw [TpNode.runTo, List.foldl_nil, TpState.start, hsize, if_neg Bool.false_ne_true]
    refine ⟨fun _ => takenBack_of_none (fun tp => ?_) (fun tp u hu => ?_) fun tp => ?_,
      fun i hi _ => absurd hi (not_overfull_zero (by decide))⟩
    · rw [usersOf_zero]
      rfl
    · obtain ⟨hid, htimeout⟩ := mem_placedUsers hu
      simp [clearable, hid, htimeout]
    · rw [length_placedUsers]
      exact knownCount_le ..
  exact ((run_byName_iff threeNames (fun _ => threeNames_isSome) plainTpNode []
    [([], ['A']), ([',', ' '], ['B'])] ⟨by simp [firstSep], by decide⟩ (by decide)
    (by decide +kernel) 1 0 (fun _ _ => 0) (fun _ _ => 0) true true true).mpr
    ⟨rfl, rfl, ⟨by decide +kernel, by decide +kernel⟩, hback⟩).1

/-- `A B,C` is taken for the names `A` and `B,C`. -/
theorem byName_comma_touches :
    tpName2Index true (tpNumber threeNames plainTpNode.node) ['A', ' ', 'B', ',', 'C'] ≠
      some [1, 2, 3] := by
  have hnames : NamesOnly (tpNumber threeNames plainTpNode.node) := by
    intro name hsome
    obtain ⟨tp, htp⟩ := Option.isSome_iff_exists.mp hsome
    exact threeNames_isSome (tpNumber_some htp).1
  intro heq
  have hiff := @tpName2Index_eq_iff _ hnames [([], ['A']), ([' '], ['B']), ([','], ['C'])]
    ⟨by simp [firstSep], by decide⟩ (by decide) (by decide +kernel) true
  exact absurd ((hiff.mp heq).2.2 ([','], ['C']) (by decide +kernel)).1 (by decide +kernel)

end AdvLigoRts.Gds
