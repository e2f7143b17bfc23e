import AdvLigoRts.Seq.CaTables
import Mathlib.Data.Fintype.Card

/-!
# The tables follow the connections

At any time a channel is in one of three places: in `caTable`, in an entry of `caConnTable` that
was reserved for it, or in its entry of `caConnEnumTable` (`Located`). The merge takes the entries
of `caConnTable` in order; `Inv` has the number of the first one that is still to be merged.
-/

namespace AdvLigoRts.Seq

open PvLib

variable {K : Type}

/-! ## What the tables are to say -/

/-- The last connection of a channel: whether it is up, its type as far as it is known, and the
last value that was received since. -/
structure LastConnect (K : Type) where
  up : Bool
  type : SdfType
  value : Option (SdfData K)

section Spec

variable [Zero K] [NatCast K]

def received (type : SdfType) : DbrValue K → SdfData K
  | .timeDouble value => .chval value
  | .timeString value => .strval value.chars
  | .grEnum value noStr strs =>
    if type = .num then .chval (value : K)
    else if value < noStr then .strval (strs value).chars
    else CaState.strncpy (CaState.unexpectedEnum value)

namespace LastConnect

/-- The type is known once the first value of an enum has come. -/
def typeAfter (type : SdfType) : DbrValue K → SdfType
  | .grEnum _ noStr strs => if type = .unknown then CaState.enumType noStr strs else type
  | _ => type

def update (l : LastConnect K) (args : DbrValue K) : LastConnect K :=
  let type := typeAfter l.type args
  ⟨l.up, type, some (received type args)⟩

end LastConnect

/-- A run of the tables, with what happened last to each channel. -/
structure CaRun (K : Type) where
  ca : CaState K
  last : Fin sdfMaxTsize → LastConnect K

namespace CaRun

def start (chNum : ℕ) : CaRun K := ⟨.start chNum, fun _ => ⟨false, .num, none⟩⟩

/-- What an event says about the channels. -/
def follow (w : CaRun K) : CaEvent K → Fin sdfMaxTsize → LastConnect K
  | .connect i ft =>
    if i < w.ca.chNum then Function.update w.last i ⟨true, ft.sdfType, none⟩ else w.last
  | .disconnect i =>
    if i < w.ca.chNum then Function.update w.last i { w.last i with up := false } else w.last
  | .update i args _ =>
    if i < w.ca.chNum ∧ w.ca.caEvid i = some args.chtype then
      Function.update w.last i ((w.last i).update args)
    else w.last
  | .sync => w.last

/-- One event. A run does not go on behind an index that is outside of the tables. -/
def step (w : CaRun K) (ev : CaEvent K) : CaRun K :=
  match w.ca.step ev with
  | .ok s => ⟨s, w.follow ev⟩
  | .error _ => w

/-- What the tables say about a channel agrees with what happened last to it. -/
structure Synced (w : CaRun K) (i : Fin sdfMaxTsize) : Prop where
  connected : (w.ca.cdTable i).connected = (w.last i).up
  datatype : (w.last i).up → (w.last i).type ≠ .unknown →
    (w.ca.caTable i).datatype = (w.last i).type ∧ (w.ca.cdTable i).datatype = (w.last i).type
  value : (w.last i).up → (w.last i).type ≠ .unknown → ∀ v, (w.last i).value = some v →
    (w.ca.caTable i).data = v

/-- What is to hold of an event: all indices are in the tables, and a merge leaves every channel
in step with its connection. -/
structure Keeps (w : CaRun K) (ev : CaEvent K) : Prop where
  index : ∃ s, w.ca.step ev = .ok s
  synced : ev = .sync → ∀ i : Fin sdfMaxTsize, i < w.ca.chNum → (w.step ev).Synced i

def Proper (w : CaRun K) : CaEvent K → Prop
  | .connect i ft => i < w.ca.chNum →
    -- a channel that waits in one side table does not connect with a type of the other one
    (ft ≠ .enum → (w.ca.caTable i).redirIndex < sdfMaxTsize) ∧
    (ft = .enum → ¬(0 ≤ (w.ca.caTable i).redirIndex ∧ (w.ca.caTable i).redirIndex < sdfMaxTsize)) ∧
    -- a subscription that is left is of the new type, or the type in `caTable` differs from it
    (∀ t, w.ca.caEvid i = some t → t = ft.subtype ∨
      ft.sdfType ≠ (w.ca.caTable i).datatype)
  | .disconnect _ => True
  | .update i args _ =>
    match args with
    | .grEnum value noStr _ => i < w.ca.chNum → w.ca.caEvid i = some .grEnum →
      w.ca.chEnumDetermined + 1 < 2 ^ 31 ∧
      (LastConnect.typeAfter (w.ca.caConnEnumTable i).datatype args = .str →
        noStr ≤ value ∨ 0 < value)
    | _ => True
  | .sync => ∀ i : Fin sdfMaxTsize, i < w.ca.chNum →
    (0 ≤ (w.ca.caTable i).redirIndex ∧ (w.ca.caTable i).redirIndex < sdfMaxTsize ∨
      (w.ca.caConnEnumTable i).datatype ≠ .unknown) → (w.ca.caTable i).connected = true

end CaRun

end Spec

/-! ## The places of a channel -/

structure Matches (e : EpicsCaTable K) (l : LastConnect K) : Prop where
  datatype : e.datatype = l.type
  value : ∀ v, l.value = some v → e.data = v

def SdfType.chtype : SdfType → ChType
  | .num => .timeDouble
  | _ => .timeString

/-- Where a channel is. The entries of `caConnTable` from `first` on are still to be merged. -/
inductive Located (s : CaState K) (l : LastConnect K) (first : ℕ) (i : Fin sdfMaxTsize) : Prop
  | own (hredir : (s.caTable i).redirIndex = -1)
      (henum : (s.caConnEnumTable i).datatype = .unknown)
      (hup : l.up → Matches (s.caTable i) l ∧ l.type ≠ .unknown ∧
        s.caEvid i = some l.type.chtype)
  | conn (k : Fin sdfMaxTsize) (hfirst : first ≤ k) (hlast : k < s.chConnNum)
      (hredir : (s.caTable i).redirIndex = k) (hindex : (s.caConnTable k).chanIndex = i)
      (henum : (s.caConnEnumTable i).datatype = .unknown)
      (hup : l.up → Matches (s.caConnTable k) l ∧ l.type ≠ .unknown ∧
        s.caEvid i = some l.type.chtype)
  | enum (hredir : (s.caTable i).redirIndex = i + sdfMaxTsize)
      (hup : l.up → Matches (s.caConnEnumTable i) l ∧ s.caEvid i = some .grEnum)

/-- What holds before and after every event, with `first = 0`, and between the passes of a
merge. -/
structure Inv (s : CaState K) (last : Fin sdfMaxTsize → LastConnect K) (first : ℕ) : Prop where
  chNum_le : s.chNum ≤ sdfMaxTsize
  chConnNum_le : s.chConnNum ≤ sdfMaxTsize
  chanIndex : ∀ i, (s.caTable i).chanIndex = i
  enumIndex : ∀ i, (s.caConnEnumTable i).chanIndex = i
  datatype : ∀ i, (s.cdTable i).datatype = (s.caTable i).datatype
  connected : ∀ i, (s.caTable i).connected = (last i).up
  down : ∀ i, (last i).up = false → s.caEvid i = none
  reserved : ∀ k, first ≤ k → k < s.chConnNum →
    ∃ i : Fin sdfMaxTsize, i < s.chNum ∧ (s.caTable i).redirIndex = k
  unregistered : ∀ i : Fin sdfMaxTsize, s.chNum ≤ i → (s.caTable i).redirIndex = -1
  nonneg : 0 ≤ s.chEnumDetermined
  determined : ∀ i, (s.caConnEnumTable i).datatype ≠ .unknown → 0 < s.chEnumDetermined
  located : ∀ i, Located s (last i) first i

section Steps

variable {s s' : CaState K} {last last' : Fin sdfMaxTsize → LastConnect K} {l : LastConnect K}
variable {first : ℕ} {i j : Fin sdfMaxTsize}

@[simp] theorem index_val (i : Fin sdfMaxTsize) : index i = .ok i := by
  unfold index
  have hi := i.isLt
  rw [dif_pos ⟨by omega, by omega⟩]
  simp

theorem index_of_lt {k : ℕ} (hk : k < sdfMaxTsize) : index k = .ok ⟨k, hk⟩ :=
  index_val ⟨k, hk⟩

/-- The entry of a channel that another channel does not share. -/
theorem Located.frame {l : LastConnect K} (h : Located s l first j)
    (hca : s'.caTable j = s.caTable j) (henum : s'.caConnEnumTable j = s.caConnEnumTable j)
    (hevid : s'.caEvid j = s.caEvid j) {first' : ℕ}
    (hconn : ∀ k : Fin sdfMaxTsize, (s.caTable j).redirIndex = k → first ≤ k → k < s.chConnNum →
      first' ≤ k ∧ k < s'.chConnNum ∧ s'.caConnTable k = s.caConnTable k) :
    Located s' l first' j := by
  cases h with
  | own hredir hunknown hup =>
    rw [← hca] at hredir hup
    rw [← henum] at hunknown
    rw [← hevid] at hup
    exact .own hredir hunknown hup
  | conn k hfirst hlast hredir hindex hunknown hup =>
    obtain ⟨hfirst', hlast', heq⟩ := hconn k hredir hfirst hlast
    rw [← hca] at hredir
    rw [← henum] at hunknown
    rw [← hevid, ← heq] at hup
    rw [← heq] at hindex
    exact .conn k hfirst' hlast' hredir hindex hunknown hup
  | enum hredir hup =>
    rw [← hca] at hredir
    rw [← henum, ← hevid] at hup
    exact .enum hredir hup

theorem Located.reserved {k : Fin sdfMaxTsize} (h : Located s l first i)
    (hredir : (s.caTable i).redirIndex = k) :
    (s.caConnTable k).chanIndex = i ∧ first ≤ k ∧ k < s.chConnNum := by
  cases h with
  | own hown _ _ => omega
  | conn k' hfirst hlast hown hindex _ _ =>
    have hk : k' = k := Fin.ext (by omega)
    exact hk ▸ ⟨hindex, hfirst, hlast⟩
  | enum hown _ =>
    have hlt := k.isLt
    omega

theorem Inv.reserved_inj {k : Fin sdfMaxTsize} (h : Inv s last first)
    (hi : (s.caTable i).redirIndex = k) (hj : (s.caTable j).redirIndex = k) : j = i := by
  have hik := ((h.located i).reserved hi).1
  have hjk := ((h.located j).reserved hj).1
  exact Fin.ext (by omega)

/-- A free entry is left for a channel that has none. -/
theorem Inv.chConnNum_lt (h : Inv s last 0) (hi : (s.caTable i).redirIndex = -1) :
    s.chConnNum < sdfMaxTsize := by
  choose f hf using fun k : Fin s.chConnNum => h.reserved k (Nat.zero_le _) k.isLt
  have hinj : Function.Injective f := by
    intro a b hab
    have ha := (hf a).2
    rw [hab, (hf b).2] at ha
    exact Fin.ext (by exact_mod_cast ha.symm)
  have hne : ∀ k, f k ∈ Finset.univ.erase i := by
    intro k
    refine Finset.mem_erase.mpr ⟨?_, Finset.mem_univ _⟩
    intro hki
    have hk := (hf k).2
    rw [hki, hi] at hk
    omega
  have hcard := Finset.card_le_card_of_injOn (s := Finset.univ) f (fun k _ => hne k)
    hinj.injOn
  rw [Finset.card_univ, Fintype.card_fin, Finset.card_erase_of_mem (Finset.mem_univ _),
    Finset.card_univ, Fintype.card_fin] at hcard
  have hpos : 0 < sdfMaxTsize := by decide
  omega

/-- A change that touches the entries of one channel, and of `caConnTable` none that another
channel has reserved. -/
structure OnlyChannel (s s' : CaState K) (last last' : Fin sdfMaxTsize → LastConnect K)
    (first first' : ℕ) (i : Fin sdfMaxTsize) : Prop where
  chNum : s'.chNum = s.chNum := by rfl
  cdTable : ∀ j, j ≠ i → s'.cdTable j = s.cdTable j := by
    first | exact fun _ _ => rfl | exact fun _ hj => Function.update_of_ne hj _ _
  caTable : ∀ j, j ≠ i → s'.caTable j = s.caTable j := by
    first | exact fun _ _ => rfl | exact fun _ hj => Function.update_of_ne hj _ _
  caConnEnumTable : ∀ j, j ≠ i → s'.caConnEnumTable j = s.caConnEnumTable j := by
    first | exact fun _ _ => rfl | exact fun _ hj => Function.update_of_ne hj _ _
  caEvid : ∀ j, j ≠ i → s'.caEvid j = s.caEvid j := by
    first | exact fun _ _ => rfl | exact fun _ hj => Function.update_of_ne hj _ _
  last : ∀ j, j ≠ i → last' j = last j := by
    first | exact fun _ _ => rfl | exact fun _ hj => Function.update_of_ne hj _ _
  caConnTable : ∀ j k, j ≠ i → (s.caTable j).redirIndex = (k : Fin sdfMaxTsize) → first ≤ k →
    k < s.chConnNum → first' ≤ k ∧ s'.caConnTable k = s.caConnTable k := by
    exact fun _ _ _ _ hk _ => ⟨hk, rfl⟩
  first_le : first ≤ first' := by exact le_rfl
  chConnNum : s.chConnNum ≤ s'.chConnNum := by exact le_rfl
  chConnNum_le : s'.chConnNum ≤ sdfMaxTsize
  reserved : ∀ k : ℕ, first' ≤ k → k < s'.chConnNum →
    k < s.chConnNum ∧ (s.caTable i).redirIndex ≠ k ∨ (s'.caTable i).redirIndex = k
  chEnumDetermined : s.chEnumDetermined ≤ s'.chEnumDetermined := by exact le_rfl

/-- What is left to show for such a change speaks of that channel. -/
theorem OnlyChannel.inv {first' : ℕ} (h : OnlyChannel s s' last last' first first' i)
    (hinv : Inv s last first) (hi : i < s.chNum) (hindex : (s'.caTable i).chanIndex = i)
    (henum : (s'.caConnEnumTable i).chanIndex = i)
    (htype : (s'.cdTable i).datatype = (s'.caTable i).datatype)
    (hup : (s'.caTable i).connected = (last' i).up)
    (hdown : (last' i).up = false → s'.caEvid i = none)
    (hdet : (s'.caConnEnumTable i).datatype ≠ .unknown → 0 < s'.chEnumDetermined)
    (hloc : Located s' (last' i) first' i) : Inv s' last' first' := by
  have hcases : ∀ {P : Fin sdfMaxTsize → Prop}, P i → (∀ j, j ≠ i → P j) → ∀ j, P j := by
    intro P hself hother j
    by_cases hj : j = i
    · exact hj ▸ hself
    · exact hother j hj
  constructor
  · rw [h.chNum]
    exact hinv.chNum_le
  · exact h.chConnNum_le
  · refine hcases hindex fun j hj => ?_
    rw [h.caTable j hj]
    exact hinv.chanIndex j
  · refine hcases henum fun j hj => ?_
    rw [h.caConnEnumTable j hj]
    exact hinv.enumIndex j
  · refine hcases htype fun j hj => ?_
    rw [h.cdTable j hj, h.caTable j hj]
    exact hinv.datatype j
  · refine hcases hup fun j hj => ?_
    rw [h.caTable j hj, h.last j hj]
    exact hinv.connected j
  · refine hcases hdown fun j hj => ?_
    rw [h.last j hj, h.caEvid j hj]
    exact hinv.down j
  · intro k hk hk'
    rw [h.chNum]
    rcases h.reserved k hk hk' with ⟨hold, hne⟩ | hself
    · obtain ⟨j, hj, hredir⟩ := hinv.reserved k (h.first_le.trans hk) hold
      have hji : j ≠ i := by
        rintro rfl
        exact hne hredir
      exact ⟨j, hj, by rw [h.caTable j hji, hredir]⟩
    · exact ⟨i, hi, hself⟩
  · rw [h.chNum]
    intro j hj
    have hji : j ≠ i := by
      rintro rfl
      omega
    rw [h.caTable j hji]
    exact hinv.unregistered j hj
  · exact hinv.nonneg.trans h.chEnumDetermined
  · refine hcases hdet fun j hj => ?_
    rw [h.caConnEnumTable j hj]
    exact fun hne => (hinv.determined j hne).trans_le h.chEnumDetermined
  · refine hcases hloc fun j hj => ?_
    rw [h.last j hj]
    refine (hinv.located j).frame (h.caTable j hj) (h.caConnEnumTable j hj) (h.caEvid j hj) ?_
    intro k hredir hk hk'
    obtain ⟨hfirst, heq⟩ := h.caConnTable j k hj hredir hk hk'
    exact ⟨hfirst, hk'.trans_le h.chConnNum, heq⟩

/-! ## Connections -/

section Connect

variable [Zero K] {ft : FieldType}

/-- After the callback the channel is subscribed with the type of the connection. -/
theorem connectUp_ok {t : CaState K} (hindex : (s.caTable i).chanIndex = i)
    (ht : s.connectTables i ft = .ok t) (hsame : t.caEvid = s.caEvid)
    (hevid : ∀ u, s.caEvid i = some u → u = ft.subtype ∨ ft.sdfType ≠ (s.caTable i).datatype) :
    s.connectUp i ft = .ok (t.setEvid i (some ft.subtype)) := by
  have hresult : (if (if (t.caEvid i).isSome ∧ ft.sdfType ≠ (s.caTable i).datatype then none
      else t.caEvid i) = none then some ft.subtype
      else if (t.caEvid i).isSome ∧ ft.sdfType ≠ (s.caTable i).datatype then none
      else t.caEvid i) = some ft.subtype := by
    rw [hsame]
    cases he : s.caEvid i with
    | none => simp
    | some u =>
      by_cases hchange : ft.sdfType ≠ (s.caTable i).datatype
      · simp [hchange]
      · simp [hchange, (hevid u he).resolve_right hchange]
  unfold CaState.connectUp
  rw [ht]
  dsimp only [bind, Except.bind]
  rw [hindex, index_val]
  dsimp only [pure, Except.pure]
  rw [hresult]

theorem connectTables_enum (hindex : (s.caTable i).chanIndex = i) :
    s.connectTables i .enum =
      .ok ((s.setCa i { s.caTable i with redirIndex := i + sdfMaxTsize, connected := true }).setEnum
        i (CaState.newConn i .enum)) := by
  unfold CaState.connectTables
  dsimp only
  rw [if_pos rfl, hindex, index_val]
  rfl

/-- The entry is the reserved one, or the next. -/
theorem connectTables_other (hft : ft ≠ .enum) (hindex : (s.caTable i).chanIndex = i)
    {k : Fin sdfMaxTsize} {n : ℕ}
    (hk : (s.caTable i).redirIndex = k ∧ n = s.chConnNum ∨
      (s.caTable i).redirIndex = -1 ∧ k = s.chConnNum ∧ n = s.chConnNum + 1) :
    s.connectTables i ft =
      .ok { (s.setCa i { s.caTable i with redirIndex := k, connected := true }).setConn k
        (CaState.newConn i ft) with chConnNum := n } := by
  unfold CaState.connectTables
  dsimp only
  rw [if_neg hft]
  rcases hk with ⟨hredir, rfl⟩ | ⟨hredir, hk, rfl⟩
  · have hpos : ¬((k : ℕ) : ℤ) < 0 := by omega
    rw [hredir, if_neg hpos, if_neg hpos, index_val, hindex]
    rfl
  · rw [hredir, if_pos (by decide), if_pos (by decide), ← hk, index_val, hindex]
    rfl

theorem Inv.connectUp (h : Inv s last 0) (hi : i < s.chNum)
    (hother : ft ≠ .enum → (s.caTable i).redirIndex < sdfMaxTsize)
    (henum : ft = .enum →
      ¬(0 ≤ (s.caTable i).redirIndex ∧ (s.caTable i).redirIndex < sdfMaxTsize))
    (hevid : ∀ u, s.caEvid i = some u → u = ft.subtype ∨ ft.sdfType ≠ (s.caTable i).datatype) :
    ∃ s', s.connectUp i ft = .ok s' ∧
      Inv s' (Function.update last i ⟨true, ft.sdfType, none⟩) 0 := by
  have hindex := h.chanIndex i
  have hle := h.chConnNum_le
  by_cases hft : ft = .enum
  · subst hft
    refine ⟨_, connectUp_ok hindex (connectTables_enum hindex) rfl hevid, ?_⟩
    -- nothing is reserved in `caConnTable` for the channel
    have hfree : ∀ k : ℕ, k < s.chConnNum → (s.caTable i).redirIndex ≠ k := by
      intro k hk hredir
      exact henum rfl (by omega)
    refine OnlyChannel.inv (i := i) ?_ h hi ?_ ?_ ?_ ?_ ?_ ?_ ?_
    · exact {
        chConnNum_le := hle
        reserved := fun k _ hk => Or.inl ⟨hk, hfree k hk⟩ }
    all_goals dsimp only [CaState.setCa, CaState.setEnum, CaState.setEvid]
    all_goals try rw [Function.update_self]
    · exact hindex
    · rfl
    · exact h.datatype i
    · rw [Function.update_self]
    · rw [Function.update_self]
      exact nofun
    · exact fun hne => absurd rfl hne
    · refine .enum ?_ fun _ => ⟨⟨?_, ?_⟩, ?_⟩
      all_goals dsimp only
      all_goals rw [Function.update_self]
      · rfl
      · exact nofun
      · rfl
  · -- the entry is the one that is reserved for the channel, or the next
    obtain ⟨k, n, hk, hunknown, hkn, hn⟩ : ∃ (k : Fin sdfMaxTsize) (n : ℕ),
        ((s.caTable i).redirIndex = k ∧ n = s.chConnNum ∨
          (s.caTable i).redirIndex = -1 ∧ k = s.chConnNum ∧ n = s.chConnNum + 1) ∧
        (s.caConnEnumTable i).datatype = .unknown ∧ k < n ∧ n ≤ sdfMaxTsize := by
      cases h.located i with
      | own hredir hunknown _ =>
        have hlt := h.chConnNum_lt hredir
        exact ⟨⟨s.chConnNum, hlt⟩, _, Or.inr ⟨hredir, rfl, rfl⟩, hunknown, Nat.lt_succ_self _, hlt⟩
      | conn k _ hlast hredir _ hunknown _ =>
        exact ⟨k, _, Or.inl ⟨hredir, rfl⟩, hunknown, hlast, hle⟩
      | enum hredir _ =>
        have hlt := hother hft
        omega
    refine ⟨_, connectUp_ok hindex (connectTables_other hft hindex hk) rfl hevid, ?_⟩
    refine OnlyChannel.inv (i := i) ?_ h hi ?_ ?_ ?_ ?_ ?_ ?_ ?_
    · exact {
        caConnTable := by
          intro j k' hj hredir _ hk'
          refine ⟨Nat.zero_le _, Function.update_of_ne ?_ _ _⟩
          rintro rfl
          rcases hk with ⟨hself, -⟩ | ⟨-, hnext, -⟩
          · exact hj (h.reserved_inj hself hredir)
          · omega
        chConnNum := by
          dsimp only [CaState.setEvid]
          omega
        chConnNum_le := hn
        reserved := by
          intro k' _ hk'
          change k' < n at hk'
          by_cases hkk : k' = k
          · right
            dsimp only [CaState.setCa, CaState.setConn, CaState.setEvid]
            rw [Function.update_self, hkk]
          · left
            omega }
    all_goals dsimp only [CaState.setCa, CaState.setConn, CaState.setEvid]
    all_goals try rw [Function.update_self]
    · exact hindex
    · exact h.enumIndex i
    · exact h.datatype i
    · rw [Function.update_self]
    · rw [Function.update_self]
      exact nofun
    · exact fun hne => absurd hunknown hne
    · refine .conn k (Nat.zero_le _) hkn ?_ ?_ hunknown fun _ => ⟨⟨?_, ?_⟩, ?_, ?_⟩
      all_goals dsimp only
      all_goals try rw [Function.update_self]
      · rfl
      · rfl
      · exact nofun
      · cases ft <;> first | exact absurd rfl hft | exact nofun
      · cases ft <;> first | exact absurd rfl hft | rfl

end Connect

theorem Inv.connectDown (h : Inv s last 0) (hi : i < s.chNum) :
    ∃ s', s.connectDown i = .ok s' ∧
      Inv s' (Function.update last i { last i with up := false }) 0 := by
  have hindex := h.chanIndex i
  refine ⟨(s.setCa i { s.caTable i with connected := false }).setEvid i none, ?_, ?_⟩
  · unfold CaState.connectDown
    dsimp only
    rw [hindex, index_val]
    rfl
  refine OnlyChannel.inv (i := i) ?_ h hi ?_ ?_ ?_ ?_ ?_ ?_ ?_
  · exact {
      chConnNum_le := h.chConnNum_le
      reserved := by
        intro k _ hk
        dsimp only [CaState.setCa, CaState.setEvid]
        rw [Function.update_self]
        exact (em _).elim Or.inr fun hne => Or.inl ⟨hk, hne⟩ }
  all_goals dsimp only [CaState.setCa, CaState.setEvid]
  all_goals try rw [Function.update_self]
  · exact hindex
  · exact h.enumIndex i
  · exact h.datatype i
  · rw [Function.update_self]
  · exact fun _ => Function.update_self ..
  · exact h.determined i
  · have hdown : ¬({ last i with up := false } : LastConnect K).up := by simp
    cases h.located i with
    | own hredir hunknown _ =>
      exact .own (by simpa using hredir) hunknown fun hup => absurd hup hdown
    | conn k hfirst hlast hredir hindex hunknown _ =>
      exact .conn k hfirst hlast (by simpa using hredir) hindex hunknown
        fun hup => absurd hup hdown
    | enum hredir _ => exact .enum (by simpa using hredir) fun hup => absurd hup hdown

/-! ## Updates -/

section Update

variable [NatCast K] {args : DbrValue K} {time : ℤ}

theorem take_chars (c : CaString) : c.chars.take 63 = c.chars :=
  List.take_of_length_le (by have := c.length_lt; omega)

/-- What is written for a number or a string is what was received. -/
theorem receive_value (e : EpicsCaTable K) (r : ℤ) (hargs : args.chtype ≠ .grEnum)
    (type : SdfType) :
    CaState.receive e r args time =
      ({ e with connected := true, data := received type args, modTime := time }, false) := by
  cases args with
  | timeDouble value => rfl
  | timeString value =>
    unfold CaState.receive received CaState.strncpy
    dsimp only
    rw [take_chars]
  | grEnum value noStr strs => exact absurd rfl hargs

theorem receive_enum (e : EpicsCaTable K) {r : ℤ} (hr : r ≥ sdfMaxTsize) {value noStr : ℕ}
    {strs : ℕ → CaString} (hargs : args = .grEnum value noStr strs)
    (hzero : LastConnect.typeAfter e.datatype args = .str → noStr ≤ value ∨ 0 < value) :
    CaState.receive e r args time =
      ({ e with
          connected := true
          datatype := LastConnect.typeAfter e.datatype args
          data := received (LastConnect.typeAfter e.datatype args) args
          modTime := time }, decide (e.datatype = .unknown)) := by
  subst hargs
  have hdata : ∀ type : SdfType, (type = .str → noStr ≤ value ∨ 0 < value) → type ≠ .unknown →
      (CaState.enumData type value noStr strs : SdfData K) =
        received type (.grEnum value noStr strs) := by
    intro type hpos hne
    unfold CaState.enumData received
    cases type with
    | num => rfl
    | unknown => exact absurd rfl hne
    | str =>
      dsimp only
      by_cases hlt : value < noStr
      · have hgt : value > 0 := by
          have := hpos rfl
          omega
        simp [hlt, hgt, CaState.strncpy, take_chars]
      · simp [hlt]
  have hknown : LastConnect.typeAfter e.datatype (.grEnum value noStr strs : DbrValue K) ≠
      .unknown := by
    unfold LastConnect.typeAfter
    dsimp only
    split
    · unfold CaState.enumType
      split <;> [split; skip] <;> exact nofun
    · assumption
  unfold CaState.receive
  dsimp only
  rw [← hdata _ hzero hknown]
  unfold LastConnect.typeAfter
  by_cases hu : e.datatype = .unknown <;> simp [hr, hu]

theorem update_of_known (hargs : args.chtype ≠ .grEnum) :
    l.update args = ⟨l.up, l.type, some (received l.type args)⟩ := by
  cases args with
  | timeDouble value => rfl
  | timeString value => rfl
  | grEnum value noStr strs => exact absurd rfl hargs

theorem SdfType.chtype_ne (t : SdfType) : t.chtype ≠ .grEnum := by
  cases t <;> exact nofun

variable (time) in
/-- An update is written to the place where the channel is. -/
theorem Inv.update (h : Inv s last 0) (hi : i < s.chNum) (hsub : s.caEvid i = some args.chtype)
    (hproper : ∀ value noStr strs, args = .grEnum value noStr strs →
      s.chEnumDetermined + 1 < 2 ^ 31 ∧
      (LastConnect.typeAfter (s.caConnEnumTable i).datatype args = .str →
        noStr ≤ value ∨ 0 < value)) :
    ∃ s', s.subscriptionHandler i args time = .ok s' ∧
      Inv s' (Function.update last i ((last i).update args)) 0 := by
  have hup : (last i).up = true := by
    by_contra hdown
    rw [h.down i (by simpa using hdown)] at hsub
    cases hsub
  have hconnected := h.connected i
  rw [hup] at hconnected
  have hindex := h.chanIndex i
  have hupdated : ((last i).update args).up = true := hup
  cases h.located i with
  | own hredir hunknown hplace =>
    obtain ⟨hmatch, hknown, hevid⟩ := hplace hup
    have hne : args.chtype ≠ .grEnum := by
      rw [hevid, Option.some.injEq] at hsub
      exact hsub ▸ SdfType.chtype_ne _
    refine ⟨s.setCa i { s.caTable i with
      connected := true, data := received (last i).type args, modTime := time }, ?_, ?_⟩
    · unfold CaState.subscriptionHandler
      dsimp only
      rw [if_neg (by omega), receive_value _ _ hne (last i).type]
      rfl
    refine OnlyChannel.inv (i := i) ?_ h hi ?_ ?_ ?_ ?_ ?_ ?_ ?_
    · exact {
        chConnNum_le := h.chConnNum_le
        reserved := fun k _ hk => Or.inl ⟨hk, by omega⟩ }
    all_goals dsimp only [CaState.setCa]
    all_goals try rw [Function.update_self]
    · exact hindex
    · exact h.enumIndex i
    · exact h.datatype i
    · rw [Function.update_self, hupdated]
    · rw [hupdated]
      exact nofun
    · exact h.determined i
    · rw [update_of_known hne]
      refine .own ?_ hunknown fun _ => ⟨⟨?_, ?_⟩, hknown, hevid⟩
      all_goals dsimp only
      all_goals rw [Function.update_self]
      · exact hredir
      · exact hmatch.datatype
      · exact fun v hv => Option.some.inj hv
  | conn k hfirst hlast hredir hindexk hunknown hplace =>
    obtain ⟨hmatch, hknown, hevid⟩ := hplace hup
    have hne : args.chtype ≠ .grEnum := by
      rw [hevid, Option.some.injEq] at hsub
      exact hsub ▸ SdfType.chtype_ne _
    refine ⟨s.setConn k { s.caConnTable k with
      connected := true, data := received (last i).type args, modTime := time }, ?_, ?_⟩
    · have hk := k.isLt
      unfold CaState.subscriptionHandler
      dsimp only
      rw [hredir, if_pos (by omega), if_pos (by omega), index_val]
      dsimp only [bind, Except.bind]
      rw [receive_value _ _ hne (last i).type]
      rfl
    refine OnlyChannel.inv (i := i) ?_ h hi ?_ ?_ ?_ ?_ ?_ ?_ ?_
    · exact {
        caConnTable := by
          intro j k' hj hredirj _ _
          refine ⟨Nat.zero_le _, Function.update_of_ne ?_ _ _⟩
          rintro rfl
          exact hj (h.reserved_inj hredir hredirj)
        chConnNum_le := h.chConnNum_le
        reserved := by
          intro k' _ hk'
          exact (em _).elim Or.inr fun hk => Or.inl ⟨hk', hk⟩ }
    all_goals dsimp only [CaState.setConn]
    all_goals try rw [Function.update_self]
    · exact hindex
    · exact h.enumIndex i
    · exact h.datatype i
    · rw [hconnected, hupdated]
    · rw [hupdated]
      exact nofun
    · exact h.determined i
    · rw [update_of_known hne]
      refine .conn k hfirst hlast hredir ?_ hunknown fun _ => ⟨⟨?_, ?_⟩, hknown, hevid⟩
      all_goals dsimp only
      all_goals rw [Function.update_self]
      · exact hindexk
      · exact hmatch.datatype
      · exact fun v hv => Option.some.inj hv
  | enum hredir hplace =>
    obtain ⟨hmatch, hevid⟩ := hplace hup
    obtain ⟨value, noStr, strs, hargs⟩ : ∃ value noStr strs, args = .grEnum value noStr strs := by
      rw [hevid, Option.some.injEq] at hsub
      cases args with
      | timeDouble value => cases hsub
      | timeString value => cases hsub
      | grEnum value noStr strs => exact ⟨value, noStr, strs, rfl⟩
    obtain ⟨hcount, hzero⟩ := hproper value noStr strs hargs
    have hnonneg := h.nonneg
    have hdetermine : (s.chEnumDetermined + 1).bmod (2 ^ 32) = s.chEnumDetermined + 1 :=
      Int.bmod_eq_of_le (by omega) (by omega)
    have htype := hmatch.datatype
    let e : EpicsCaTable K := { s.caConnEnumTable i with
      connected := true
      datatype := LastConnect.typeAfter (s.caConnEnumTable i).datatype args
      data := received (LastConnect.typeAfter (s.caConnEnumTable i).datatype args) args
      modTime := time }
    -- the counter goes up if the type was not known
    let n : ℤ := if (s.caConnEnumTable i).datatype = .unknown then s.chEnumDetermined + 1
      else s.chEnumDetermined
    refine ⟨{ s.setEnum i e with chEnumDetermined := n }, ?_, ?_⟩
    · unfold CaState.subscriptionHandler
      dsimp only
      rw [hredir, if_pos (by omega), if_neg (by omega), Int.add_sub_cancel, index_val]
      dsimp only [bind, Except.bind]
      rw [receive_enum _ (by omega) hargs hzero]
      by_cases hu : (s.caConnEnumTable i).datatype = .unknown
      · simp only [hu, decide_true, if_true, n]
        rw [← hdetermine]
        simp [CaState.determine, pure, Except.pure, CaState.setEnum, e, hu]
      · simp only [hu, decide_false, if_false, n]
        rfl
    refine OnlyChannel.inv (i := i) ?_ h hi ?_ ?_ ?_ ?_ ?_ ?_ ?_
    · exact {
        chConnNum_le := h.chConnNum_le
        reserved := by
          intro k _ hk
          exact (em _).elim Or.inr fun hk' => Or.inl ⟨hk, hk'⟩
        chEnumDetermined := by
          dsimp only [n]
          split <;> omega }
    all_goals dsimp only [CaState.setEnum]
    all_goals try rw [Function.update_self]
    · exact hindex
    · exact h.enumIndex i
    · exact h.datatype i
    · rw [hconnected, hupdated]
    · rw [hupdated]
      exact nofun
    · intro _
      dsimp only [n]
      split
      case isTrue => omega
      case isFalse hu => exact h.determined i hu
    · refine .enum hredir fun _ => ⟨⟨?_, ?_⟩, hevid⟩
      all_goals dsimp only
      all_goals rw [Function.update_self]
      · exact congrArg (LastConnect.typeAfter · args) htype
      · intro v hv
        have hval := Option.some.inj hv
        rw [← htype] at hval
        exact hval

end Update

end Steps

end AdvLigoRts.Seq
