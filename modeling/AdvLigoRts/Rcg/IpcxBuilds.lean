import AdvLigoRts.Rcg.IpcxTheorems
import AdvLigoRts.Lib.Machine
import Mathlib.Data.List.Pairwise
import Mathlib.Data.List.Forall2

/-!
# One slot for each signal

A site has one parameter file for all of its models. `Site.build` is a build of one of them: the
file grows by the new senders, and when the build succeeds its parts use the slots they were given.
A build that meets `Site.Proper` keeps the numbers apart, and the slots of two parts on one network
are the same exactly if their signals are.
-/

namespace AdvLigoRts.Rcg

open PvLib

/-! ## The property -/

/-- Two rows are of one network. The shared memory is one for each host. -/
def IpcxData.SameNet (d d' : IpcxData) : Prop :=
  d.type = d'.type ∧ (d.type = some "ISHME".toList → d.host = d'.host)

/-- The entries of a file are numbered as they should be. -/
structure WellNumbered (data : List IpcxData) : Prop where
  apart : data.Pairwise fun d d' => d.SameNet d' → d.num ≠ d'.num
  valid : ∀ d ∈ data, ∃ num, d.num = some num ∧ num < maxIpc
  once : data.Pairwise fun d d' => ¬(d.name = d'.name ∧ d.type = d'.type ∧ d.host = d'.host)

/-- A part is given what the entry of its own signal says. -/
def Build.Given (b : Build) (data : List IpcxData) (p : IpcxPart) (a : Assigned) : Prop :=
  ∃ d ∈ data, ∃ type, partType b p = .ok type ∧ d.name = partComp p.name ∧ d.type = some type ∧
    (type = "ISHME".toList → d.host = some b.targetHost) ∧
    d.num = some a.num ∧ d.host = some a.host ∧ d.rate = some a.rate

/-- A part that runs: its signal, its network and its slot. -/
structure Use where
  signal : List Char
  type : List Char
  host : List Char
  num : ℕ

def Use.SameNet (u v : Use) : Prop :=
  u.type = v.type ∧ (u.type = "ISHME".toList → u.host = v.host)

def Build.use (b : Build) (p : IpcxPart) (a : Assigned) : Use where
  signal := partComp p.name
  type := (partType b p).toOption.getD []
  host := b.targetHost
  num := a.num

/-- The parameter file of a site, and the parts of the builds that succeeded. -/
structure Site where
  file : List Char
  uses : List Use

def Site.start : Site := ⟨[], []⟩

def Site.build (s : Site) (b : Build) : Site where
  file := (procIpc b s.file).1
  uses :=
    match (procIpc b s.file).2 with
    | .error _ => s.uses
    | .ok assigned => s.uses ++ List.zipWith b.use b.parts assigned

/-- What should hold of a build and after it. The rows of a file are the same for every host. -/
structure Site.Keeps (s : Site) (b : Build) : Prop where
  entries : ∃ data ipcxMaxNum, readParams [] (s.build b).file = .ok (data, ipcxMaxNum) ∧
    WellNumbered data ∧
    ∀ assigned, (procIpc b s.file).2 = .ok assigned →
      List.Forall₂ (b.Given data) b.parts assigned
  slots : ∀ u ∈ (s.build b).uses, ∀ v ∈ (s.build b).uses, u.SameNet v →
    (u.num = v.num ↔ u.signal = v.signal)

/-! ## The condition -/

/-- The parts that get a number: the senders without one, up to a network that is not known. -/
def newSenders (b : Build) : List PartRow → List (IpcxPart × Fin 4)
  | [] => []
  | r :: rs =>
    if r.assigned.isSome ∨ r.part.ground then newSenders b rs
    else
      match newTypeIndex b r.type with
      | none => []
      | some t => (r.part, t) :: newSenders b rs

/-- Nothing is left without a number. -/
def Build.Complete (b : Build) (rows : List PartRow) : Prop :=
  ∀ r ∈ rows, r.assigned.isSome ∨ ¬r.part.ground ∧ (newTypeIndex b r.type).isSome

/-- The new senders can be added: their entries can be read, no two are for one signal on one
network, and no network gets a number that is too large. -/
structure Build.Addable (b : Build) (new : List (IpcxPart × Fin 4)) (ipcxMaxNum : Fin 4 → ℤ) :
    Prop where
  name : ∀ p ∈ new, partComp p.1.name ≠ [] ∧ ∀ c ∈ partComp p.1.name, isNameChar c = true
  host : new ≠ [] → b.targetHost ≠ [] ∧ ∀ c ∈ b.targetHost, isSpace c = false
  model : new ≠ [] → b.skeleton ≠ [] ∧ ∀ c ∈ b.skeleton, isSpace c = false
  once : new.Pairwise fun p q => p.2 = q.2 → partComp p.1.name ≠ partComp q.1.name
  room : ∀ t, ipcxMaxNum t + new.countP (fun p => p.2 = t) < maxIpc

/-- The new senders can be added, and the rate that their parts are given, if the build succeeds,
is the one of their entries. -/
structure Build.Sound (b : Build) (rows : List PartRow) (ipcxMaxNum : Fin 4 → ℤ) : Prop where
  addable : b.Addable (newSenders b rows) ipcxMaxNum
  rate : newSenders b rows ≠ [] → b.Complete rows → b.ipcrate = 0 ∨ b.ipcrate = ipcxRate b

/-- The condition on a build, in the state before it. -/
def Site.Proper (s : Site) (b : Build) : Prop :=
  ∀ rows ipcxMaxNum, lookUp b s.file = .ok (rows, ipcxMaxNum) → b.Sound rows ipcxMaxNum

/-! ## Entries -/

/-- The name of a network in `ipcxParts`. -/
def netName (t : Fin 4) : List Char := 'I' :: (ipcxType t).take 4

theorem netName_injective : Function.Injective netName := by
  unfold Function.Injective
  decide

theorem netName_eq_shmem {t : Fin 4} : netName t = "ISHME".toList ↔ t = 0 := by
  revert t
  decide

variable {e : NewEntry}

theorem NewEntry.sameNet_row {e' : NewEntry} : e.row.SameNet e'.row ↔ e.SameNet e' := by
  have htype : e.row.type = e'.row.type ↔ e.type = e'.type := by
    change some (netName e.type) = some (netName e'.type) ↔ _
    rw [Option.some.injEq, netName_injective.eq_iff]
  have hshmem : e.row.type = some "ISHME".toList ↔ e.type = 0 := by
    change some (netName e.type) = some _ ↔ _
    rw [Option.some.injEq, netName_eq_shmem]
  have hhost : e.row.host = e'.row.host ↔ e.host = e'.host := by
    change some e.host = some e'.host ↔ _
    rw [Option.some.injEq]
  unfold IpcxData.SameNet NewEntry.SameNet
  rw [htype, hshmem, hhost]

/-- On one network, two entries have different numbers and names. -/
def NewEntry.Apart (e e' : NewEntry) : Prop := e.SameNet e' → e.num ≠ e'.num ∧ e.name ≠ e'.name

instance : Std.Symm NewEntry.Apart where
  symm := by
    rintro e e' hapart ⟨htype, hhost⟩
    obtain ⟨hnum, hname⟩ := hapart ⟨htype.symm, fun h => (hhost (htype.trans h)).symm⟩
    exact ⟨hnum.symm, hname.symm⟩

/-- The entries of a file that the builds have kept in order. -/
structure Entries (es : List NewEntry) : Prop where
  readable : ∀ e ∈ es, e.Readable
  apart : es.Pairwise NewEntry.Apart
  valid : ∀ e ∈ es, e.num < maxIpc

theorem Entries.nil : Entries [] where
  readable := nofun
  apart := .nil
  valid := nofun

variable {es : List NewEntry}

theorem Entries.snoc (h : Entries es) (he : e.Readable) (hnum : e.num < maxIpc)
    (hapart : ∀ e' ∈ es, e'.Apart e) : Entries (es ++ [e]) where
  readable x hx := by
    rcases List.mem_append.mp hx with hx | hx
    · exact h.readable x hx
    · rwa [List.mem_singleton.mp hx]
  apart := by
    rw [List.pairwise_append]
    refine ⟨h.apart, List.pairwise_singleton _ _, fun x hx y hy => ?_⟩
    rw [List.mem_singleton.mp hy]
    exact hapart x hx
  valid x hx := by
    rcases List.mem_append.mp hx with hx | hx
    · exact h.valid x hx
    · rwa [List.mem_singleton.mp hx]

theorem Entries.wellNumbered (h : Entries es) : WellNumbered (es.map NewEntry.row) where
  apart := by
    rw [List.pairwise_map]
    refine h.apart.imp fun {e e'} hapart hsame hnum => ?_
    exact (hapart (NewEntry.sameNet_row.mp hsame)).1 (Option.some.inj hnum)
  valid d hd := by
    obtain ⟨e, he, rfl⟩ := List.mem_map.mp hd
    exact ⟨e.num, rfl, h.valid e he⟩
  once := by
    rw [List.pairwise_map]
    refine h.apart.imp ?_
    rintro e e' hapart ⟨hname, htype, hhost⟩
    exact (hapart (NewEntry.sameNet_row.mp ⟨htype, fun _ => hhost⟩)).2 hname

theorem Entries.num_iff (h : Entries es) {e' : NewEntry} (he : e ∈ es) (he' : e' ∈ es)
    (hsame : e.SameNet e') : e.num = e'.num ↔ e.name = e'.name := by
  by_cases heq : e = e'
  · rw [heq]
    exact ⟨fun _ => rfl, fun _ => rfl⟩
  · obtain ⟨hnum, hname⟩ := h.apart.forall he he' heq hsame
    exact ⟨fun heq => absurd heq hnum, fun heq => absurd heq hname⟩

/-! ## The parts -/

variable {type : List Char}

theorem netName_of_newTypeIndex {b : Build} {p : IpcxPart} {t : Fin 4}
    (hp : partType b p = .ok type) (h : newTypeIndex b type = some t) : type = netName t := by
  unfold partType at hp
  unfold newTypeIndex at h
  cases hforce : b.forceShm with
  | true =>
    rw [hforce] at hp h
    cases h
    cases hp
    rfl
  | false =>
    rw [hforce] at hp h
    simp only [Bool.false_eq_true, if_false] at hp h
    have hnet := List.find?_some h
    rw [decide_eq_true_eq] at hnet
    unfold netName
    rw [← hnet]
    split at hp
    case isTrue hrfm =>
      rw [hrfm] at hp
      cases hcard : p.card with
      | none =>
        rw [hcard] at hp
        cases hp
      | some d =>
        rw [hcard] at hp
        cases hp
        rfl
    case isFalse =>
      cases hp
      change _ = 'I' :: ((p.blockTag.drop 8).take 4).take 4
      rw [List.take_take, min_self]

/-- A row of `ipcxParts` after the look-up. -/
structure RowOf (b : Build) (data : List IpcxData) (p : IpcxPart) (r : PartRow) : Prop where
  part : r.part = p
  type : partType b p = .ok r.type
  found : findPart b p r.type data = .ok r.assigned

variable {rows : List PartRow}

theorem findParts_ok {b : Build} {data : List IpcxData} {ps : List IpcxPart}
    {typed : List (IpcxPart × List Char)} (htyped : typedParts b ps = .ok typed)
    (hrows : findParts b data typed = .ok rows) : List.Forall₂ (RowOf b data) ps rows := by
  induction ps generalizing typed rows with
  | nil =>
    cases htyped
    cases hrows
    exact .nil
  | cons p ps ih =>
    obtain ⟨type, htype, htyped⟩ := bind_ok htyped
    obtain ⟨rest, hrest, htyped⟩ := bind_ok htyped
    cases htyped
    obtain ⟨a, ha, hrows⟩ := bind_ok hrows
    obtain ⟨rows', hrows', hrows⟩ := bind_ok hrows
    cases hrows
    exact .cons ⟨rfl, htype, ha⟩ (ih hrest hrows')

theorem lookUp_ok {b : Build} {file : List Char} {ipcxMaxNum : Fin 4 → ℤ}
    (h : lookUp b file = .ok (rows, ipcxMaxNum)) :
    ∃ data, readParams b.targetHost file = .ok (data, ipcxMaxNum) ∧
      List.Forall₂ (RowOf b data) b.parts rows := by
  obtain ⟨typed, htyped, h⟩ := bind_ok h
  obtain ⟨⟨data, m⟩, hread, h⟩ := bind_ok h
  obtain ⟨rows', hfind, h⟩ := bind_ok h
  cases h
  exact ⟨data, hread, findParts_ok htyped hfind⟩

variable {a : Assigned}

theorem checkFound_ok {b : Build} {p : IpcxPart} {d : IpcxData}
    (h : checkFound b p type d = .ok a) :
    d.type = some type ∧ d.host = some a.host ∧ d.num = some a.num ∧ d.rate = some a.rate := by
  unfold checkFound at h
  split at h
  case h_2 => cases h
  case h_1 rate host num model hrate hhost hnum _ =>
    split at h
    case isTrue => cases h
    case isFalse htype =>
      have ha : a = ⟨rate, host, num, model⟩ := by
        split at h
        · cases h
        · split at h
          · cases h
            rfl
          · split at h
            · cases h
            · split at h
              · cases h
              · cases h
                rfl
      rw [ha]
      exact ⟨not_not.mp htype, hhost, hnum, hrate⟩

theorem given_of_findPart {b : Build} {p : IpcxPart} {data : List IpcxData}
    (htype : partType b p = .ok type) (h : findPart b p type data = .ok (some a)) :
    b.Given data p a := by
  induction data with
  | nil =>
    unfold findPart at h
    split at h <;> cases h
  | cons d ds ih =>
    unfold findPart at h
    split at h
    case isTrue =>
      obtain ⟨d', hd', hgiven⟩ := ih h
      exact ⟨d', List.mem_cons_of_mem d hd', hgiven⟩
    case isFalse hname =>
      split at h
      case isTrue =>
        obtain ⟨d', hd', hgiven⟩ := ih h
        exact ⟨d', List.mem_cons_of_mem d hd', hgiven⟩
      case isFalse hhost =>
        obtain ⟨hdtype, hdhost, hdnum, hdrate⟩ : d.type = some type ∧ d.host = some a.host ∧
            d.num = some a.num ∧ d.rate = some a.rate := by
          obtain ⟨a', hcheck, ha'⟩ := map_ok h
          cases ha'
          exact checkFound_ok hcheck
        refine ⟨d, List.mem_cons_self, type, htype, (not_not.mp hname).symm, hdtype, fun hsh => ?_,
          hdnum, hdhost, hdrate⟩
        unfold otherHost at hhost
        rw [decide_eq_true_eq, not_and, not_not, hdhost, Option.getD_some] at hhost
        rw [hdhost, hhost hsh]

theorem otherHost_of_findPart {b : Build} {p : IpcxPart} {data : List IpcxData}
    (h : findPart b p type data = .ok none) :
    ∀ d ∈ data, partComp p.name = d.name → otherHost b.targetHost type d = true := by
  induction data with
  | nil => exact nofun
  | cons d ds ih =>
    unfold findPart at h
    split at h
    case isTrue hname =>
      intro d' hd' hd'name
      rcases List.mem_cons.mp hd' with rfl | hd'
      · exact absurd hd'name hname
      · exact ih h d' hd' hd'name
    case isFalse =>
      split at h
      case isTrue hhost =>
        intro d' hd' hd'name
        rcases List.mem_cons.mp hd' with rfl | hd'
        · exact hhost
        · exact ih h d' hd' hd'name
      case isFalse =>
        obtain ⟨_, _, ha⟩ := map_ok h
        cases ha

/-! ## New senders -/

/-- What a row that had no number is given. -/
def Build.newAssigned (b : Build) (num : ℕ) : Assigned :=
  ⟨ipcxRate b, b.targetHost, num, b.skeleton⟩

/-- What becomes of a row, if the new senders get the entries `es`. -/
def Build.Outcome (b : Build) (es : List NewEntry) (r : PartRow) (a : Option Assigned) : Prop :=
  if r.assigned.isSome ∨ r.part.ground then a = r.assigned
  else ∃ e ∈ es, ∃ t, newTypeIndex b r.type = some t ∧ e = newEntry b r.part t e.num ∧
    a = some (b.newAssigned e.num)

variable {r : PartRow}

theorem Build.Outcome.mono {b : Build} {es' : List NewEntry} {a : Option Assigned}
    (h : b.Outcome es r a) (hsub : ∀ e ∈ es, e ∈ es') : b.Outcome es' r a := by
  unfold Build.Outcome at h ⊢
  by_cases hr : r.assigned.isSome ∨ r.part.ground
  · rwa [if_pos hr] at h ⊢
  · rw [if_neg hr] at h ⊢
    obtain ⟨e, he, hrest⟩ := h
    exact ⟨e, hsub e he, hrest⟩

theorem newEntry_name {b : Build} {p : IpcxPart} {t : Fin 4} {num : ℕ}
    (h : partComp p.name ≠ []) : (newEntry b p t num).name = partComp p.name := (partComp_eq h).1

theorem addSenders_skip {b : Build} (hr : r.assigned.isSome ∨ r.part.ground) (rs : List PartRow)
    (ipcxMaxNum : Fin 4 → ℤ) (file : List Char) :
    addSenders b (r :: rs) ipcxMaxNum file =
      ((addSenders b rs ipcxMaxNum file).1,
        (addSenders b rs ipcxMaxNum file).2.map (r.assigned :: ·)) := by
  rw [addSenders, if_pos hr]

theorem addSenders_new {b : Build} {t : Fin 4} {ipcxMaxNum : Fin 4 → ℤ}
    (hr : ¬(r.assigned.isSome ∨ r.part.ground)) (ht : newTypeIndex b r.type = some t)
    (hnum : ipcxMaxNum t + 1 < maxIpc) (rs : List PartRow) (file : List Char) :
    addSenders b (r :: rs) ipcxMaxNum file =
      let rest := addSenders b rs (Function.update ipcxMaxNum t (ipcxMaxNum t + 1))
        (file ++ (newEntry b r.part t (ipcxMaxNum t + 1).toNat).print)
      (rest.1, rest.2.map (some (b.newAssigned (ipcxMaxNum t + 1).toNat) :: ·)) := by
  have hlimit : ¬ipcxMaxNum t + 1 > ipcLimit t := by
    unfold ipcLimit maxIpcRfm maxIpc at *
    split <;> omega
  rw [addSenders, if_neg hr, ht]
  dsimp only
  rw [if_neg hlimit]
  rfl

section Adding

variable {b : Build} {p : IpcxPart} {t : Fin 4} {new : List (IpcxPart × Fin 4)}
variable {ipcxMaxNum : Fin 4 → ℤ}

/-- The numbers after a new sender. -/
theorem Build.Addable.tail (h : b.Addable ((p, t) :: new) ipcxMaxNum) :
    b.Addable new (Function.update ipcxMaxNum t (ipcxMaxNum t + 1)) where
  name q hq := h.name q (List.mem_cons_of_mem _ hq)
  host _ := h.host (List.cons_ne_nil _ _)
  model _ := h.model (List.cons_ne_nil _ _)
  once := h.once.tail
  room t' := by
    have hroom := h.room t'
    rw [List.countP_cons] at hroom
    by_cases ht : t' = t
    · rw [ht] at hroom ⊢
      simp only [decide_true, if_true, Nat.cast_add, Nat.cast_one] at hroom
      rw [Function.update_self]
      omega
    · rw [Function.update_of_ne ht]
      push_cast at hroom
      split at hroom <;> omega

theorem Build.Addable.readable (h : b.Addable ((p, t) :: new) ipcxMaxNum) (num : ℕ) :
    (newEntry b p t num).Readable := by
  obtain ⟨hne, hchars⟩ := h.name (p, t) List.mem_cons_self
  obtain ⟨hhost, hhostc⟩ := h.host (List.cons_ne_nil _ _)
  obtain ⟨hmodel, hmodelc⟩ := h.model (List.cons_ne_nil _ _)
  have hname : (newEntry b p t num).name = partComp p.name := newEntry_name hne
  refine ⟨?_, ?_, hhost, hhostc, hmodel, hmodelc, b.theTime_line⟩
  · rw [hname]
    exact hchars
  · rw [hname]
    exact (partComp_eq hne).2

/-- There is a number left. -/
theorem Build.Addable.num_lt (h : b.Addable ((p, t) :: new) ipcxMaxNum) :
    ipcxMaxNum t + 1 < maxIpc := by
  have hroom := h.room t
  rw [List.countP_cons] at hroom
  simp only [decide_true, if_true, Nat.cast_add, Nat.cast_one] at hroom
  omega

/-- The next number is above those of the network. -/
theorem newEntry_apart (hp : partComp p.name ≠ []) (hneg : -1 ≤ ipcxMaxNum t)
    (hmax : e.On b.targetHost → (e.num : ℤ) ≤ ipcxMaxNum e.type) (hfresh : b.Fresh (p, t) e) :
    e.Apart (newEntry b p t (ipcxMaxNum t + 1).toNat) := by
  rintro ⟨htype, hhost⟩
  have htype : e.type = t := htype
  have hon : e.On b.targetHost := by
    by_cases hzero : e.type = 0
    · exact .inr (hhost hzero)
    · exact .inl (Fin.pos_iff_ne_zero.mpr hzero)
  have hle := hmax hon
  rw [htype] at hle
  refine ⟨?_, ?_⟩
  · change e.num ≠ (ipcxMaxNum t + 1).toNat
    omega
  · rw [newEntry_name hp]
    exact hfresh htype fun hzero => hhost (htype.trans hzero)

theorem addSenders_entries (hes : Entries es)
    (hmax : ∀ e ∈ es, e.On b.targetHost → (e.num : ℤ) ≤ ipcxMaxNum e.type)
    (hneg : ∀ t, -1 ≤ ipcxMaxNum t) (hfresh : ∀ p ∈ newSenders b rows, ∀ e ∈ es, b.Fresh p e)
    (hadd : b.Addable (newSenders b rows) ipcxMaxNum) :
    ∃ added, (addSenders b rows ipcxMaxNum (printEntries es)).1 = printEntries (es ++ added) ∧
      Entries (es ++ added) ∧
      ∀ assigned, (addSenders b rows ipcxMaxNum (printEntries es)).2 = .ok assigned →
        List.Forall₂ (b.Outcome added) rows assigned := by
  induction rows generalizing es ipcxMaxNum with
  | nil =>
    refine ⟨[], by rw [List.append_nil]; rfl, by rwa [List.append_nil], fun assigned h => ?_⟩
    cases h
    exact .nil
  | cons r rs ih =>
    unfold newSenders at hfresh hadd
    by_cases hr : r.assigned.isSome ∨ r.part.ground
    · -- the row is left as it is
      rw [if_pos hr] at hfresh hadd
      obtain ⟨added, hfile, hentries, hok⟩ := ih hes hmax hneg hfresh hadd
      rw [addSenders_skip hr]
      refine ⟨added, hfile, hentries, fun assigned h => ?_⟩
      obtain ⟨rest, hrest, rfl⟩ := map_ok h
      exact .cons (by rw [Build.Outcome, if_pos hr]) (hok rest hrest)
    · rw [if_neg hr] at hfresh hadd
      cases ht : newTypeIndex b r.type with
      | none =>
        rw [addSenders, if_neg hr, ht]
        refine ⟨[], by rw [List.append_nil], by rwa [List.append_nil], fun assigned h => ?_⟩
        cases h
      | some t =>
        -- the row gets the next number, and an entry
        rw [ht] at hfresh hadd
        have hnum := hadd.num_lt
        have hp := (hadd.name _ List.mem_cons_self).1
        obtain ⟨e, he⟩ : ∃ e, e = newEntry b r.part t (ipcxMaxNum t + 1).toNat := ⟨_, rfl⟩
        have hes' : Entries (es ++ [e]) := by
          refine hes.snoc (he ▸ hadd.readable _) ?_ fun e' he' => ?_
          · have hle := hneg t
            rw [he]
            change (ipcxMaxNum t + 1).toNat < maxIpc
            omega
          · rw [he]
            exact newEntry_apart hp (hneg t) (hmax e' he') (hfresh _ List.mem_cons_self e' he')
        have hetype : e.type = t := by rw [he]; rfl
        have henum : e.num = (ipcxMaxNum t + 1).toNat := by rw [he]; rfl
        have hmax' : ∀ e' ∈ es ++ [e], e'.On b.targetHost →
            (e'.num : ℤ) ≤ Function.update ipcxMaxNum t (ipcxMaxNum t + 1) e'.type := by
          intro e' he' hon
          rcases List.mem_append.mp he' with he' | he'
          · have hle := hmax e' he' hon
            by_cases htype : e'.type = t
            · rw [htype] at hle ⊢
              rw [Function.update_self]
              omega
            · rwa [Function.update_of_ne htype]
          · have hle := hneg t
            rw [List.mem_singleton.mp he', hetype, Function.update_self, henum]
            omega
        have hneg' : ∀ t', -1 ≤ Function.update ipcxMaxNum t (ipcxMaxNum t + 1) t' := by
          intro t'
          have hle := hneg t
          by_cases htype : t' = t
          · rw [htype, Function.update_self]
            omega
          · rw [Function.update_of_ne htype]
            exact hneg t'
        have hfresh' : ∀ q ∈ newSenders b rs, ∀ e' ∈ es ++ [e], b.Fresh q e' := by
          intro q hq e' he'
          rcases List.mem_append.mp he' with he' | he'
          · exact hfresh q (List.mem_cons_of_mem _ hq) e' he'
          · rw [List.mem_singleton.mp he']
            intro htype _
            rw [he, newEntry_name hp]
            exact (List.pairwise_cons.mp hadd.once).1 q hq (hetype.symm.trans htype)
        obtain ⟨added, hfile, hentries, hok⟩ := ih hes' hmax' hneg' hfresh' hadd.tail
        have hprint : printEntries es ++ e.print = printEntries (es ++ [e]) := by
          rw [printEntries_append]
          exact congrArg (printEntries es ++ ·) (List.append_nil e.print).symm
        have hcons : es ++ e :: added = es ++ [e] ++ added := List.append_cons es e added
        rw [addSenders_new hr ht hnum, ← he, hprint]
        refine ⟨e :: added, ?_, ?_, fun assigned h => ?_⟩
        · rw [hcons]
          exact hfile
        · rwa [hcons]
        · obtain ⟨rest, hrest, rfl⟩ := map_ok h
          refine .cons ?_ ((hok rest hrest).imp fun _ _ hout => hout.mono fun x hx =>
            List.mem_cons_of_mem e hx)
          rw [Build.Outcome, if_neg hr]
          exact ⟨e, List.mem_cons_self, t, ht, by rw [henum]; exact he, by rw [henum]⟩

end Adding

/-! ## Lists side by side -/

theorem forall₂_left {α β : Type} {R : α → β → Prop} {as : List α} {bs : List β}
    (h : List.Forall₂ R as bs) : ∀ a ∈ as, ∃ b ∈ bs, R a b := by
  induction h with
  | nil => exact nofun
  | cons hab _ ih =>
    intro a ha
    rcases List.mem_cons.mp ha with rfl | ha
    · exact ⟨_, List.mem_cons_self, hab⟩
    · obtain ⟨b, hb, hR⟩ := ih a ha
      exact ⟨b, List.mem_cons_of_mem _ hb, hR⟩

theorem forall₂_comp {α β γ : Type} {R : α → β → Prop} {S : β → γ → Prop} {T : α → γ → Prop}
    {as : List α} {bs : List β} {cs : List γ} (hR : List.Forall₂ R as bs)
    (hS : List.Forall₂ S bs cs) (hT : ∀ a c, ∀ b ∈ bs, R a b → S b c → T a c) :
    List.Forall₂ T as cs := by
  induction hR generalizing cs with
  | nil =>
    cases hS
    exact .nil
  | cons hab _ ih =>
    cases hS with
    | cons hbc hrest =>
      exact .cons (hT _ _ _ List.mem_cons_self hab hbc)
        (ih hrest fun a c b hb => hT a c b (List.mem_cons_of_mem _ hb))

/-! ## A build -/

theorem mem_newSenders {b : Build} {p : IpcxPart × Fin 4} (h : p ∈ newSenders b rows) :
    ∃ r ∈ rows, r.assigned = none ∧ p.1 = r.part ∧
      newTypeIndex b r.type = some p.2 := by
  induction rows with
  | nil => cases h
  | cons r rs ih =>
    unfold newSenders at h
    split at h
    case isTrue =>
      obtain ⟨r', hr', hrest⟩ := ih h
      exact ⟨r', List.mem_cons_of_mem r hr', hrest⟩
    case isFalse hr =>
      cases ht : newTypeIndex b r.type with
      | none => simp [ht] at h
      | some t =>
        rw [ht] at h
        rcases List.mem_cons.mp h with rfl | h
        · have hnone : r.assigned = none := by simpa using not_or.mp hr |>.1
          exact ⟨r, List.mem_cons_self, hnone, rfl, ht⟩
        · obtain ⟨r', hr', hrest⟩ := ih h
          exact ⟨r', List.mem_cons_of_mem r hr', hrest⟩

/-- If nothing is left without a number, a row that had none is a new sender. -/
theorem mem_newSenders_of_complete {b : Build} (h : b.Complete rows) (hr : r ∈ rows)
    (hnew : ¬(r.assigned.isSome ∨ r.part.ground)) {t : Fin 4}
    (ht : newTypeIndex b r.type = some t) : (r.part, t) ∈ newSenders b rows := by
  induction rows with
  | nil => cases hr
  | cons r' rs ih =>
    have htail := fun hr => ih (fun x hx => h x (List.mem_cons_of_mem r' hx)) hr
    unfold newSenders
    split
    case isTrue hr' =>
      rcases List.mem_cons.mp hr with rfl | hr
      · exact absurd hr' hnew
      · exact htail hr
    case isFalse hr' =>
      obtain ⟨-, hsome⟩ := (h r' List.mem_cons_self).resolve_left fun hs => hr' (.inl hs)
      obtain ⟨t', ht'⟩ := Option.isSome_iff_exists.mp hsome
      rw [ht']
      rcases List.mem_cons.mp hr with rfl | hr
      · rw [ht] at ht'
        cases ht'
        exact List.mem_cons_self
      · exact List.mem_cons_of_mem _ (htail hr)

theorem checkReceivers_ok {xs : List (Option Assigned)} {assigned : List Assigned}
    (h : checkReceivers xs = .ok assigned) : xs = assigned.map some := by
  induction xs generalizing assigned with
  | nil =>
    cases h
    rfl
  | cons x xs ih =>
    cases x with
    | none => cases h
    | some a =>
      obtain ⟨rest, hrest, rfl⟩ := map_ok h
      rw [ih hrest, List.map_cons]

/-- The entry is that of a part of the build. -/
structure Build.GivenBy (b : Build) (e : NewEntry) (p : IpcxPart) (a : Assigned) : Prop where
  type : partType b p = .ok (netName e.type)
  name : e.name = partComp p.name
  site : e.type = 0 → e.host = b.targetHost
  num : e.num = a.num
  host : e.host = a.host
  rate : e.rate = a.rate

theorem Build.GivenBy.given {b : Build} {p : IpcxPart} (h : b.GivenBy e p a) (he : e ∈ es) :
    b.Given (es.map NewEntry.row) p a := by
  refine ⟨e.row, List.mem_map_of_mem he, netName e.type, h.type, h.name, rfl, fun hshmem => ?_,
    congrArg some h.num, congrArg some h.host, congrArg some h.rate⟩
  exact congrArg some (h.site (netName_eq_shmem.mp hshmem))

theorem Build.Given.givenBy {b : Build} {p : IpcxPart} (h : b.Given (es.map NewEntry.row) p a) :
    ∃ e ∈ es, b.GivenBy e p a := by
  obtain ⟨d, hd, type, htype, hname, hdtype, hsite, hnum, hhost, hrate⟩ := h
  obtain ⟨e, he, rfl⟩ := List.mem_map.mp hd
  have htypee : netName e.type = type := Option.some.inj hdtype
  refine ⟨e, he, ?_, hname, fun hzero => ?_, Option.some.inj hnum, Option.some.inj hhost,
    Option.some.inj hrate⟩
  · rw [htypee]
    exact htype
  · exact Option.some.inj (hsite (htypee.symm.trans (netName_eq_shmem.mpr hzero)))

theorem givenBy_of_outcome {b : Build} {added : List NewEntry} {p : IpcxPart}
    (hrow : RowOf b (es.map NewEntry.row) p r) (hout : b.Outcome added r (some a))
    (hname : ¬(r.assigned.isSome ∨ r.part.ground) → partComp p.name ≠ [])
    (hrate : ¬(r.assigned.isSome ∨ r.part.ground) → b.ipcrate = 0 ∨ b.ipcrate = ipcxRate b) :
    ∃ e ∈ es ++ added, b.GivenBy e p a := by
  obtain ⟨rfl, htype, hfound⟩ := hrow
  unfold Build.Outcome at hout
  by_cases hr : r.assigned.isSome ∨ r.part.ground
  · rw [if_pos hr] at hout
    rw [← hout] at hfound
    obtain ⟨e, he, hgiven⟩ := (given_of_findPart htype hfound).givenBy
    exact ⟨e, List.mem_append_left added he, hgiven⟩
  · rw [if_neg hr] at hout
    obtain ⟨e, he, t, ht, hentry, ha⟩ := hout
    cases ha
    refine ⟨e, List.mem_append_right es he, ?_⟩
    rw [netName_of_newTypeIndex htype ht] at htype
    rw [hentry]
    refine ⟨htype, newEntry_name (hname hr), fun _ => rfl, rfl, rfl, ?_⟩
    change (if b.ipcrate > 0 then b.ipcrate else ipcxRate b) = ipcxRate b
    split
    · rcases hrate hr with hzero | hsame
      · omega
      · exact hsame
    · rfl

theorem procIpc_entries {b : Build} (hes : Entries es)
    (hsound : ∀ rows ipcxMaxNum, lookUp b (printEntries es) = .ok (rows, ipcxMaxNum) → b.Sound
    rows ipcxMaxNum) :
    ∃ es', (procIpc b (printEntries es)).1 = printEntries es' ∧ Entries es' ∧
      (∀ e ∈ es, e ∈ es') ∧
      ∀ assigned, (procIpc b (printEntries es)).2 = .ok assigned →
        List.Forall₂ (fun p a => ∃ e ∈ es', b.GivenBy e p a) b.parts assigned := by
  unfold procIpc
  split
  case isTrue hparts =>
    refine ⟨es, rfl, hes, fun _ he => he, fun assigned h => ?_⟩
    cases h
    rw [List.isEmpty_iff.mp hparts]
    exact .nil
  case isFalse =>
    cases hlook : lookUp b (printEntries es) with
    | error =>
      refine ⟨es, rfl, hes, fun _ he => he, fun assigned h => ?_⟩
      cases h
    | ok found =>
      obtain ⟨rows, ipcxMaxNum⟩ := found
      obtain ⟨haddable, hrate⟩ := hsound rows ipcxMaxNum hlook
      obtain ⟨data, hread, hrows⟩ := lookUp_ok hlook
      rw [readParams_printEntries hes.readable] at hread
      cases hread
      have hfresh : ∀ p ∈ newSenders b rows, ∀ e ∈ es, b.Fresh p e := by
        intro q hq e he htype hsite hname
        obtain ⟨r, hr, hnone, hpart, ht⟩ := mem_newSenders hq
        have hback : List.Forall₂ (fun r p => RowOf b (es.map NewEntry.row) p r) rows b.parts :=
          hrows.flip
        obtain ⟨p, -, hrow⟩ := forall₂_left hback r hr
        have hfound := hrow.found
        rw [hnone] at hfound
        have hother := otherHost_of_findPart hfound e.row (List.mem_map_of_mem he)
          (by rw [← hrow.part, ← hpart]; exact hname.symm)
        unfold otherHost at hother
        rw [decide_eq_true_eq, netName_of_newTypeIndex hrow.type ht, netName_eq_shmem] at hother
        exact hother.2 (hsite hother.1)
      obtain ⟨added, hfile, hentries, hok⟩ := addSenders_entries hes
        (fun e he hon => num_le_maxNum he hon) (neg_one_le_maxNum es) hfresh haddable
      rcases hadd : addSenders b rows (maxNum b.targetHost es) (printEntries es) with ⟨file, result⟩
      rw [hadd] at hfile hok
      dsimp only at hfile hok ⊢
      rw [hadd]
      cases result with
      | error =>
        refine ⟨es ++ added, hfile, hentries, fun e he => List.mem_append_left added he,
          fun assigned h => ?_⟩
        cases h
      | ok xs =>
        refine ⟨es ++ added, hfile, hentries, fun e he => List.mem_append_left added he,
          fun assigned h => ?_⟩
        have hxs := checkReceivers_ok h
        have hout : List.Forall₂ (fun r a => b.Outcome added r (some a)) rows assigned := by
          rw [← List.forall₂_map_right_iff, ← hxs]
          exact hok xs rfl
        have hcomplete : b.Complete rows := by
          intro r hr
          obtain ⟨a, -, hra⟩ := forall₂_left hout r hr
          unfold Build.Outcome at hra
          split at hra
          case isTrue => exact .inl (by rw [← hra]; rfl)
          case isFalse hnew =>
            obtain ⟨e, -, t, ht, -⟩ := hra
            exact .inr ⟨fun hg => hnew (.inr hg), by rw [ht]; rfl⟩
        refine forall₂_comp hrows hout fun p a r hr hrow hra => ?_
        have hnew : ¬(r.assigned.isSome ∨ r.part.ground) →
            ∃ t, (r.part, t) ∈ newSenders b rows := by
          intro hn
          obtain ⟨-, hsome⟩ := (hcomplete r hr).resolve_left fun hs => hn (.inl hs)
          obtain ⟨t, ht⟩ := Option.isSome_iff_exists.mp hsome
          exact ⟨t, mem_newSenders_of_complete hcomplete hr hn ht⟩
        refine givenBy_of_outcome hrow hra (fun hn => ?_) fun hn => ?_
        · obtain ⟨t, hmem⟩ := hnew hn
          rw [← hrow.part]
          exact (haddable.name _ hmem).1
        · obtain ⟨t, hmem⟩ := hnew hn
          exact hrate (List.ne_nil_of_mem hmem) hcomplete

/-! ## Histories of builds -/

/-- A part that runs has the slot of an entry. -/
structure Use.Of (u : Use) (e : NewEntry) : Prop where
  signal : u.signal = e.name
  type : u.type = netName e.type
  host : e.type = 0 → u.host = e.host
  num : u.num = e.num

theorem Build.GivenBy.use {b : Build} {p : IpcxPart} (h : b.GivenBy e p a) : (b.use p a).Of e where
  signal := h.name.symm
  type := by
    unfold Build.use
    rw [h.type]
    rfl
  host hzero := (h.site hzero).symm
  num := h.num.symm

/-- The file has the entries, and every part that runs has a slot of one of them. -/
structure Site.Inv (s : Site) (es : List NewEntry) : Prop where
  file : s.file = printEntries es
  entries : Entries es
  uses : ∀ u ∈ s.uses, ∃ e ∈ es, u.Of e

theorem Site.Inv.slots {s : Site} (h : s.Inv es) :
    ∀ u ∈ s.uses, ∀ v ∈ s.uses, u.SameNet v → (u.num = v.num ↔ u.signal = v.signal) := by
  rintro u hu v hv ⟨htype, hhost⟩
  obtain ⟨e, he, hue⟩ := h.uses u hu
  obtain ⟨e', he', hve⟩ := h.uses v hv
  rw [hue.num, hve.num, hue.signal, hve.signal]
  have hsame : e.type = e'.type := netName_injective (by rw [← hue.type, ← hve.type, htype])
  refine h.entries.num_iff he he' ⟨hsame, fun hzero => ?_⟩
  rw [← hue.host hzero, ← hve.host (hsame.symm.trans hzero)]
  exact hhost (hue.type.trans (netName_eq_shmem.mpr hzero))

theorem Site.Inv.build {s : Site} {b : Build} (h : s.Inv es) (hproper : s.Proper b) :
    s.Keeps b ∧ ∃ es', (s.build b).Inv es' := by
  unfold Site.Proper at hproper
  rw [h.file] at hproper
  obtain ⟨es', hfile, hentries, hsub, hgiven⟩ := procIpc_entries h.entries hproper
  rw [← h.file] at hfile hgiven
  have huses : ∀ u ∈ (s.build b).uses, ∃ e ∈ es', u.Of e := by
    intro u hu
    have hold : u ∈ s.uses → ∃ e ∈ es', u.Of e := fun hu =>
      (h.uses u hu).imp fun e he => ⟨hsub e he.1, he.2⟩
    unfold Site.build at hu
    dsimp only at hu
    split at hu
    case h_1 => exact hold hu
    case h_2 assigned hresult =>
      rcases List.mem_append.mp hu with hu | hu
      · exact hold hu
      · -- the part is one of this build
        rw [← List.map_uncurry_zip_eq_zipWith] at hu
        obtain ⟨⟨p, a⟩, hpa, rfl⟩ := List.mem_map.mp hu
        obtain ⟨e, he, hby⟩ := List.forall₂_zip (hgiven assigned hresult) hpa
        exact ⟨e, he, hby.use⟩
  have hinv : (s.build b).Inv es' := ⟨hfile, hentries, huses⟩
  refine ⟨⟨⟨es'.map NewEntry.row, maxNum [] es', ?_, hentries.wellNumbered, fun assigned hok => ?_⟩,
    hinv.slots⟩, es', hinv⟩
  · rw [hinv.file]
    exact readParams_printEntries hentries.readable []
  · refine (hgiven assigned hok).imp ?_
    rintro p a ⟨e, he, hby⟩
    exact hby.given he

/-- In a history of builds that meet the condition, from an empty file, the entries are numbered as
they should be after every build, the parts of a build that succeeds are given what their entries
say, and two parts of one network have one slot exactly if their signals are the same. -/
theorem ipc_numbers_kept {builds : List Build}
    (h : StepsMeet Site.build Site.Proper .start builds) :
    StepsMeet Site.build Site.Keeps .start builds := by
  refine stepsMeet_imp (fun s => ∃ es, s.Inv es) ?_ ⟨[], rfl, .nil, nofun⟩ h
  rintro s b ⟨es, hinv⟩ hproper
  exact hinv.build hproper

/-! ## Two histories -/

/-- A part of the shared memory, with the name of a block in a subsystem. -/
def shmemPart (name : String) (ground : Bool) : IpcxPart where
  name := name.toList
  blockTag := "cdsIPCx_SHMEM".toList
  card := none
  ground := ground
  inCnt := 1
  outCnt := if ground then 2 else 0

def smallBuild (model : String) (parts : List IpcxPart) : Build where
  parts := parts
  targetHost := "x1lsc0".toList
  skeleton := model.toList
  rate := 60
  ipcrate := 0
  forceShm := false
  theTime := "2020_Jun_01_12:00:00".toList
  theTime_line := by decide

/-- A model that sends, and one that receives. -/
theorem ipc_numbers_kept_send_receive :
    StepsMeet Site.build Site.Keeps .start
      [smallBuild "x1lsc" [shmemPart "LSC_X1:LSC-DARM" false],
        smallBuild "x1sus" [shmemPart "SUS_X1:LSC-DARM" true]] := by
  refine ipc_numbers_kept ⟨?_, ?_, trivial⟩
  · intro rows ipcxMaxNum h
    cases h
    have hhost : "x1lsc0".toList.any isSpace = false := by decide
    have hmodel : "x1lsc".toList.any isSpace = false := by decide
    refine ⟨⟨?_, fun _ => ⟨nofun, ?_⟩, fun _ => ⟨nofun, ?_⟩, ?_, ?_⟩, ?_⟩
    · intro p hp
      cases List.mem_singleton.mp hp
      exact ⟨by decide, List.all_eq_true.mp (by decide)⟩
    · exact isSpace_of_any hhost
    · exact isSpace_of_any hmodel
    · exact List.pairwise_singleton _ _
    · decide
    · exact fun _ _ => .inl rfl
  · intro rows ipcxMaxNum h
    cases h
    refine ⟨⟨?_, ?_, ?_, ?_, ?_⟩, ?_⟩
    · decide +kernel
    · decide +kernel
    · decide +kernel
    · decide +kernel
    · decide +kernel
    · exact fun _ _ => .inl rfl

/-- One signal that two subsystems send: each gets an entry and a number. -/
theorem two_senders_two_numbers :
    ¬StepsMeet Site.build Site.Keeps .start
      [smallBuild "x1lsc" [shmemPart "LSC_X1:LSC-DARM" false,
        shmemPart "ASC_X1:LSC-DARM" false]] := by
  rintro ⟨⟨⟨data, ipcxMaxNum, hread, hdata, -⟩, -⟩, -⟩
  have hrows : data.map (fun d => (d.name, d.type, d.host)) =
      List.replicate 2 ("X1:LSC-DARM".toList, some "ISHME".toList, some "x1lsc0".toList) := by
    cases hread
    decide +kernel
  have honce : (data.map fun d => (d.name, d.type, d.host)).Pairwise (· ≠ ·) := by
    rw [List.pairwise_map]
    refine hdata.once.imp fun hne heq => ?_
    rw [Prod.mk.injEq, Prod.mk.injEq] at heq
    exact hne heq
  rw [hrows] at honce
  exact absurd honce (by decide)

end AdvLigoRts.Rcg
