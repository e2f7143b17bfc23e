import AdvLigoRts.Fe.CommData3
import AdvLigoRts.Lib.Lap
import AdvLigoRts.Lib.Machine
import Mathlib.Data.List.Induction
import Mathlib.Tactic.IntervalCases
import Mathlib.Tactic.Ring

/-!
# The hand-over of a value

The sender stamps what it writes with the instant for which it is meant, and goes round the ring of
blocks with the clock.
-/

namespace AdvLigoRts.Fe

open PvLib

variable {K : Type}

/-! ## Instants -/

/-- The sync word of an instant of the clock. -/
def syncAt (t : ℕ) : ℕ := syncWord (t / ipcMaxRate) (t % ipcMaxRate)

theorem syncAt_inj {t u : ℕ} (ht : t / ipcMaxRate < 2 ^ 31) (hu : u / ipcMaxRate < 2 ^ 31)
    (h : syncAt t = syncAt u) : t = u := by
  unfold syncAt syncWord ipcMaxRate at h
  unfold ipcMaxRate at ht hu
  omega

/-- The rates of models. -/
def IsRate (rate : ℕ) : Prop := ∃ e, 11 ≤ e ∧ e ≤ 16 ∧ rate = 2 ^ e

/-- What the rates have in common: a cycle is a number of ticks that divides 32. -/
structure Period (p r : ℕ) : Prop where
  eq : p * r = ipcMaxRate
  pos : 0 < p
  dvd : p ∣ 32

theorem IsRate.period {rate : ℕ} (h : IsRate rate) : Period (ipcMaxRate / rate) rate := by
  obtain ⟨e, hlow, hhigh, rfl⟩ := h
  interval_cases e <;> exact ⟨by decide, by decide, by decide⟩

namespace Period

variable {p r clock : ℕ}

theorem le (h : Period p r) : p ≤ 32 := Nat.le_of_dvd (by decide) h.dvd

/-- The slowest rate has the longest cycle. -/
theorem le_of_ne (h : Period p r) (hr : r ≠ 2048) : p ≤ 16 := by
  obtain ⟨q, hq⟩ := h.dvd
  have hne : q ≠ 1 := by
    rintro rfl
    have hp : p = 32 := by omega
    have heq := h.eq
    rw [hp] at heq
    unfold ipcMaxRate at heq
    omega
  have hzero : q ≠ 0 := by
    rintro rfl
    omega
  have htwo : p * 2 ≤ p * q := Nat.mul_le_mul_left p (by omega)
  omega

theorem cycle_lt (h : Period p r) (clock : ℕ) : clock % ipcMaxRate / p < r := by
  rw [Nat.div_lt_iff_lt_mul h.pos, Nat.mul_comm, h.eq]
  exact Nat.mod_lt _ (by decide)

theorem mul_le (h : Period p r) {m : ℕ} (hm : m ≤ r) : m * p ≤ ipcMaxRate :=
  calc m * p ≤ r * p := Nat.mul_le_mul_right p hm
    _ = ipcMaxRate := by rw [Nat.mul_comm, h.eq]

/-- The number of the cycle since the origin of the clock. -/
theorem div_eq (h : Period p r) (clock : ℕ) :
    clock / p = clock / ipcMaxRate * r + clock % ipcMaxRate / p := by
  have hsplit : clock = clock % ipcMaxRate + p * (clock / ipcMaxRate * r) := by
    calc clock = clock % ipcMaxRate + ipcMaxRate * (clock / ipcMaxRate) :=
          (Nat.mod_add_div clock ipcMaxRate).symm
      _ = clock % ipcMaxRate + p * (clock / ipcMaxRate * r) := by
          rw [← h.eq]
          ring
  conv_lhs => rw [hsplit]
  rw [Nat.add_mul_div_left _ _ h.pos, Nat.add_comm]

/-- The instant of cycle `m` behind that of the clock, counted from the start of the second. -/
theorem instant_eq (h : Period p r) (clock m : ℕ) :
    (clock / p + m) * p =
      clock / ipcMaxRate * ipcMaxRate + (clock % ipcMaxRate / p + m) * p := by
  rw [h.div_eq, ← h.eq]
  ring

end Period

/-- The block and the word of the instant `x` behind the start of a second; `sec'` is its second. -/
theorem point_eq {x sec sec' : ℕ} (hsec : sec' = (sec * ipcMaxRate + x) / ipcMaxRate) :
    (x % ipcBlocks, syncWord sec' (x % ipcMaxRate)) =
      ((sec * ipcMaxRate + x) % ipcBlocks, syncAt (sec * ipcMaxRate + x)) := by
  unfold syncAt
  rw [hsec]
  unfold ipcMaxRate ipcBlocks
  have hblock : x % 64 = (sec * 65536 + x) % 64 := by omega
  have hcycle : x % 65536 = (sec * 65536 + x) % 65536 := by omega
  rw [hblock, hcycle]

/-- The block and the word of a call without delay are those of the end of its cycle. -/
theorem sendPoint_eq {p r : ℕ} (h : Period p r) (hp : ipcMaxRate / r = p) (clock : ℕ) :
    sendPoint r p (clock / ipcMaxRate) (clock % ipcMaxRate / p) =
      ((clock / p + 1) * p % ipcBlocks, syncAt ((clock / p + 1) * p)) := by
  have hle := h.mul_le (h.cycle_lt clock)
  have hpos : 0 < (clock % ipcMaxRate / p + 1) * p := Nat.mul_pos (Nat.succ_pos _) h.pos
  rw [h.instant_eq]
  unfold sendPoint
  rw [hp]
  apply point_eq
  rw [Nat.succ_eq_add_one] at hle
  generalize (clock % ipcMaxRate / p + 1) * p = x at hle hpos ⊢
  unfold ipcMaxRate at *
  split <;> omega

/-- With the delay they are those of the end of the next cycle. -/
theorem sendPointDelayed_eq {p r : ℕ} (h : Period p r) (hp : ipcMaxRate / r = p) (clock : ℕ) :
    sendPointDelayed r p (clock / ipcMaxRate) (clock % ipcMaxRate / p) =
      ((clock / p + 2) * p % ipcBlocks, syncAt ((clock / p + 2) * p)) := by
  have hlt := h.cycle_lt clock
  have hone : p < (clock % ipcMaxRate / p + 1 + 1) * p := by
    have hpos : 0 < (clock % ipcMaxRate / p + 1) * p := Nat.mul_pos (Nat.succ_pos _) h.pos
    rw [Nat.add_mul, Nat.one_mul]
    omega
  -- the next cycle is in the same second, or it is the first of the next one
  have hcases : (clock % ipcMaxRate / p + 1 + 1) * p ≤ ipcMaxRate ∨
      (clock % ipcMaxRate / p + 1 + 1) * p = ipcMaxRate + p := by
    rcases Nat.lt_or_eq_of_le (Nat.succ_le_of_lt hlt) with hmore | hlast
    · exact Or.inl (h.mul_le hmore)
    · right
      rw [← Nat.succ_eq_add_one (clock % ipcMaxRate / p), hlast, Nat.add_mul, Nat.one_mul,
        Nat.mul_comm, h.eq]
  have hp32 := h.le
  rw [h.instant_eq]
  unfold sendPointDelayed
  rw [hp]
  apply point_eq
  generalize (clock % ipcMaxRate / p + 1 + 1) * p = x at hone hcases ⊢
  unfold ipcMaxRate at *
  split <;> omega

/-! ## Sends -/

section Send

variable {connects : ℕ} {ipcInfo : Fin connects → IpcInfo K} {a : Fin connects}
variable {net : NetType} {num : ℕ}

/-- Connection `a` is the only one that writes the cells of its number. -/
structure WritesAlone (ipcInfo : Fin connects → IpcInfo K) (a : Fin connects) (net : NetType)
    (num : ℕ) : Prop where
  mode : (ipcInfo a).mode = .snd
  netType : (ipcInfo a).netType = net
  ipcNum : (ipcInfo a).ipcNum = num
  pointer : (ipcInfo a).pIpcDataWrite = some net
  others : ∀ i, i ≠ a → (ipcInfo i).pIpcDataWrite = some net → (ipcInfo i).ipcNum ≠ num

/-- What one pass of a loop writes to the cells of a connection. -/
theorem sendStep_apply (h : WritesAlone ipcInfo a net num) (nets : NetType → Bool)
    (point : ℕ × ℕ) (mem : IpcMem K) (block : ℕ) (ii : Fin connects) :
    (if (ipcInfo ii).mode = .snd ∧ nets (ipcInfo ii).netType then sendInfo point mem (ipcInfo ii)
      else mem) net block num =
      if ii = a ∧ nets net = true ∧ block = point.1 then ⟨(ipcInfo a).data, point.2⟩
      else mem net block num := by
  by_cases hii : ii = a
  · subst hii
    simp only [h.mode, h.netType, true_and]
    by_cases hnet : nets net = true
    · simp [sendInfo, h.pointer, IpcMem.put, hnet, h.ipcNum]
    · simp [hnet]
  · have hother : ¬(ii = a ∧ nets net = true ∧ block = point.1) := fun hand => hii hand.1
    rw [if_neg hother]
    split
    case isFalse => rfl
    case isTrue =>
      cases hptr : (ipcInfo ii).pIpcDataWrite with
      | none => simp only [sendInfo, hptr]
      | some net' =>
        simp only [sendInfo, hptr]
        rw [IpcMem.put, if_neg]
        rintro ⟨hn, -, hnum⟩
        exact h.others ii hii (hn ▸ hptr) hnum.symm

theorem sendNets_apply (h : WritesAlone ipcInfo a net num) (nets : NetType → Bool)
    (point : ℕ × ℕ) (mem : IpcMem K) (block : ℕ) :
    sendNets nets point ipcInfo mem net block num =
      if nets net = true ∧ block = point.1 then ⟨(ipcInfo a).data, point.2⟩
      else mem net block num := by
  suffices hgen : ∀ (l : List (Fin connects)) (mem : IpcMem K),
      l.foldl (fun mem ii =>
        if (ipcInfo ii).mode = .snd ∧ nets (ipcInfo ii).netType then
          sendInfo point mem (ipcInfo ii)
        else mem) mem net block num =
      if a ∈ l ∧ nets net = true ∧ block = point.1 then ⟨(ipcInfo a).data, point.2⟩
      else mem net block num by
    rw [sendNets, hgen]
    simp [List.mem_finRange]
  intro l
  induction l with
  | nil => simp
  | cons ii l ih =>
    intro mem
    rw [List.foldl_cons, ih, sendStep_apply h]
    by_cases hmem : a ∈ l
    · by_cases hpoint : nets net = true ∧ block = point.1 <;> simp [hmem, hpoint]
    · by_cases hii : ii = a
      · simp [hmem, hii]
      · simp [hmem, hii, Ne.symm hii]

theorem commData3Send_apply (h : WritesAlone ipcInfo a net num) (rfmDelay : Bool)
    (ipcRate timeSec cycle : ℕ) (mem : IpcMem K) (block : ℕ) :
    commData3Send rfmDelay ipcRate ipcInfo timeSec cycle mem net block num =
      let sendCycle := firstSendCycle ipcInfo
      let point :=
        if rfmDelay = true ∧ net.isRfm = true then
          sendPointDelayed ipcRate sendCycle timeSec cycle
        else sendPoint ipcRate sendCycle timeSec cycle
      if block = point.1 then ⟨(ipcInfo a).data, point.2⟩ else mem net block num := by
  unfold commData3Send
  dsimp only
  rw [sendNets_apply h, sendNets_apply h]
  by_cases hrfm : net.isRfm = true <;> by_cases hdelay : rfmDelay = true <;> simp [hrfm, hdelay]

end Send

/-! ## What stays of the connections -/

namespace IpcLink

section Connections

variable {L : IpcLink K}

/-- The parts of a connection that only `commData3Init` sets. -/
structure SameConnection (i j : IpcInfo K) : Prop where
  netType : i.netType = j.netType
  sendCycle : i.sendCycle = j.sendCycle
  rcvCycle : i.rcvCycle = j.rcvCycle
  ipcNum : i.ipcNum = j.ipcNum
  mode : i.mode = j.mode
  pIpcDataRead : i.pIpcDataRead = j.pIpcDataRead
  pIpcDataWrite : i.pIpcDataWrite = j.pIpcDataWrite

theorem SameConnection.refl (i : IpcInfo K) : SameConnection i i :=
  ⟨rfl, rfl, rfl, rfl, rfl, rfl, rfl⟩

theorem SameConnection.trans {i j k : IpcInfo K} (h : SameConnection i j)
    (h' : SameConnection j k) : SameConnection i k :=
  ⟨h.1.trans h'.1, h.2.trans h'.2, h.3.trans h'.3, h.4.trans h'.4, h.5.trans h'.5,
    h.6.trans h'.6, h.7.trans h'.7⟩

theorem receiveInfo_same (m : IpcMem K) (rcvBlock timeSec cycle : ℕ) (info : IpcInfo K) :
    SameConnection (receiveInfo m rcvBlock timeSec cycle info) info := by
  unfold receiveInfo
  split
  case isFalse => exact .refl _
  case isTrue =>
    split
    · dsimp only
      split <;> exact ⟨rfl, rfl, rfl, rfl, rfl, rfl, rfl⟩
    · exact ⟨rfl, rfl, rfl, rfl, rfl, rfl, rfl⟩

theorem reportInfo_same (info : IpcInfo K) : SameConnection (reportInfo info) info := by
  unfold reportInfo
  split <;> exact ⟨rfl, rfl, rfl, rfl, rfl, rfl, rfl⟩

theorem step_snd_same (s : IpcState L) (ev : IpcEvent K) (ii : Fin L.sndConnects) :
    SameConnection ((L.step s ev).snd ii) (s.snd ii) := by
  cases ev <;> exact ⟨rfl, rfl, rfl, rfl, rfl, rfl, rfl⟩

/-- The connection after a call of the receive function. -/
theorem step_receive_rcv (s : IpcState L) (ii : Fin L.rcvConnects) :
    (L.step s .receive).rcv ii =
      let cycle := s.clock % ipcMaxRate / L.rcvPeriod
      let info := receiveInfo s.mem (cycle * (ipcMaxRate / L.rcvRate) % ipcBlocks)
        (s.clock / ipcMaxRate) cycle (s.rcv ii)
      if cycle = 0 then reportInfo info else info := by
  dsimp only [step, commData3Receive]
  split <;> rfl

theorem step_rcv_same (s : IpcState L) (ev : IpcEvent K) (ii : Fin L.rcvConnects) :
    SameConnection ((L.step s ev).rcv ii) (s.rcv ii) := by
  cases ev with
  | tick => exact .refl _
  | send values => exact .refl _
  | receive =>
    rw [step_receive_rcv]
    dsimp only
    split
    · exact (reportInfo_same _).trans (receiveInfo_same ..)
    · exact receiveInfo_same ..

end Connections

/-! ## A pair of connections -/

section Pair

variable [Zero K] {L : IpcLink K} {gps : ℕ} {mem : IpcMem K} {evs : List (IpcEvent K)}
variable {a : Fin L.sndConnects} {b : Fin L.rcvConnects} {net : NetType}

/-- Connection `a` of the sender and connection `b` of the receiver are for one signal. -/
structure Paired (L : IpcLink K) (a : Fin L.sndConnects) (b : Fin L.rcvConnects)
    (net : NetType) : Prop where
  sndRate : IsRate L.sndRate
  rcvRate : IsRate L.rcvRate
  sendRate : (L.rcvInfo b).sendRate = L.sndRate
  alone : WritesAlone (commData3Init L.sndRate L.sndPci L.sndInfo) a net (L.rcvInfo b).ipcNum
  mode : (L.rcvInfo b).mode = .rcv
  pointer : (initInfo L.rcvRate L.rcvPci (L.rcvInfo b)).pIpcDataRead = some net

/-- How many cycles the sender is ahead on a network. -/
def ahead (L : IpcLink K) (net : NetType) : ℕ :=
  if L.rfmDelay = true ∧ net.isRfm = true then 2 else 1

/-- The calls of the sender, the newest first: the cycle, counted since the origin of the clock,
and the values. -/
def sent (L : IpcLink K) (gps : ℕ) (mem : IpcMem K) (evs : List (IpcEvent K)) :
    List (ℕ × (ℕ → K)) :=
  (evs.foldl (fun (p : IpcState L × List (ℕ × (ℕ → K))) ev =>
    (L.step p.1 ev,
      match ev with
      | .send values => (p.1.clock / L.sndPeriod, values) :: p.2
      | _ => p.2)) (L.start gps mem, [])).2

theorem runTo_snoc (ev : IpcEvent K) :
    L.runTo gps mem (evs ++ [ev]) = L.step (L.runTo gps mem evs) ev := List.foldl_append

theorem sent_snoc (ev : IpcEvent K) :
    L.sent gps mem (evs ++ [ev]) =
      match ev with
      | .send values => ((L.runTo gps mem evs).clock / L.sndPeriod, values) :: L.sent gps mem evs
      | _ => L.sent gps mem evs := by
  have hstate : ∀ (evs : List (IpcEvent K)) (p : IpcState L × List (ℕ × (ℕ → K))),
      (evs.foldl (fun (p : IpcState L × List (ℕ × (ℕ → K))) ev =>
        (L.step p.1 ev,
          match ev with
          | .send values => (p.1.clock / L.sndPeriod, values) :: p.2
          | _ => p.2)) p).1 = evs.foldl L.step p.1 := by
    intro evs
    induction evs with
    | nil => exact fun _ => rfl
    | cons ev evs ih => exact fun p => ih _
  unfold sent
  rw [List.foldl_append, List.foldl_cons, List.foldl_nil, hstate]
  rfl

/-- What the sender writes for connection `a`: the instant for which it is meant, and the value. -/
def turns (L : IpcLink K) (a : Fin L.sndConnects) (net : NetType) (gps : ℕ) (mem : IpcMem K)
    (evs : List (IpcEvent K)) : List (ℕ × K) :=
  (L.sent gps mem evs).map fun c => ((c.1 + L.ahead net) * L.sndPeriod, c.2 a)

theorem runTo_snd_same (evs : List (IpcEvent K)) (ii : Fin L.sndConnects) :
    SameConnection ((L.runTo gps mem evs).snd ii)
      (initInfo L.sndRate L.sndPci (L.sndInfo ii)) := by
  induction evs using List.reverseRecOn with
  | nil => exact .refl _
  | append_singleton evs ev ih =>
    rw [runTo_snoc]
    exact (step_snd_same _ ev ii).trans ih

theorem runTo_rcv_same (evs : List (IpcEvent K)) (ii : Fin L.rcvConnects) :
    SameConnection ((L.runTo gps mem evs).rcv ii)
      (initInfo L.rcvRate L.rcvPci (L.rcvInfo ii)) := by
  induction evs using List.reverseRecOn with
  | nil => exact .refl _
  | append_singleton evs ev ih =>
    rw [runTo_snoc]
    exact (step_rcv_same _ ev ii).trans ih

theorem initInfo_sendCycle (rate : ℕ) (pci : PciModules) (info : IpcInfo K) :
    (initInfo rate pci info).sendCycle = ipcMaxRate / rate := by
  unfold initInfo
  dsimp only
  split <;> [split; skip] <;> rfl

theorem initInfo_ipcNum (rate : ℕ) (pci : PciModules) (info : IpcInfo K) :
    (initInfo rate pci info).ipcNum = info.ipcNum := by
  unfold initInfo
  dsimp only
  split <;> [split; skip] <;> rfl

theorem initInfo_mode (rate : ℕ) (pci : PciModules) (info : IpcInfo K) :
    (initInfo rate pci info).mode = info.mode := by
  unfold initInfo
  dsimp only
  split <;> [split; skip] <;> rfl

theorem initInfo_rcvCycle {rate : ℕ} {pci : PciModules} {info : IpcInfo K}
    (h : info.mode = .rcv) :
    (initInfo rate pci info).rcvCycle =
      if info.sendRate ≥ rate then 1 else rate / info.sendRate := by
  unfold initInfo
  dsimp only
  rw [if_pos h]
  split <;> rfl

omit [Zero K] in
theorem WritesAlone.congr {connects : ℕ} {i j : Fin connects → IpcInfo K} {a : Fin connects}
    {num : ℕ} (h : WritesAlone j a net num) (hsame : ∀ ii, SameConnection (i ii) (j ii)) :
    WritesAlone i a net num where
  mode := (hsame a).mode.trans h.mode
  netType := (hsame a).netType.trans h.netType
  ipcNum := (hsame a).ipcNum.trans h.ipcNum
  pointer := (hsame a).pIpcDataWrite.trans h.pointer
  others := fun ii hne hptr => by
    rw [(hsame ii).ipcNum]
    exact h.others ii hne ((hsame ii).pIpcDataWrite.symm.trans hptr)

/-! ## The ring of blocks -/

theorem Paired.sndPeriod (hp : Paired L a b net) : Period L.sndPeriod L.sndRate :=
  hp.sndRate.period

theorem Paired.rcvPeriod (hp : Paired L a b net) : Period L.rcvPeriod L.rcvRate :=
  hp.rcvRate.period

theorem Paired.cell (hp : Paired L a b net) (block : ℕ) :
    (L.runTo gps mem evs).mem net block (L.rcvInfo b).ipcNum =
      match lastWrite ipcBlocks (L.turns a net gps mem evs) block with
      | some w => ⟨w.2, syncAt w.1⟩
      | none => mem net block (L.rcvInfo b).ipcNum := by
  induction evs using List.reverseRecOn with
  | nil => rfl
  | append_singleton evs ev ih =>
    rw [runTo_snoc]
    unfold turns at ih ⊢
    rw [sent_snoc]
    cases ev with
    | tick => exact ih
    | receive => exact ih
    | send values =>
      have hsame : ∀ ii, SameConnection
          ({ (L.runTo gps mem evs).snd ii with data := values ii } : IpcInfo K)
          (commData3Init L.sndRate L.sndPci L.sndInfo ii) := by
        intro ii
        have hdata : SameConnection
            ({ (L.runTo gps mem evs).snd ii with data := values ii } : IpcInfo K)
            ((L.runTo gps mem evs).snd ii) := ⟨rfl, rfl, rfl, rfl, rfl, rfl, rfl⟩
        exact hdata.trans (runTo_snd_same evs ii)
      have hfirst : firstSendCycle (fun ii : Fin L.sndConnects =>
          ({ (L.runTo gps mem evs).snd ii with data := values ii } : IpcInfo K)) =
          L.sndPeriod := by
        have hpos : 0 < L.sndConnects := Nat.zero_lt_of_lt a.isLt
        rw [firstSendCycle, dif_pos hpos, (hsame _).sendCycle]
        exact initInfo_sendCycle ..
      have hpoint : (if L.rfmDelay = true ∧ net.isRfm = true then
            sendPointDelayed L.sndRate L.sndPeriod ((L.runTo gps mem evs).clock / ipcMaxRate)
              ((L.runTo gps mem evs).clock % ipcMaxRate / L.sndPeriod)
          else sendPoint L.sndRate L.sndPeriod ((L.runTo gps mem evs).clock / ipcMaxRate)
            ((L.runTo gps mem evs).clock % ipcMaxRate / L.sndPeriod)) =
          (((L.runTo gps mem evs).clock / L.sndPeriod + L.ahead net) * L.sndPeriod % ipcBlocks,
            syncAt (((L.runTo gps mem evs).clock / L.sndPeriod + L.ahead net) *
              L.sndPeriod)) := by
        unfold ahead
        split
        · exact sendPointDelayed_eq hp.sndPeriod rfl _
        · exact sendPoint_eq hp.sndPeriod rfl _
      have hsend := commData3Send_apply (WritesAlone.congr hp.alone hsame) L.rfmDelay L.sndRate
        ((L.runTo gps mem evs).clock / ipcMaxRate)
        ((L.runTo gps mem evs).clock % ipcMaxRate / L.sndPeriod) (L.runTo gps mem evs).mem block
      dsimp only at hsend
      rw [hfirst, hpoint] at hsend
      dsimp only [step]
      rw [hsend, List.map_cons, lastWrite_cons, ih]
      by_cases hblock : block = ((L.runTo gps mem evs).clock / L.sndPeriod + L.ahead net) *
          L.sndPeriod % ipcBlocks
      · rw [if_pos hblock, if_pos hblock.symm]
      · rw [if_neg hblock, if_neg (Ne.symm hblock)]

/-- The calls of the sender are in the order of their cycles. -/
theorem sent_sorted :
    (∀ c ∈ L.sent gps mem evs, c.1 ≤ (L.runTo gps mem evs).clock / L.sndPeriod) ∧
      (L.sent gps mem evs).Pairwise fun c d => d.1 ≤ c.1 := by
  induction evs using List.reverseRecOn with
  | nil => exact ⟨fun c hc => absurd hc List.not_mem_nil, List.Pairwise.nil⟩
  | append_singleton evs ev ih =>
    obtain ⟨hle, hsorted⟩ := ih
    rw [runTo_snoc, sent_snoc]
    cases ev with
    | tick =>
      exact ⟨fun c hc => (hle c hc).trans (Nat.div_le_div_right (Nat.le_succ _)), hsorted⟩
    | receive => exact ⟨hle, hsorted⟩
    | send values =>
      refine ⟨fun c hc => ?_, List.pairwise_cons.mpr ⟨hle, hsorted⟩⟩
      rcases List.mem_cons.mp hc with rfl | hmem
      · exact le_rfl
      · exact hle c hmem

theorem turns_sorted :
    (L.turns a net gps mem evs).Pairwise fun v w => w.1 ≤ v.1 := by
  unfold turns
  rw [List.pairwise_map]
  exact sent_sorted.2.imp fun h => Nat.mul_le_mul_right _ (Nat.add_le_add_right h _)

theorem start_le_clock : gps * ipcMaxRate ≤ (L.runTo gps mem evs).clock := by
  induction evs using List.reverseRecOn with
  | nil => exact le_rfl
  | append_singleton evs ev ih =>
    rw [runTo_snoc]
    cases ev with
    | tick => exact ih.trans (Nat.le_succ _)
    | receive => exact ih
    | send values => exact ih

/-! ## The receiver -/

/-- The start of the cycle of the receiver. -/
def instant (L : IpcLink K) (clock : ℕ) : ℕ := clock / L.rcvPeriod * L.rcvPeriod

/-- The sender has gone round the ring: with a delay of two of its cycles of 32 ticks, its call in
the cycle that starts at the instant takes the block of the instant. -/
def Overwritten (L : IpcLink K) (net : NetType) (gps : ℕ) (mem : IpcMem K)
    (evs : List (IpcEvent K)) : Prop :=
  (L.rfmDelay = true ∧ net.isRfm = true) ∧ L.sndRate = 2048 ∧
    ∃ c ∈ L.sent gps mem evs, c.1 * L.sndPeriod = L.instant (L.runTo gps mem evs).clock

theorem Paired.turn_le (hp : Paired L a b net) (hover : ¬L.Overwritten net gps mem evs)
    {w : ℕ × K} (hw : w ∈ L.turns a net gps mem evs)
    (hmod : w.1 % ipcBlocks = L.instant (L.runTo gps mem evs).clock % ipcBlocks) :
    w.1 ≤ L.instant (L.runTo gps mem evs).clock := by
  obtain ⟨c, hc, rfl⟩ := List.mem_map.mp hw
  have hcycle := sent_sorted.1 c hc
  have hclock : c.1 * L.sndPeriod ≤ (L.runTo gps mem evs).clock :=
    (Nat.mul_le_mul_right _ hcycle).trans (Nat.div_mul_le_self _ _)
  have hnow : (L.runTo gps mem evs).clock <
      L.instant (L.runTo gps mem evs).clock + L.rcvPeriod := by
    have hmod := Nat.mod_lt (L.runTo gps mem evs).clock hp.rcvPeriod.pos
    have hdiv := Nat.div_add_mod' (L.runTo gps mem evs).clock L.rcvPeriod
    unfold instant
    omega
  have hrcv := hp.rcvPeriod.le
  have hsnd := hp.sndPeriod.le
  have hturn : (c.1 + L.ahead net) * L.sndPeriod =
      c.1 * L.sndPeriod + L.ahead net * L.sndPeriod := Nat.add_mul ..
  dsimp only at hmod ⊢
  rw [hturn] at hmod ⊢
  have hne : L.ahead net = 1 ∨ L.sndPeriod ≤ 16 ∨ L.sndPeriod = 32 ∧
      c.1 * L.sndPeriod ≠ L.instant (L.runTo gps mem evs).clock := by
    by_cases hdelay : L.rfmDelay = true ∧ net.isRfm = true
    · right
      by_cases hrate : L.sndRate = 2048
      · refine Or.inr ⟨?_, fun h => hover ⟨hdelay, hrate, c, hc, h⟩⟩
        rw [IpcLink.sndPeriod, hrate]
        rfl
      · exact Or.inl (hp.sndPeriod.le_of_ne hrate)
    · exact Or.inl (if_neg hdelay)
  have hahead : L.ahead net = 1 ∨ L.ahead net = 2 := by
    unfold ahead
    split
    · exact Or.inr rfl
    · exact Or.inl rfl
  -- the turn is less than a lap behind the instant
  unfold ipcBlocks at hmod
  rcases hahead with h1 | h2
  · rw [h1] at hmod ⊢
    omega
  · rw [h2] at hmod hne ⊢
    omega

/-- What was sent for an instant. -/
def valueFor (L : IpcLink K) (a : Fin L.sndConnects) (net : NetType) (gps : ℕ) (mem : IpcMem K)
    (evs : List (IpcEvent K)) (t : ℕ) : Option K :=
  ((L.sent gps mem evs).find? fun c => (c.1 + L.ahead net) * L.sndPeriod = t).map fun c => c.2 a

theorem valueFor_eq (t : ℕ) :
    L.valueFor a net gps mem evs t = (writeAt (L.turns a net gps mem evs) t).map Prod.snd := by
  unfold valueFor writeAt turns
  rw [List.find?_map, Option.map_map]
  rfl

/-- The receiver looks for data in this cycle. -/
def Due (L : IpcLink K) (b : Fin L.rcvConnects) (clock : ℕ) : Prop :=
  clock % ipcMaxRate / L.rcvPeriod % (initInfo L.rcvRate L.rcvPci (L.rcvInfo b)).rcvCycle = 0

instance (b : Fin L.rcvConnects) (clock : ℕ) : Decidable (L.Due b clock) :=
  inferInstanceAs (Decidable (_ = 0))

theorem Paired.instant_eq (hp : Paired L a b net) (clock : ℕ) :
    L.instant clock = clock / ipcMaxRate * ipcMaxRate +
      clock % ipcMaxRate / L.rcvPeriod * L.rcvPeriod := hp.rcvPeriod.instant_eq clock 0

/-- When data are due, a cycle of the sender has just ended. -/
theorem Paired.dvd_instant (hp : Paired L a b net) {clock : ℕ} (hdue : L.Due b clock) :
    L.sndPeriod ∣ L.instant clock := by
  rw [hp.instant_eq]
  have hsecond : L.sndPeriod ∣ ipcMaxRate := ⟨_, hp.sndPeriod.eq.symm⟩
  refine Nat.dvd_add (Dvd.dvd.mul_left hsecond _) ?_
  unfold Due at hdue
  rw [initInfo_rcvCycle hp.mode, hp.sendRate] at hdue
  generalize clock % ipcMaxRate / L.rcvPeriod = cycle at hdue ⊢
  obtain ⟨e, hlow, hhigh, hsnd⟩ := hp.sndRate
  obtain ⟨f, hlow', hhigh', hrcv⟩ := hp.rcvRate
  have hperiod : ∀ {k : ℕ}, k ≤ 16 → ipcMaxRate / 2 ^ k = 2 ^ (16 - k) :=
    fun hk => Nat.pow_div hk Nat.two_pos
  unfold IpcLink.sndPeriod IpcLink.rcvPeriod
  rw [hsnd, hrcv] at hdue ⊢
  rw [hperiod hhigh, hperiod hhigh']
  split at hdue
  case isTrue hle =>
    have hfe : f ≤ e := (Nat.pow_le_pow_iff_right (by decide)).mp hle
    exact Dvd.dvd.mul_left (Nat.pow_dvd_pow 2 (by omega)) _
  case isFalse hlt =>
    have hef : e ≤ f := by
      by_contra hfe
      exact hlt (Nat.pow_le_pow_right (by decide) (by omega))
    rw [Nat.pow_div hef Nat.two_pos] at hdue
    have hsplit : 2 ^ (16 - e) = 2 ^ (f - e) * 2 ^ (16 - f) := by
      rw [← Nat.pow_add]
      congr 1
      omega
    rw [hsplit]
    exact Nat.mul_dvd_mul_right (Nat.dvd_of_mod_eq_zero hdue) _

/-- What one call of the receive function does with what was sent for its instant. -/
structure HandsOver (due : Prop) [Decidable due] (cycle : ℕ) (value : Option K)
    (info info' : IpcInfo K) : Prop where
  data : info'.data = if due then value.getD info.data else info.data
  errTotal : info'.errTotal =
    if cycle = 0 then info.errFlag + (if due ∧ value.isNone then 1 else 0) else info.errTotal
  errFlag : info'.errFlag =
    if cycle = 0 then 0 else info.errFlag + if due ∧ value.isNone then 1 else 0

/-- The memory has no word yet of an instant of the run. -/
def Fresh (gps : ℕ) (mem : IpcMem K) (net : NetType) (num : ℕ) : Prop :=
  ∀ block t, gps * ipcMaxRate ≤ t → t / ipcMaxRate < 2 ^ 31 →
    (mem net block num).timestamp ≠ syncAt t

theorem Paired.start_le_instant (hp : Paired L a b net) :
    gps * ipcMaxRate ≤ L.instant (L.runTo gps mem evs).clock := by
  rw [hp.instant_eq]
  have hle : gps ≤ (L.runTo gps mem evs).clock / ipcMaxRate := by
    rw [Nat.le_div_iff_mul_le (by decide)]
    exact start_le_clock
  exact (Nat.mul_le_mul_right _ hle).trans (Nat.le_add_right _ _)

/-- The word that the receiver finds is the one that it looks for if and only if a value was sent
for the instant, and then it is with that value. -/
theorem Paired.cell_instant (hp : Paired L a b net)
    (hfresh : Fresh gps mem net (L.rcvInfo b).ipcNum)
    (hint : (L.runTo gps mem evs).clock / ipcMaxRate + 1 < 2 ^ 31)
    (hover : ¬L.Overwritten net gps mem evs) :
    let t := L.instant (L.runTo gps mem evs).clock
    let x := (L.runTo gps mem evs).mem net (t % ipcBlocks) (L.rcvInfo b).ipcNum
    (x.timestamp = syncAt t ↔ (L.valueFor a net gps mem evs t).isSome) ∧
      ∀ v, L.valueFor a net gps mem evs t = some v → x.data = v := by
  dsimp only
  have hle : ∀ w ∈ L.turns a net gps mem evs,
      w.1 % ipcBlocks = L.instant (L.runTo gps mem evs).clock % ipcBlocks →
      w.1 ≤ L.instant (L.runTo gps mem evs).clock := fun w hw => hp.turn_le hover hw
  have hclock : L.instant (L.runTo gps mem evs).clock ≤ (L.runTo gps mem evs).clock :=
    Nat.div_mul_le_self _ _
  have hsecond : L.instant (L.runTo gps mem evs).clock / ipcMaxRate < 2 ^ 31 := by
    have := Nat.div_le_div_right (c := ipcMaxRate) hclock
    omega
  have hstart : gps * ipcMaxRate ≤ L.instant (L.runTo gps mem evs).clock :=
    hp.start_le_instant
  rw [hp.cell, valueFor_eq]
  generalize L.instant (L.runTo gps mem evs).clock = t at *
  cases hw : writeAt (L.turns a net gps mem evs) t with
  | some w =>
    have hwt : w.1 = t := by simpa [writeAt] using List.find?_some hw
    rw [lastWrite_of_writeAt turns_sorted hle hw]
    simp [hwt]
  | none =>
    have hne : ∀ x : IpcXmit K, x.timestamp ≠ syncAt t →
        (x.timestamp = syncAt t ↔ ((none : Option (ℕ × K)).map Prod.snd).isSome) := by
      intro x hx
      simp [hx]
    cases hlast : lastWrite ipcBlocks (L.turns a net gps mem evs) (t % ipcBlocks) with
    | some w =>
      have hlt := lastWrite_lt hle hw hlast
      refine ⟨hne _ fun h => ?_, by simp⟩
      have hbound : w.1 / ipcMaxRate < 2 ^ 31 :=
        (Nat.div_le_div_right hlt.le).trans_lt hsecond
      exact hlt.ne (syncAt_inj hbound hsecond h)
    | none => exact ⟨hne _ (hfresh _ t hstart hsecond), by simp⟩

theorem Paired.rcvPoint (hp : Paired L a b net) (clock : ℕ) :
    clock % ipcMaxRate / L.rcvPeriod * (ipcMaxRate / L.rcvRate) % ipcBlocks =
        L.instant clock % ipcBlocks ∧
      syncWord (clock / ipcMaxRate) (clock % ipcMaxRate / L.rcvPeriod * L.rcvPeriod) =
        syncAt (L.instant clock) := by
  have hlt : clock % ipcMaxRate / L.rcvPeriod * L.rcvPeriod < ipcMaxRate :=
    (Nat.div_mul_le_self _ _).trans_lt (Nat.mod_lt _ (by decide))
  have hperiod : ipcMaxRate / L.rcvRate = L.rcvPeriod := rfl
  unfold syncAt
  rw [hperiod, hp.instant_eq]
  generalize clock % ipcMaxRate / L.rcvPeriod * L.rcvPeriod = x at hlt ⊢
  generalize clock / ipcMaxRate = sec
  unfold ipcMaxRate ipcBlocks at *
  have hblock : x % 64 = (sec * 65536 + x) % 64 := by omega
  have hcycle : (sec * 65536 + x) % 65536 = x := by omega
  have hsec : (sec * 65536 + x) / 65536 = sec := by omega
  rw [hblock, hcycle, hsec]
  exact ⟨rfl, rfl⟩

theorem Paired.receive (hp : Paired L a b net)
    (hfresh : Fresh gps mem net (L.rcvInfo b).ipcNum)
    (hint : (L.runTo gps mem evs).clock / ipcMaxRate + 1 < 2 ^ 31)
    (hover : ¬L.Overwritten net gps mem evs) :
    HandsOver (L.Due b (L.runTo gps mem evs).clock)
      ((L.runTo gps mem evs).clock % ipcMaxRate / L.rcvPeriod)
      (L.valueFor a net gps mem evs (L.instant (L.runTo gps mem evs).clock))
      ((L.runTo gps mem evs).rcv b) ((L.runTo gps mem (evs ++ [.receive])).rcv b) := by
  obtain ⟨hsync, hdata⟩ := hp.cell_instant hfresh hint hover
  obtain ⟨hblock, hword⟩ := hp.rcvPoint (L.runTo gps mem evs).clock
  have hsame : SameConnection ((L.runTo gps mem evs).rcv b)
      (initInfo L.rcvRate L.rcvPci (L.rcvInfo b)) := runTo_rcv_same evs b
  have hmode : ((L.runTo gps mem evs).rcv b).mode = .rcv := by
    rw [hsame.mode, initInfo_mode, hp.mode]
  have hnum : ((L.runTo gps mem evs).rcv b).ipcNum = (L.rcvInfo b).ipcNum := by
    rw [hsame.ipcNum, initInfo_ipcNum]
  have hptr : ((L.runTo gps mem evs).rcv b).pIpcDataRead = some net := by
    rw [hsame.pIpcDataRead, hp.pointer]
  have hcycle : ((L.runTo gps mem evs).rcv b).sendCycle = L.rcvPeriod := by
    rw [hsame.sendCycle, initInfo_sendCycle]
    rfl
  have hdue : ((L.runTo gps mem evs).clock % ipcMaxRate / L.rcvPeriod %
      ((L.runTo gps mem evs).rcv b).rcvCycle = 0) = L.Due b (L.runTo gps mem evs).clock := by
    rw [hsame.rcvCycle]
    rfl
  rw [runTo_snoc, step_receive_rcv]
  dsimp only
  rw [hblock]
  have hone : receiveInfo (L.runTo gps mem evs).mem
      (L.instant (L.runTo gps mem evs).clock % ipcBlocks)
      ((L.runTo gps mem evs).clock / ipcMaxRate)
      ((L.runTo gps mem evs).clock % ipcMaxRate / L.rcvPeriod) ((L.runTo gps mem evs).rcv b) =
      if L.Due b (L.runTo gps mem evs).clock then
        match L.valueFor a net gps mem evs (L.instant (L.runTo gps mem evs).clock) with
        | some v => { (L.runTo gps mem evs).rcv b with data := v }
        | none => { (L.runTo gps mem evs).rcv b with
            errFlag := ((L.runTo gps mem evs).rcv b).errFlag + 1 }
      else (L.runTo gps mem evs).rcv b := by
    unfold receiveInfo
    simp only [hmode, true_and, hdue, hptr, hnum, hcycle, hword]
    cases hval : L.valueFor a net gps mem evs (L.instant (L.runTo gps mem evs).clock) with
    | some v =>
      rw [hval] at hsync
      rw [if_pos (hsync.mpr rfl), hdata v hval]
    | none =>
      rw [hval] at hsync
      rw [if_neg fun h => Bool.false_ne_true (hsync.mp h)]
  rw [hone]
  have hreport : ∀ info : IpcInfo K, info.mode = .rcv →
      reportInfo info = { info with errTotal := info.errFlag, errFlag := 0 } :=
    fun info h => if_pos h
  generalize L.valueFor a net gps mem evs (L.instant (L.runTo gps mem evs).clock) = value
  generalize (L.runTo gps mem evs).rcv b = info at hmode ⊢
  by_cases hd : L.Due b (L.runTo gps mem evs).clock
  · cases value <;> split <;> constructor <;> simp_all
  · split <;> constructor <;> simp_all

/-! ## Runs -/

/-- How often the receiver found nothing for its instant. -/
def failures (L : IpcLink K) (a : Fin L.sndConnects) (b : Fin L.rcvConnects) (net : NetType)
    (gps : ℕ) (mem : IpcMem K) (evs : List (IpcEvent K)) : ℕ :=
  sumOverRun (fun past ev =>
    match ev with
    | .receive =>
      if L.Due b (L.runTo gps mem past).clock ∧
        (L.valueFor a net gps mem past (L.instant (L.runTo gps mem past).clock)).isNone then 1
      else 0
    | _ => 0) evs

/-- The sum of `errTotal` over the cycles 0. -/
def reported (L : IpcLink K) (b : Fin L.rcvConnects) (gps : ℕ) (mem : IpcMem K)
    (evs : List (IpcEvent K)) : ℕ :=
  sumOverRun (fun past ev =>
    match ev with
    | .receive =>
      if (L.runTo gps mem past).clock % ipcMaxRate / L.rcvPeriod = 0 then
        ((L.runTo gps mem (past ++ [.receive])).rcv b).errTotal
      else 0
    | _ => 0) evs

omit [Zero K] in
theorem clock_le_step (s : IpcState L) (ev : IpcEvent K) : s.clock ≤ (L.step s ev).clock := by
  cases ev with
  | tick => exact Nat.le_succ _
  | send values => exact le_rfl
  | receive => exact le_rfl

theorem clock_mono {past : List (IpcEvent K)} (h : past <+: evs) :
    (L.runTo gps mem past).clock ≤ (L.runTo gps mem evs).clock := by
  obtain ⟨rest, rfl⟩ := h
  induction rest using List.reverseRecOn with
  | nil => rw [List.append_nil]
  | append_singleton rest ev ih =>
    rw [← List.append_assoc, runTo_snoc]
    exact ih.trans (clock_le_step _ ev)

theorem initInfo_errFlag (rate : ℕ) (pci : PciModules) (info : IpcInfo K) :
    (initInfo rate pci info).errFlag = info.errFlag := by
  unfold initInfo
  dsimp only
  split <;> [split; skip] <;> rfl

/-- Every failure is in one `errTotal`, or still in `errFlag`. -/
theorem failures_counted
    (hhand : ∀ past, past ++ [.receive] <+: evs →
      HandsOver (L.Due b (L.runTo gps mem past).clock)
        ((L.runTo gps mem past).clock % ipcMaxRate / L.rcvPeriod)
        (L.valueFor a net gps mem past (L.instant (L.runTo gps mem past).clock))
        ((L.runTo gps mem past).rcv b) ((L.runTo gps mem (past ++ [.receive])).rcv b)) :
    L.failures a b net gps mem evs + (L.rcvInfo b).errFlag =
      L.reported b gps mem evs + ((L.runTo gps mem evs).rcv b).errFlag := by
  induction evs using List.reverseRecOn with
  | nil =>
    have hzero : ((L.runTo gps mem []).rcv b).errFlag = (L.rcvInfo b).errFlag :=
      initInfo_errFlag ..
    rw [hzero]
    rfl
  | append_singleton evs ev ih =>
    have hpast := ih fun past hpre => hhand past (hpre.trans (List.prefix_append _ _))
    unfold failures reported at hpast ⊢
    rw [sumOverRun_snoc, sumOverRun_snoc]
    cases ev with
    | tick =>
      have hsame : (L.runTo gps mem (evs ++ [.tick])).rcv b = (L.runTo gps mem evs).rcv b := by
        rw [runTo_snoc]
        rfl
      rw [hsame]
      exact hpast
    | send values =>
      have hsame : (L.runTo gps mem (evs ++ [.send values])).rcv b =
          (L.runTo gps mem evs).rcv b := by
        rw [runTo_snoc]
        rfl
      rw [hsame]
      exact hpast
    | receive =>
      obtain ⟨-, htotal, hflag⟩ := hhand evs List.prefix_rfl
      rw [hflag]
      dsimp only
      rw [htotal]
      by_cases hzero : (L.runTo gps mem evs).clock % ipcMaxRate / L.rcvPeriod = 0
      · simp only [if_pos hzero]
        omega
      · simp only [if_neg hzero]
        omega

/-- Every call of the receive function hands over the value of the sender cycle that ended at its
instant (one earlier with `RFM_DELAY` on a reflected memory), and what it misses is counted once,
unless a sender of 2048 Hz has written over it. -/
theorem ipc_hand_over (hp : Paired L a b net)
    (hfresh : Fresh gps mem net (L.rcvInfo b).ipcNum)
    (hint : (L.runTo gps mem evs).clock / ipcMaxRate + 1 < 2 ^ 31)
    (hover : ∀ past, past ++ [.receive] <+: evs → ¬L.Overwritten net gps mem past) :
    (∀ past, past ++ [.receive] <+: evs →
      (L.Due b (L.runTo gps mem past).clock →
        L.sndPeriod ∣ L.instant (L.runTo gps mem past).clock) ∧
      HandsOver (L.Due b (L.runTo gps mem past).clock)
        ((L.runTo gps mem past).clock % ipcMaxRate / L.rcvPeriod)
        (L.valueFor a net gps mem past (L.instant (L.runTo gps mem past).clock))
        ((L.runTo gps mem past).rcv b) ((L.runTo gps mem (past ++ [.receive])).rcv b)) ∧
      L.failures a b net gps mem evs + (L.rcvInfo b).errFlag =
        L.reported b gps mem evs + ((L.runTo gps mem evs).rcv b).errFlag := by
  have hint' (past) (hpre : past ++ [.receive] <+: evs) :
      (L.runTo gps mem past).clock / ipcMaxRate + 1 < 2 ^ 31 := by
    have hclock : (L.runTo gps mem past).clock ≤ (L.runTo gps mem evs).clock :=
      clock_mono ((List.prefix_append past [.receive]).trans hpre)
    have hsecond := Nat.div_le_div_right (c := ipcMaxRate) hclock
    omega
  have hhand (past) (hpre : past ++ [.receive] <+: evs) :=
    hp.receive hfresh (hint' past hpre) (hover past hpre)
  exact ⟨fun past hpre => ⟨hp.dvd_instant, hhand past hpre⟩, failures_counted hhand⟩

end Pair

/-! ## Two models of 2048 Hz -/

/-- A sender and a receiver of 2048 Hz with one connection. -/
def plainLink (net : NetType) (rfmDelay : Bool) : IpcLink ℤ where
  sndConnects := 1
  rcvConnects := 1
  sndRate := 2048
  rcvRate := 2048
  sndInfo := fun _ => ⟨0, net, 0, 2048, 0, 0, 5, .snd, 0, 0, none, none⟩
  rcvInfo := fun _ => ⟨0, net, 0, 2048, 0, 0, 5, .rcv, 0, 0, none, none⟩
  sndPci := ⟨true, true, true, true⟩
  rcvPci := ⟨true, true, true, true⟩
  rfmDelay := rfmDelay

/-- A memory that nobody has written. -/
def blankMem : IpcMem ℤ := fun _ _ _ => ⟨0, 0⟩

theorem plainLink_paired (net : NetType) (rfmDelay : Bool) :
    Paired (plainLink net rfmDelay) (0 : Fin 1) (0 : Fin 1) net where
  sndRate := ⟨11, by decide, by decide, rfl⟩
  rcvRate := ⟨11, by decide, by decide, rfl⟩
  sendRate := rfl
  alone := by
    have hptr : (commData3Init 2048 (plainLink net rfmDelay).sndPci
        (plainLink net rfmDelay).sndInfo (0 : Fin 1)).pIpcDataWrite = some net := by
      cases net <;> rfl
    refine ⟨rfl, rfl, rfl, hptr, fun i hi => ?_⟩
    exact absurd (Subsingleton.elim (α := Fin 1) i 0) hi
  mode := rfl
  pointer := by cases net <;> rfl

theorem blankMem_fresh {gps : ℕ} (hgps : 0 < gps) (net : NetType) (num : ℕ) :
    Fresh gps blankMem net num := by
  intro block t hle hlt h
  have hzero : (blankMem net block num).timestamp = 0 := rfl
  rw [hzero] at h
  unfold syncAt syncWord ipcMaxRate at h
  unfold ipcMaxRate at hle hlt
  omega

/-- A value of one cycle is there in the next. -/
theorem ipc_hand_over_next_cycle :
    (((plainLink .shme false).runTo 1 blankMem
      ([.send fun _ => 7] ++ List.replicate 32 .tick ++ [.receive])).rcv (0 : Fin 1)).data = 7 := by
  have hint : ((plainLink .shme false).runTo 1 blankMem
      ([.send fun _ => 7] ++ List.replicate 32 .tick ++ [.receive])).clock / ipcMaxRate + 1 <
      2 ^ 31 := by decide +kernel
  have hall := (ipc_hand_over (plainLink_paired .shme false)
    (blankMem_fresh Nat.one_pos _ _) hint fun past _ h => absurd h.1.1 Bool.false_ne_true).1
  obtain ⟨-, hdata, -, -⟩ := hall _ List.prefix_rfl
  exact hdata.trans (by decide +kernel)

/-- With `RFM_DELAY`, a call of the sender in the cycle of the receiver comes first and takes the
block with the value that is due. -/
theorem delayed_value_lost :
    let L := plainLink .rfm0 true
    let evs := [.send fun _ => 7] ++ List.replicate 32 .tick ++ [.send fun _ => 8] ++
      List.replicate 32 .tick ++ [.send fun _ => 9]
    L.valueFor (0 : Fin 1) .rfm0 1 blankMem evs (L.instant (L.runTo 1 blankMem evs).clock) =
      some 7 ∧
      ((L.runTo 1 blankMem (evs ++ [.receive])).rcv (0 : Fin 1)).data = 0 := by
  decide +kernel

end IpcLink

end AdvLigoRts.Fe
