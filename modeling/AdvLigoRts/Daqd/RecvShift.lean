import AdvLigoRts.Daqd.RecvQueue

/-!
# Runs of the receiver that differ in the sequence numbers

`shift k` adds a constant modulo 2^32 to every sequence number of a packet, of a call, of a state
and of an action.
-/

namespace AdvLigoRts.Daqd

open PvLib

variable (k : UInt32)

@[simps]
def Packet.shift (pkt : Packet) : Packet :=
  { pkt with header := { pkt.header with seq := pkt.header.seq + k } }

def RetransmitPacket.shift (rpkt : RetransmitPacket) : RetransmitPacket :=
  { rpkt with header := { rpkt.header with seq := rpkt.header.seq + k } }

/-- Before the first packet of the sequence `*sequence` has not been set. -/
@[simps]
def RecvCall.shift (c : RecvCall) : RecvCall :=
  { c with
    newseq := c.newseq + k
    sequence := if c.firstPacket then c.sequence else c.sequence + k }

def FrameRecvPc.shift : FrameRecvPc → FrameRecvPc
  | .idle => .idle
  | .first data maxlen => .first data maxlen
  | .poll c => .poll (c.shift k)
  | .turn c => .turn (c.shift k)
  | .exited => .exited

/-- Before the first packet `oldseq` is not a sequence number. -/
@[simps]
def FrameRecv.shift (s : FrameRecv) : FrameRecv :=
  { s with
    oldseq := if s.first then s.oldseq else s.oldseq + k
    pkts := s.pkts.map (Packet.shift k)
    pc := s.pc.shift k }

def RecvAction.shift : RecvAction → RecvAction
  | .getPacket (some (n, pkt)) => .getPacket (some (n, pkt.shift k))
  | a => a

/-- What the shifted receiver shows: a call that fails may have left `*sequence` as it was. -/
inductive ShiftedEvent : FrameRecvEvent → FrameRecvEvent → Prop
  | tau : ShiftedEvent .tau .tau
  | returned (value : ℤ) (data : ℕ → UInt8) (sequence recvtime duration : UInt32) :
      ShiftedEvent (.returned value data sequence recvtime duration)
        (.returned value data (sequence + k) recvtime duration)
  | unset (value : ℤ) (data : ℕ → UInt8) (sequence recvtime duration : UInt32) (h : value < 0) :
      ShiftedEvent (.returned value data sequence recvtime duration)
        (.returned value data sequence recvtime duration)
  | request (rpkt : RetransmitPacket) : ShiftedEvent (.request rpkt) (.request (rpkt.shift k))
  | exited : ShiftedEvent .exited .exited

namespace FrameRecv

/-- The packets that a step compares with one another. -/
def inPlay (s : FrameRecv) : RecvAction → List Packet
  | .getPacket (some (_, pkt)) => pkt :: s.pkts
  | _ => s.pkts

/-- The expected sequence number of the call. -/
def expected (s : FrameRecv) : Option UInt32 :=
  match s.pc with
  | .poll c => some c.newseq
  | .turn c => some c.newseq
  | _ => none

/-- The numbers lie on one side of the wrap, before they are shifted and after it. -/
def OneSide (pkts : List Packet) : Prop :=
  ∀ p ∈ pkts, ∀ q ∈ pkts, p.header.seq.toNat < q.header.seq.toNat + 2 ^ 31 ∧
    (p.header.seq + k).toNat < (q.header.seq + k).toNat + 2 ^ 31

instance (pkts : List Packet) : Decidable (OneSide k pkts) := by
  unfold OneSide
  infer_instance

/-- No step compares numbers from both sides of the wrap, and none is half way round from the
expected one. -/
def NoWrap (s : FrameRecv) (a : RecvAction) : Prop :=
  OneSide k (s.inPlay a) ∧ ∀ newseq ∈ s.expected, ∀ p ∈ s.pkts, p.header.seq ≠ newseq + 2 ^ 31

instance (s : FrameRecv) (a : RecvAction) : Decidable (NoWrap k s a) :=
  inferInstanceAs (Decidable (_ ∧ _))

section Shift

variable {k} {pkts : List Packet} {pkt p q : Packet} {c c' : RecvCall} {newseq : UInt32}

/-! ## The packet buffer -/

theorem OneSide.lt_iff (h : OneSide k pkts) (hp : p ∈ pkts) (hq : q ∈ pkts) :
    p.header.seq + k < q.header.seq + k ↔ p.header.seq < q.header.seq := by
  have hpq := h p hp q hq
  have hqp := h q hq p hp
  rw [UInt32.lt_iff_toNat_lt, UInt32.lt_iff_toNat_lt]
  rw [UInt32.toNat_add, UInt32.toNat_add] at *
  have := p.header.seq.toNat_lt
  have := q.header.seq.toNat_lt
  have := k.toNat_lt
  omega

theorem pktLt_shift (h : OneSide k pkts) (hp : p ∈ pkts) (hq : q ∈ pkts) :
    pktLt (p.shift k) (q.shift k) = pktLt p q := by
  have hlt := h.lt_iff hp hq
  rw [Bool.eq_iff_iff, pktLt_iff, pktLt_iff]
  show p.header.seq + k < q.header.seq + k ∨ p.header.seq + k = q.header.seq + k ∧ _ ↔ _
  rw [hlt, UInt32.add_left_inj]
  rfl

theorem pktEq_shift (p q : Packet) : pktEq (p.shift k) (q.shift k) = pktEq p q := by
  rw [Bool.eq_iff_iff, pktEq_iff, pktEq_iff]
  show p.header.seq + k = q.header.seq + k ∧ _ ↔ _
  rw [UInt32.add_left_inj]
  rfl

theorem insertPkt_shift (h : OneSide k (pkt :: pkts)) :
    insertPkt (pkts.map (Packet.shift k)) (pkt.shift k)
      = (insertPkt pkts pkt).map (Packet.shift k) := by
  have hpos : lowerBound (fun q => pktLt q (pkt.shift k)) (pkts.map (Packet.shift k))
      = lowerBound (fun q => pktLt q pkt) pkts :=
    lowerBound_map fun q hq => pktLt_shift h (List.mem_cons_of_mem pkt hq) List.mem_cons_self
  unfold insertPkt
  dsimp only
  rw [hpos, List.getElem?_map]
  cases pkts[lowerBound (fun q => pktLt q pkt) pkts]? with
  | none => simp
  | some q =>
    simp only [Option.map_some, pktEq_shift]
    split
    · rfl
    · simp [List.map_take, List.map_drop]

theorem calcDiff_shift (h : pkt.header.seq ≠ newseq + 2 ^ 31) :
    calcDiff (pkt.shift k :: pkts.map (Packet.shift k)) (newseq + k)
      = calcDiff (pkt :: pkts) newseq := by
  have hhalf : pkt.header.seq.toNat ≠ (newseq + 2 ^ 31).toNat := fun heq =>
    h (UInt32.toNat_inj.mp heq)
  have htwo : (2 ^ 31 : UInt32).toNat = 2 ^ 31 := by decide
  unfold calcDiff
  show (let diff : ℤ := ((pkt.header.seq + k).toNat : ℤ) - (newseq + k).toNat
    let diff := if diff > 2 ^ 31 then diff - 2 ^ 32 else diff
    if diff < -2 ^ 31 then diff + 2 ^ 32 else diff) = _
  rw [UInt32.toNat_add, htwo] at hhalf
  rw [UInt32.toNat_add, UInt32.toNat_add]
  have := pkt.header.seq.toNat_lt
  have := newseq.toNat_lt
  have := k.toNat_lt
  dsimp only
  push_cast
  split <;> split <;> split <;> split <;> omega

theorem skipOld_shift (h : ∀ p ∈ pkts, p.header.seq ≠ newseq + 2 ^ 31) :
    skipOld (newseq + k) (pkts.map (Packet.shift k))
      = (skipOld newseq pkts).map (Packet.shift k) := by
  induction pkts with
  | nil => rfl
  | cons pkt pkts ih =>
    rw [List.map_cons, skipOld, skipOld, calcDiff_shift (h pkt List.mem_cons_self),
      ih fun p hp => h p (List.mem_cons_of_mem pkt hp)]
    split
    · rfl
    · rfl

/-! ## A packet of the sequence -/

theorem firstPacket_shift (c : RecvCall) (alloc : Option (ℕ → UInt8)) (pkt : Packet) :
    firstPacket (c.shift k) alloc (pkt.shift k)
      = (firstPacket c alloc pkt).map (RecvCall.shift k) := by
  unfold firstPacket
  have hdata : (c.shift k).data = c.data := rfl
  simp only [RecvCall.shift_firstPacket, RecvCall.shift_maxlen, hdata, RecvCall.shift_newseq,
    Packet.shift_header_pktTotal, Packet.shift_header_timestamp, Packet.shift_header_duration]
  split
  · split
    · rfl
    · generalize (if c.maxlen = -1 then alloc else some c.data) = mem
      cases mem with
      | none => rfl
      | some data =>
        dsimp only
        split
        · rfl
        · rfl
  · rfl

theorem copyPayload_shift (c : RecvCall) (pkt : Packet) :
    copyPayload (c.shift k) (pkt.shift k) = (copyPayload c pkt).shift k := by
  unfold copyPayload
  simp only [RecvCall.shift_pktCntrl, Packet.shift_header_pktNum]
  split
  · rfl
  · rfl

theorem copyPacket_shift (c : RecvCall) (pkt : Packet) :
    copyPacket (c.shift k) (pkt.shift k) = (copyPacket c pkt).shift k := by
  unfold copyPacket
  simp only [copyPayload_shift, Packet.shift_header_pktNum, Packet.shift_header_pktTotal]
  split
  · rfl
  · rfl

variable {alloc : Option (ℕ → UInt8)}

theorem firstPacket_ok (h : firstPacket c alloc pkt = .ok c') :
    c'.newseq = c.newseq ∧ c'.firstPacket = false := by
  unfold firstPacket at h
  dsimp only at h
  split at h
  · split at h
    · cases h
    · split at h
      · cases h
      · split at h
        · cases h
        · cases h
          exact ⟨rfl, rfl⟩
  · next hfirst =>
    cases h
    exact ⟨rfl, by simpa using hfirst⟩

theorem firstPacket_error {value : ℤ} (h : firstPacket c alloc pkt = .error (some value)) :
    value < 0 := by
  unfold firstPacket at h
  dsimp only at h
  split at h
  · split at h
    · next hlong =>
      cases h
      omega
    · split at h
      · cases h
        decide
      · split at h
        · cases h
        · cases h
  · cases h

theorem copyPacket_frame (c : RecvCall) (pkt : Packet) :
    (copyPacket c pkt).newseq = c.newseq ∧ (copyPacket c pkt).firstPacket = c.firstPacket := by
  unfold copyPacket copyPayload
  dsimp only
  split <;> split <;> exact ⟨rfl, rfl⟩

/-- The loop over the packets at the front. -/
theorem takePackets_shift (h : ∀ p ∈ pkts, p.header.seq ≠ c.newseq + 2 ^ 31)
    (alloc : Option (ℕ → UInt8)) :
    takePackets alloc (c.shift k) (pkts.map (Packet.shift k)) =
      ((takePackets alloc c pkts).1.map (RecvCall.shift k),
        (takePackets alloc c pkts).2.map (Packet.shift k)) := by
  induction pkts generalizing c with
  | nil => rfl
  | cons pkt pkts ih =>
    rw [List.map_cons, takePackets, takePackets,
      show (c.shift k).newseq = c.newseq + k from rfl, calcDiff_shift (h pkt List.mem_cons_self)]
    split
    · rw [firstPacket_shift]
      cases hfirst : firstPacket c alloc pkt with
      | error value => rfl
      | ok c' =>
        obtain ⟨hnewseq, -⟩ := firstPacket_ok hfirst
        show takePackets alloc (copyPacket (c'.shift k) (pkt.shift k)) _ = _
        rw [copyPacket_shift, ih]
        intro p hp
        rw [(copyPacket_frame c' pkt).1, hnewseq]
        exact h p (List.mem_cons_of_mem pkt hp)
    · rfl

/-! ## The steps -/

/-- A call that has taken no packet has received nothing. -/
def Fresh (c : RecvCall) : Prop := c.firstPacket = true → c.len = 0 ∧ c.seqDone = false

/-- The calls in progress. -/
def RecvInv (s : FrameRecv) : Prop :=
  ∀ c, s.pc = .poll c ∨ s.pc = .turn c → s.first = false ∧ Fresh c

/-- What the shifted receiver does where the receiver does `r`. -/
structure StepShifted (k : UInt32) (r r' : FrameRecvEvent × FrameRecv) : Prop where
  event : ShiftedEvent k r.1 r'.1
  state : r'.2 = r.2.shift k
  inv : RecvInv r.2

variable {s : FrameRecv}

theorem recvInv_of_pc (h : s.pc = .idle ∨ s.pc = .exited) : RecvInv s := by
  intro c hc
  rcases h with h | h
  · rw [h] at hc
    simp at hc
  · rw [h] at hc
    simp at hc

theorem recvInv_of_call (hfirst : s.first = false) (hc : Fresh c)
    (hpc : s.pc = .poll c ∨ s.pc = .turn c) : RecvInv s := by
  intro c' hc'
  rcases hpc with hpc | hpc
  · rw [hpc] at hc'
    obtain rfl : c = c' := by simpa using hc'
    exact ⟨hfirst, hc⟩
  · rw [hpc] at hc'
    obtain rfl : c = c' := by simpa using hc'
    exact ⟨hfirst, hc⟩

theorem takePackets_ok (hc : Fresh c) {rest : List Packet}
    (h : takePackets alloc c pkts = (.ok c', rest)) :
    Fresh c' ∧ c'.newseq = c.newseq ∧ ∀ p ∈ rest, p ∈ pkts := by
  induction pkts generalizing c with
  | nil =>
    cases h
    exact ⟨hc, rfl, nofun⟩
  | cons pkt pkts ih =>
    unfold takePackets at h
    split at h
    · cases hfirst : firstPacket c alloc pkt with
      | error value =>
        rw [hfirst] at h
        cases h
      | ok c'' =>
        rw [hfirst] at h
        obtain ⟨hnewseq, hbegun⟩ := firstPacket_ok hfirst
        obtain ⟨hframe, hframe'⟩ := copyPacket_frame c'' pkt
        have hfresh : Fresh (copyPacket c'' pkt) := by
          intro htrue
          rw [hframe', hbegun] at htrue
          cases htrue
        obtain ⟨hc', hseq, hrest⟩ := ih hfresh h
        exact ⟨hc', hseq.trans (hframe.trans hnewseq),
          fun p hp => List.mem_cons_of_mem _ (hrest p hp)⟩
    · cases h
      exact ⟨hc, rfl, fun p hp => hp⟩

theorem takePackets_error {value : ℤ} {rest : List Packet}
    (h : takePackets alloc c pkts = (.error (some value), rest)) : value < 0 := by
  induction pkts generalizing c with
  | nil => cases h
  | cons pkt pkts ih =>
    unfold takePackets at h
    split at h
    · cases hfirst : firstPacket c alloc pkt with
      | error value' =>
        rw [hfirst] at h
        cases h
        exact firstPacket_error hfirst
      | ok c'' =>
        rw [hfirst] at h
        exact ih h
    · cases h

theorem fail_shift (s : FrameRecv) (c : RecvCall) {value : ℤ} (hvalue : value < 0) :
    StepShifted k (fail s c value) (fail (s.shift k) (c.shift k) value) where
  event := by
    show ShiftedEvent k _ (.returned _ _ (if c.firstPacket then _ else _) _ _)
    split
    · exact .unset _ _ _ _ _ hvalue
    · exact .returned ..
  state := rfl
  inv := recvInv_of_pc (.inl rfl)

theorem ask_shift (hfirst : s.first = false) (hc : Fresh c) (nums : List ℤ) (sent : Bool) :
    StepShifted k (ask s c nums sent) (ask (s.shift k) (c.shift k) nums sent) := by
  unfold ask
  split
  · exact ⟨.request _, rfl, recvInv_of_call
      (c := { c with retryExpired := false, retry := c.retry + 1 }) hfirst hc (.inl rfl)⟩
  · exact fail_shift { s with sock := false } c (by decide)

theorem finish_shift (hfirst : s.first = false) (hc : Fresh c) (expired sent : Bool) :
    StepShifted k (finish s c expired sent) (finish (s.shift k) (c.shift k) expired sent) := by
  unfold finish
  simp only [RecvCall.shift_seqDone, RecvCall.shift_pktCntrl, RecvCall.shift_retry,
    RecvCall.shift_retryExpired, FrameRecv.shift_pkts, List.length_map]
  split
  · exact ⟨.tau, rfl, recvInv_of_call hfirst hc (.inl rfl)⟩
  · next hdone =>
    have hbegun : c.firstPacket = false := by
      by_contra hnot
      rw [(hc (by simpa using hnot)).2] at hdone
      exact hdone rfl
    split
    · refine ⟨?_, ?_, recvInv_of_pc (.inl rfl)⟩
      · show ShiftedEvent k _ (.returned _ _ (if c.firstPacket then _ else _) _ _)
        rw [hbegun]
        exact .returned ..
      · unfold FrameRecv.shift
        simp only [hfirst]
        rfl
    · generalize (if c.retry > 0 ∧ !c.retryExpired then expired else c.retryExpired) = retryExpired
      split
      · exact ⟨.exited, rfl, recvInv_of_pc (.inr rfl)⟩
      · split
        · exact ask_shift hfirst hc ..
        · exact ⟨.tau, rfl, recvInv_of_call (c := { c with retryExpired }) hfirst hc (.inl rfl)⟩

theorem turn_shift (hfirst : s.first = false) (hc : Fresh c)
    (hhalf : ∀ p ∈ s.pkts, p.header.seq ≠ c.newseq + 2 ^ 31) (expired : Bool)
    (alloc : Option (ℕ → UInt8)) (sent : Bool) :
    StepShifted k (turn s c expired alloc sent)
      (turn (s.shift k) (c.shift k) expired alloc sent) := by
  have hdiff : ∀ pkts : List Packet, (∀ p ∈ pkts, p.header.seq ≠ c.newseq + 2 ^ 31) →
      calcDiff (pkts.map (Packet.shift k)) (c.newseq + k) = calcDiff pkts c.newseq := by
    intro pkts hpkts
    cases pkts with
    | nil => rfl
    | cons pkt pkts => exact calcDiff_shift (hpkts pkt List.mem_cons_self)
  unfold turn
  simp only [RecvCall.shift_newseq, RecvCall.shift_len, RecvCall.shift_retry,
    FrameRecv.shift_pkts, hdiff s.pkts hhalf, List.map_eq_nil_iff, skipOld_shift hhalf]
  split
  · exact finish_shift hfirst hc expired sent
  split
  · split
    · exact ⟨.tau, rfl,
        recvInv_of_call (c := { c with retryExpired := false }) hfirst hc (.inl rfl)⟩
    · split
      · exact ⟨.exited, rfl, recvInv_of_pc (.inr rfl)⟩
      · exact ask_shift hfirst hc ..
  split
  · exact ⟨.exited, rfl, recvInv_of_pc (.inr rfl)⟩
  have hold : ∀ p ∈ skipOld c.newseq s.pkts, p.header.seq ≠ c.newseq + 2 ^ 31 :=
    fun p hp => hhalf p (mem_skipOld hp)
  generalize skipOld c.newseq s.pkts = old at *
  cases old with
  | nil => exact ⟨.tau, rfl, recvInv_of_call hfirst hc (.inl rfl)⟩
  | cons pkt pkts =>
    simp only [List.map_cons]
    rw [← List.map_cons, takePackets_shift hold]
    cases htake : takePackets alloc c (pkt :: pkts) with
    | mk result rest =>
      cases result with
      | error value =>
        cases value with
        | none => exact ⟨.exited, rfl, recvInv_of_pc (.inr rfl)⟩
        | some value => exact fail_shift { s with pkts := rest } c (takePackets_error htake)
      | ok c' =>
        obtain ⟨hc', hnewseq, hrest⟩ := takePackets_ok hc htake
        -- the end of the sequence shows in the packet behind it, or not, in both
        have hnext : (if calcDiff (rest.map (Packet.shift k)) (c'.newseq + k) > 0 ∧ c'.len ≠ 0 then
              { c'.shift k with seqDone := true } else c'.shift k)
            = RecvCall.shift k (if calcDiff rest c'.newseq > 0 ∧ c'.len ≠ 0 then
              { c' with seqDone := true } else c') := by
          have hsame := hdiff rest fun p hp => hold p (hrest p hp)
          rw [← hnewseq] at hsame
          rw [hsame]
          split
          · rfl
          · rfl
        have hfresh : Fresh (if calcDiff rest c'.newseq > 0 ∧ c'.len ≠ 0 then
            { c' with seqDone := true } else c') := by
          split
          · next hlen =>
            intro htrue
            exact absurd (hc' htrue).1 hlen.2
          · exact hc'
        have hfinish :=
          finish_shift (k := k) (s := { s with pkts := rest }) hfirst hfresh expired sent
        rw [← hnext] at hfinish
        exact hfinish

theorem beginCall_shift (hne : s.pkts ≠ []) (data : ℕ → UInt8) (maxlen : ℤ) :
    (s.shift k).beginCall data maxlen = (s.beginCall data maxlen).shift k ∧
      RecvInv (s.beginCall data maxlen) := by
  constructor
  · have hone : ∀ q : UInt32, q + k + 1 = q + 1 + k := fun q => by
      rw [UInt32.add_assoc, UInt32.add_comm k, ← UInt32.add_assoc]
    unfold beginCall
    cases hpkts : s.pkts with
    | nil => exact absurd hpkts hne
    | cons pkt pkts =>
      simp only [FrameRecv.shift_first, FrameRecv.shift_pkts, hpkts, List.map_cons,
        List.head?_cons, Packet.shift_header_seq, FrameRecv.shift_oldseq]
      cases s.first with
      | false =>
        simp only [Bool.false_eq_true, if_false, hone]
        unfold FrameRecv.shift
        simp only [Bool.false_eq_true, if_false]
        rfl
      | true =>
        simp only [if_true, hone]
        unfold FrameRecv.shift
        simp only [Bool.false_eq_true, if_false]
        rfl
  · intro c hc
    obtain rfl : _ = c := by simpa [beginCall] using hc
    exact ⟨rfl, fun _ => ⟨rfl, rfl⟩⟩

theorem receive_shift (h : s.pc = .idle) (data : Option (ℕ → UInt8)) (maxlen : ℤ) :
    StepShifted k (receive s data maxlen) (receive (s.shift k) data maxlen) := by
  unfold receive
  simp only [FrameRecv.shift_sock, FrameRecv.shift_pkts, List.map_eq_nil_iff]
  generalize (if data.isNone then (-1 : ℤ) else maxlen) = maxlen'
  split
  · exact ⟨.unset _ _ _ _ _ (by decide), rfl, recvInv_of_pc (.inl h)⟩
  split
  · exact ⟨.unset _ _ _ _ _ (by decide), rfl, recvInv_of_pc (.inl h)⟩
  split
  · refine ⟨.tau, rfl, ?_⟩
    intro c hc
    simp at hc
  · next hne =>
    obtain ⟨hstate, hinv⟩ := beginCall_shift (k := k) hne (data.getD fun _ => 0) maxlen'
    exact ⟨.tau, hstate, hinv⟩

theorem step_shift {a : RecvAction} {r : FrameRecvEvent × FrameRecv} (hs : RecvInv s)
    (hwrap : NoWrap k s a) (h : step s a = some r) :
    ∃ r', step (s.shift k) (a.shift k) = some r' ∧ StepShifted k r r' := by
  obtain ⟨hside, hhalf⟩ := hwrap
  unfold step at h
  split at h
  · next data maxlen hpc =>
    cases h
    refine ⟨_, ?_, receive_shift hpc data maxlen⟩
    unfold step
    rw [FrameRecv.shift_pc, hpc]
    rfl
  · next rcvd data maxlen hpc =>
    have hpc' : (s.shift k).pc = .first data maxlen := by rw [FrameRecv.shift_pc, hpc]; rfl
    cases rcvd with
    | none =>
      cases h
      refine ⟨(.returned (-3) data 0 0 0, FrameRecv.shift k { s with pc := .idle }), ?_,
        ⟨.unset _ _ _ _ _ (by decide), rfl, recvInv_of_pc (.inl rfl)⟩⟩
      unfold step
      rw [hpc']
      rfl
    | some rcvd =>
      obtain ⟨n, pkt⟩ := rcvd
      have hvalid : validPacket n (pkt.shift k) = validPacket n pkt := rfl
      dsimp only at h
      split at h
      · next hok =>
        cases h
        have hne : insertPkt s.pkts pkt ≠ [] := by
          obtain ⟨q, hq, -⟩ := exists_mem_insertPkt s.pkts pkt
          exact List.ne_nil_of_mem hq
        obtain ⟨hstate, hinv⟩ :=
          beginCall_shift (k := k) (s := { s with pkts := insertPkt s.pkts pkt }) hne data maxlen
        refine ⟨(.tau, _), ?_, ⟨.tau, hstate, hinv⟩⟩
        unfold step
        rw [hpc']
        dsimp only [RecvAction.shift]
        rw [hvalid, if_pos hok, FrameRecv.shift_pkts, insertPkt_shift hside]
        rfl
      · next hbad =>
        cases h
        refine ⟨(.tau, _), ?_, ⟨.tau, rfl, hs⟩⟩
        unfold step
        rw [hpc']
        dsimp only [RecvAction.shift]
        rw [hvalid, if_neg hbad]
        rfl
  · next rcvd c hpc =>
    have hpc' : (s.shift k).pc = .poll (c.shift k) := by rw [FrameRecv.shift_pc, hpc]; rfl
    obtain ⟨hfirst, hc⟩ := hs c (.inl hpc)
    have hlength : (s.shift k).pkts.length = s.pkts.length := List.length_map ..
    split at h
    · next hfull =>
      cases h
      refine ⟨(.exited, FrameRecv.shift k { s with pc := .exited }), ?_,
        ⟨.exited, rfl, recvInv_of_pc (.inr rfl)⟩⟩
      unfold step
      rw [hpc']
      dsimp only [RecvAction.shift]
      cases rcvd with
      | none | some rcvd => exact if_pos (hlength ▸ hfull)
    · next hroom =>
      have hroom' : ¬ (s.shift k).pkts.length ≥ rcvpacketbuffersize := hlength ▸ hroom
      cases rcvd with
      | none =>
        cases h
        refine ⟨(.tau, FrameRecv.shift k { s with pc := .turn c }), ?_,
          ⟨.tau, rfl, recvInv_of_call hfirst hc (.inr rfl)⟩⟩
        unfold step
        rw [hpc']
        exact if_neg hroom'
      | some rcvd =>
        obtain ⟨n, pkt⟩ := rcvd
        have hvalid : validPacket n (pkt.shift k) = validPacket n pkt := rfl
        dsimp only at h
        split at h
        · next hok =>
          cases h
          refine ⟨(.tau, FrameRecv.shift k { s with pkts := insertPkt s.pkts pkt, pc := .turn c }),
            ?_, ⟨.tau, rfl, recvInv_of_call hfirst hc (.inr rfl)⟩⟩
          unfold step
          rw [hpc']
          dsimp only [RecvAction.shift]
          rw [if_neg hroom', hvalid, if_pos hok, FrameRecv.shift_pkts, insertPkt_shift hside]
          rfl
        · next hbad =>
          cases h
          refine ⟨(.tau, s.shift k), ?_, ⟨.tau, rfl, hs⟩⟩
          unfold step
          rw [hpc']
          dsimp only [RecvAction.shift]
          rw [if_neg hroom', hvalid, if_neg hbad]
  · next expired alloc sent c hpc =>
    obtain ⟨hfirst, hc⟩ := hs c (.inr hpc)
    cases h
    have hexpected : s.expected = some c.newseq := by rw [expected, hpc]
    have hpkts := hhalf c.newseq (by rw [hexpected]; rfl)
    refine ⟨_, ?_, turn_shift hfirst hc hpkts expired alloc sent⟩
    unfold step
    rw [FrameRecv.shift_pc, hpc]
    rfl
  · cases h

theorem run_shift {as : List RecvAction} {tr : List FrameRecvEvent} {t : FrameRecv}
    (hs : RecvInv s) (h : run (restrict (NoWrap k) step) s as = some (tr, t)) :
    ∃ tr', run step (s.shift k) (as.map (RecvAction.shift k)) = some (tr', t.shift k) ∧
      List.Forall₂ (ShiftedEvent k) tr tr' := by
  induction as generalizing s tr with
  | nil =>
    cases h
    exact ⟨[], rfl, .nil⟩
  | cons a as ih =>
    obtain ⟨e, u, es, hstep, hrest, rfl⟩ := run_cons h
    obtain ⟨hwrap, hstep⟩ := restrict_eq_some.mp hstep
    obtain ⟨⟨e', u'⟩, hstep', hshifted⟩ := step_shift hs hwrap hstep
    obtain rfl : u' = u.shift k := hshifted.state
    obtain ⟨tr', hrun, hevents⟩ := ih hshifted.inv hrest
    exact ⟨e' :: tr', run_cons_of hstep' hrun, .cons hshifted.event hevents⟩

end Shift

/-- Sequence numbers count modulo 2^32 as long as the numbers in the packet buffer lie on one side
of the wrap: `calcDiff` is the least distance just when they do, and a run in which all steps find
them so, before a shift by `k` and after it, is the same but for the shift. -/
theorem receive_mod_seq (newseq : UInt32) (arrived : List Packet) (hne : arrived ≠ [])
    (hnear : ∀ p ∈ arrived, |seqDist newseq p.header.seq| ≤ 500) (k : UInt32)
    (as : List RecvAction) (tr : List FrameRecvEvent) (t : FrameRecv)
    (h : run (restrict (NoWrap k) step) start as = some (tr, t)) :
    (IsLeast {d | ∃ p ∈ queue arrived, d = seqDist newseq p.header.seq}
        (calcDiff (queue arrived) newseq) ↔ ¬ Straddles arrived) ∧
      (∀ p ∈ arrived, p.header.seq = newseq → (calcDiff (queue arrived) newseq ≤ 0 ↔
        ∀ q ∈ arrived, newseq.toNat < q.header.seq.toNat + 2 ^ 31)) ∧
      ∃ tr', run step start (as.map (RecvAction.shift k)) = some (tr', t.shift k) ∧
        List.Forall₂ (ShiftedEvent k) tr tr' := by
  refine ⟨calcDiff_isLeast_iff hne hnear, ?_, ?_⟩
  · intro p hp hseq
    exact calcDiff_nonpos_iff hnear hp hseq
  · exact run_shift (recvInv_of_pc (.inl rfl)) h

/-- The only packet of a sequence, with one byte. -/
def onePacket (seq : UInt32) : Packet where
  header :=
    { pktType := pktBroadcast
      pktLen := 1
      seq
      pktNum := 0
      pktTotal := 1
      timestamp := 0
      duration := 1 }
  payload := [7]

/-- The first packet that is received and the beginning of the next call. -/
theorem receive_mod_seq_first :
    (IsLeast {d | ∃ p ∈ queue [onePacket 5, onePacket 4], d = seqDist 4 p.header.seq}
        (calcDiff (queue [onePacket 5, onePacket 4]) 4) ↔ ¬ Straddles [onePacket 5, onePacket 4]) ∧
      ∃ tr', run step start ([.receive none 0, .getPacket (some (33, onePacket 4))].map
        (RecvAction.shift 3)) = some (tr', (FrameRecv.beginCall { start with pkts := [onePacket 4] }
          (fun _ => 0) (-1)).shift 3) ∧ List.Forall₂ (ShiftedEvent 3) [.tau, .tau] tr' := by
  have hone : OneSide 3 [onePacket 4] := by
    intro p hp q hq
    rw [List.mem_singleton.mp hp, List.mem_singleton.mp hq]
    omega
  have hreceive : restrict (NoWrap 3) step start (.receive none 0) = some (start.receive none 0) :=
    restrict_eq_some.mpr
      ⟨⟨fun p hp => absurd hp List.not_mem_nil, fun _ h => absurd h (Option.not_mem_none _)⟩, rfl⟩
  have hpacket : restrict (NoWrap 3) step (start.receive none 0).2
      (.getPacket (some (33, onePacket 4))) =
        some (.tau, FrameRecv.beginCall { start with pkts := [onePacket 4] } (fun _ => 0) (-1)) :=
    restrict_eq_some.mpr ⟨⟨hone, fun _ h => absurd h (Option.not_mem_none _)⟩, rfl⟩
  have hseq := receive_mod_seq 4 [onePacket 5, onePacket 4] (by decide) (by decide) 3 _ _ _
    (run_cons_of hreceive (run_cons_of hpacket (run_nil _ _)))
  exact ⟨hseq.1, hseq.2.2⟩

/-- The expected packet is hidden behind the next one. -/
theorem calcDiff_hides :
    (∀ p ∈ [onePacket 4294967295, onePacket 0], |seqDist 4294967295 p.header.seq| ≤ 500) ∧
      calcDiff (queue [onePacket 4294967295, onePacket 0]) 4294967295 = 1 ∧
      ∃ p ∈ queue [onePacket 4294967295, onePacket 0], seqDist 4294967295 p.header.seq = 0 := by
  decide

end FrameRecv

end AdvLigoRts.Daqd
