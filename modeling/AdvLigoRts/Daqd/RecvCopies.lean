import AdvLigoRts.Daqd.RecvShift

/-!
# Where the receiver writes

The copies that a turn of the main loop makes into the data array of the caller, and whether they
lie in it.
-/

namespace AdvLigoRts.Daqd

open PvLib

/-- Every byte of it lies in the first `maxlen`. -/
def Copy.Inside (x : Copy) (maxlen : ℤ) : Prop :=
  ∀ i < x.size, 0 ≤ x.start + i ∧ x.start + i < maxlen

namespace FrameRecv

/-- The copy of a packet payload into the receiver buffer, if there is one. -/
def packetCopies (c : RecvCall) (pkt : Packet) : List Copy :=
  let pktNum := pkt.header.pktNum
  if 0 ≤ pktNum ∧ c.pktCntrl[pktNum.toNat]? = some false then
    [payloadCopy pkt]
  else []

/-- The copies of the loop over the valid packets at the front of the packet buffer. -/
def takeCopies (alloc : Option (ℕ → UInt8)) (c : RecvCall) : List Packet → List Copy
  | [] => []
  | pkt :: pkts =>
    if calcDiff (pkt :: pkts) c.newseq = 0 then
      match firstPacket c alloc pkt with
      | .error _ => []
      | .ok c => packetCopies c pkt ++ takeCopies alloc (copyPacket c pkt) pkts
    else []

/-- The packets that a turn of the main loop has before it when it comes to the valid ones. -/
def inSync (s : FrameRecv) (c : RecvCall) : List Packet :=
  let diff := calcDiff s.pkts c.newseq
  if s.pkts = [] then []
  else if diff ≥ 1 ∧ c.len = 0 then []
  else if |diff| > maxSequenceOutOfSync then []
  else skipOld c.newseq s.pkts

/-- The turn takes the first packet of its sequence, into a data array of the caller, and the
packets that it announces have `size` bytes. -/
def Announces (s : FrameRecv) (c : RecvCall) (size : ℤ) : Prop :=
  s.pc = .turn c ∧ 0 < c.maxlen ∧ c.firstPacket = true ∧
    ∃ pkt pkts, s.inSync c = pkt :: pkts ∧ calcDiff (pkt :: pkts) c.newseq = 0 ∧
      size = pkt.header.pktTotal * packetSize

/-- A step copies into the data array only, and it refuses a sequence that is too long for it with
the negative of `needed size` and without a copy. -/
def Safe (needed : ℤ → ℤ) (s : FrameRecv) (a : RecvAction) : Prop :=
  ∀ c expired alloc sent, s.pc = .turn c → a = .turn expired alloc sent → 0 < c.maxlen →
    (∀ x ∈ takeCopies alloc c (s.inSync c), x.Inside c.maxlen) ∧
      ∀ size, Announces s c size → c.maxlen < size →
        takeCopies alloc c (s.inSync c) = [] ∧
          s.turn c expired alloc sent = fail { s with pkts := s.inSync c } c (-needed size)

/-- The state after a step, which an action whose turn it is not leaves as it is. -/
def next (s : FrameRecv) (a : RecvAction) : FrameRecv :=
  match step s a with
  | some (_, t) => t
  | none => s

/-- The bounds of the types: a datagram is no longer than a packet, and `maxlen` is an `int`. -/
def Accepted : RecvAction → Prop
  | .receive _ maxlen => maxlen < 2 ^ 31
  | .getPacket (some (n, _)) => n ≤ sizeofPacketHeader + packetSize
  | _ => True

section Bounds

variable {s : FrameRecv} {c c' : RecvCall} {pkt : Packet} {pkts rest : List Packet}
  {alloc : Option (ℕ → UInt8)}

/-- Packet control is no larger than the data array. -/
structure CallBounded (c : RecvCall) : Prop where
  maxlen : c.maxlen < 2 ^ 31
  room : c.firstPacket = false → 0 < c.maxlen → c.pktCntrl.length * packetSize ≤ c.maxlen

def PktBounded (pkt : Packet) : Prop := 0 ≤ pkt.header.pktLen ∧ pkt.header.pktLen ≤ packetSize

/-- The packet buffer and the call in progress. -/
structure RecvBounded (s : FrameRecv) : Prop where
  pkts : ∀ p ∈ s.pkts, PktBounded p
  call : ∀ c, s.pc = .poll c ∨ s.pc = .turn c → CallBounded c
  maxlen : ∀ data maxlen, s.pc = .first data maxlen → maxlen < 2 ^ 31

theorem packetSize_eq : (packetSize : ℤ) = 64000 := rfl

/-! ## The loop over the packets -/

theorem CallBounded.firstPacket (h : CallBounded c)
    (hwrap : c.firstPacket = true → 0 < c.maxlen → c.maxlen < pkt.header.pktTotal * packetSize →
      c.maxlen < int32 (pkt.header.pktTotal * packetSize))
    (hok : firstPacket c alloc pkt = .ok c') :
    CallBounded c' ∧ c'.maxlen = c.maxlen ∧ c'.firstPacket = false := by
  unfold FrameRecv.firstPacket at hok
  dsimp only at hok
  split at hok
  · next hfirst =>
    split at hok
    · cases hok
    · next hshort =>
      split at hok
      · cases hok
      · split at hok
        · cases hok
        · next hnonneg =>
          cases hok
          refine ⟨⟨h.maxlen, fun _ hpos => ?_⟩, rfl, rfl⟩
          have hfits : ¬ c.maxlen < pkt.header.pktTotal * packetSize := fun hlong =>
            hshort ⟨hpos, hwrap hfirst hpos hlong⟩
          show ((List.replicate pkt.header.pktTotal.toNat false).length : ℤ) * packetSize ≤ c.maxlen
          rw [List.length_replicate, Int.toNat_of_nonneg (by omega)]
          omega
  · next hfirst =>
    cases hok
    exact ⟨h, rfl, by simpa using hfirst⟩

theorem CallBounded.copyPacket (h : CallBounded c) (pkt : Packet) :
    CallBounded (copyPacket c pkt) ∧ (copyPacket c pkt).maxlen = c.maxlen := by
  have hpayload : CallBounded (copyPayload c pkt) ∧ (copyPayload c pkt).maxlen = c.maxlen := by
    unfold copyPayload
    dsimp only
    split
    · refine ⟨⟨h.maxlen, fun hfirst hpos => ?_⟩, rfl⟩
      show ((c.pktCntrl.set _ true).length : ℤ) * packetSize ≤ c.maxlen
      rw [List.length_set]
      exact h.room hfirst hpos
    · exact ⟨h, rfl⟩
  unfold FrameRecv.copyPacket
  dsimp only
  split
  · exact ⟨⟨hpayload.1.maxlen, hpayload.1.room⟩, hpayload.2⟩
  · exact hpayload

/-- A packet with a number of the sequence has its place in the data array. -/
theorem CallBounded.packetCopies (h : CallBounded c) (hfirst : c.firstPacket = false)
    (hpos : 0 < c.maxlen) (hpkt : PktBounded pkt) :
    ∀ x ∈ packetCopies c pkt, x.Inside c.maxlen := by
  intro x hx
  unfold FrameRecv.packetCopies at hx
  dsimp only at hx
  split at hx
  · next hnew =>
    obtain rfl := List.mem_singleton.mp hx
    obtain ⟨hnum, hget⟩ := hnew
    obtain ⟨hlow, hhigh⟩ := hpkt
    have hlt : pkt.header.pktNum.toNat < c.pktCntrl.length :=
      (List.getElem?_eq_some_iff.mp hget).1
    have hroom := h.room hfirst hpos
    have hmax := h.maxlen
    rw [packetSize_eq] at *
    have hexact : int32 (pkt.header.pktNum * 64000) = pkt.header.pktNum * 64000 :=
      int32_eq (by omega) (by omega)
    intro i hi
    dsimp only [payloadCopy] at hi ⊢
    rw [packetSize_eq, hexact]
    omega
  · cases hx

/-- The loop copies into the data array, and packet control stays no larger. -/
theorem CallBounded.takePackets (h : CallBounded c) (hpkts : ∀ p ∈ pkts, PktBounded p)
    (hwrap : ∀ pkt rest, pkts = pkt :: rest → calcDiff (pkt :: rest) c.newseq = 0 →
      c.firstPacket = true → 0 < c.maxlen → c.maxlen < pkt.header.pktTotal * packetSize →
      c.maxlen < int32 (pkt.header.pktTotal * packetSize)) :
    (0 < c.maxlen → ∀ x ∈ takeCopies alloc c pkts, x.Inside c.maxlen) ∧
      (∀ p ∈ (FrameRecv.takePackets alloc c pkts).2, p ∈ pkts) ∧
      ∀ c', (FrameRecv.takePackets alloc c pkts).1 = .ok c' → CallBounded c' := by
  induction pkts generalizing c with
  | nil => exact ⟨by simp [takeCopies], fun p hp => hp, fun c' hc' => Except.ok.inj hc' ▸ h⟩
  | cons pkt pkts ih =>
    unfold FrameRecv.takePackets takeCopies
    split
    · next hdiff =>
      cases hfirst : FrameRecv.firstPacket c alloc pkt with
      | error value => exact ⟨by simp, fun p hp => hp, by simp⟩
      | ok c' =>
        obtain ⟨hc', hmaxlen, hbegun⟩ := h.firstPacket (hwrap pkt pkts rfl hdiff) hfirst
        obtain ⟨hcopy, hmaxlen'⟩ := hc'.copyPacket pkt
        have hbegun' : (FrameRecv.copyPacket c' pkt).firstPacket = false := by
          rw [(copyPacket_frame c' pkt).2, hbegun]
        obtain ⟨hcopies, hrest, hresult⟩ := ih hcopy
          (fun p hp => hpkts p (List.mem_cons_of_mem pkt hp))
          (fun _ _ _ _ htrue => absurd (hbegun'.symm.trans htrue) (by decide))
        rw [hmaxlen', hmaxlen] at hcopies
        refine ⟨fun hpos x hx => ?_, fun p hp => List.mem_cons_of_mem pkt (hrest p hp), hresult⟩
        rcases List.mem_append.mp hx with hx | hx
        · have hinside := hc'.packetCopies hbegun (hmaxlen ▸ hpos) (hpkts pkt List.mem_cons_self)
          rw [hmaxlen] at hinside
          exact hinside x hx
        · exact hcopies hpos x hx
    · exact ⟨by simp, fun p hp => hp, fun c' hc' => Except.ok.inj hc' ▸ h⟩

/-! ## A turn -/

theorem turn_of_inSync (hsync : s.inSync c = pkt :: pkts) (expired sent : Bool) :
    s.turn c expired alloc sent =
      match takePackets alloc c (pkt :: pkts) with
      | (.error (some value), pkts) => fail { s with pkts } c value
      | (.error none, pkts) => (.exited, { s with pkts, pc := .exited })
      | (.ok c, pkts) =>
        let c := if calcDiff pkts c.newseq > 0 ∧ c.len ≠ 0 then { c with seqDone := true } else c
        finish { s with pkts } c expired sent := by
  unfold inSync at hsync
  dsimp only at hsync
  unfold turn
  dsimp only
  split at hsync
  · cases hsync
  · next hne =>
    split at hsync
    · cases hsync
    · next hlate =>
      split at hsync
      · cases hsync
      · next hnear =>
        rw [if_neg hne, if_neg hlate, if_neg hnear]
        generalize skipOld c.newseq s.pkts = valid at hsync
        subst hsync
        rfl

theorem mem_inSync {p : Packet} (h : p ∈ s.inSync c) : p ∈ s.pkts := by
  unfold inSync at h
  dsimp only at h
  split at h
  · cases h
  split at h
  · cases h
  split at h
  · cases h
  · exact mem_skipOld h

theorem finish_pkts (s : FrameRecv) (c : RecvCall) (expired sent : Bool) :
    (finish s c expired sent).2.pkts = s.pkts := by
  unfold finish
  dsimp only
  split
  · rfl
  split
  · rfl
  generalize (if c.retry > 0 ∧ !c.retryExpired then expired else c.retryExpired) = retryExpired
  split
  · rfl
  split
  · unfold ask fail
    split
    · rfl
    · rfl
  · rfl

theorem takePackets_length (alloc : Option (ℕ → UInt8)) (c : RecvCall) (pkts : List Packet) :
    (takePackets alloc c pkts).2.length ≤ pkts.length := by
  induction pkts generalizing c with
  | nil => exact le_rfl
  | cons pkt pkts ih =>
    unfold takePackets
    split
    · split
      · exact le_rfl
      · exact (ih _).trans (Nat.le_succ _)
    · exact le_rfl

theorem firstPacket_refuses (hfirst : c.firstPacket = true) (hpos : 0 < c.maxlen)
    (hlong : c.maxlen < int32 (pkt.header.pktTotal * packetSize)) :
    firstPacket c alloc pkt = .error (some (-int32 (pkt.header.pktTotal * packetSize))) := by
  unfold firstPacket
  rw [if_pos hfirst]
  exact if_pos ⟨hpos, hlong⟩

theorem firstPacket_takes (hfirst : c.firstPacket = true) (hpos : 0 < c.maxlen)
    (hshort : ¬ c.maxlen < int32 (pkt.header.pktTotal * packetSize))
    (htotal : ¬ pkt.header.pktTotal < 0) : ∃ c', firstPacket c alloc pkt = .ok c' := by
  unfold firstPacket
  dsimp only
  rw [if_pos hfirst, if_neg fun h => hshort h.2, if_neg (show ¬ c.maxlen = -1 by omega)]
  exact ⟨_, if_neg htotal⟩

/-- The turn takes packets that the announced number does not fit, or says so, as the wrapped
size is. -/
def Refusable (needed : ℤ → ℤ) (s : FrameRecv) (a : RecvAction) : Prop :=
  ∀ c expired alloc sent size, a = .turn expired alloc sent → Announces s c size →
    c.maxlen < size → c.maxlen < int32 size ∧ int32 size = needed size

/-- A turn that refuses leaves the packets where they are. -/
theorem refusable_of_safe {needed : ℤ → ℤ} {a : RecvAction} (h : Safe needed s a) :
    Refusable needed s a := by
  intro c expired alloc sent size ha hann hlong
  obtain ⟨hpc, hpos, hfirst, pkt, pkts, hsync, hdiff, rfl⟩ := hann
  have hturn := ((h c expired alloc sent hpc ha hpos).2 _
    ⟨hpc, hpos, hfirst, pkt, pkts, hsync, hdiff, rfl⟩ hlong).2
  rw [turn_of_inSync hsync, takePackets, if_pos hdiff, hsync] at hturn
  by_cases hrefuse : c.maxlen < int32 (pkt.header.pktTotal * packetSize)
  · rw [firstPacket_refuses hfirst hpos hrefuse] at hturn
    have hevent := congrArg Prod.fst hturn
    simp only [fail, FrameRecvEvent.returned.injEq] at hevent
    exact ⟨hrefuse, by omega⟩
  · have htotal : ¬ pkt.header.pktTotal < 0 := by
      rw [packetSize_eq] at hlong
      omega
    obtain ⟨c', hok⟩ := @firstPacket_takes _ _ alloc hfirst hpos hrefuse htotal
    rw [hok] at hturn
    have hlength := takePackets_length alloc (copyPacket c' pkt) pkts
    have hpkts := congrArg (fun r => r.2.pkts.length) hturn
    dsimp only [fail] at hpkts
    generalize takePackets alloc (copyPacket c' pkt) pkts = result at *
    obtain ⟨result, rest⟩ := result
    dsimp only at hlength
    rw [List.length_cons] at hpkts
    exfalso
    cases result with
    | error value =>
      cases value with
      | none =>
        dsimp only at hpkts
        omega
      | some value =>
        dsimp only [fail] at hpkts
        omega
    | ok c'' =>
      dsimp only at hpkts
      rw [finish_pkts] at hpkts
      dsimp only at hpkts
      omega

theorem safe_of_refusable {needed : ℤ → ℤ} {a : RecvAction} (hs : RecvBounded s)
    (h : Refusable needed s a) : Safe needed s a := by
  intro c expired alloc sent hpc ha hpos
  have hcall := hs.call c (.inr hpc)
  constructor
  · have hloop := @CallBounded.takePackets _ (s.inSync c) alloc hcall
      (fun p hp => hs.pkts p (mem_inSync hp)) ?_
    · exact hloop.1 hpos
    · intro pkt rest hsync hdiff hfirst _ hlong
      exact (h c expired alloc sent _ ha ⟨hpc, hpos, hfirst, pkt, rest, hsync, hdiff, rfl⟩ hlong).1
  · intro size hann hlong
    obtain ⟨hrefuse, hneeded⟩ := h c expired alloc sent size ha hann hlong
    obtain ⟨-, -, hfirst, pkt, pkts, hsync, hdiff, rfl⟩ := hann
    have herror := @firstPacket_refuses _ _ alloc hfirst hpos hrefuse
    rw [turn_of_inSync hsync, hsync, takePackets, takeCopies, if_pos hdiff, if_pos hdiff, herror,
      hneeded]
    exact ⟨rfl, rfl⟩

/-! ## The steps -/

theorem recvBounded_of_call (hpkts : ∀ p ∈ s.pkts, PktBounded p) (hc : CallBounded c)
    (hpc : s.pc = .poll c ∨ s.pc = .turn c) : RecvBounded s := by
  refine ⟨hpkts, ?_, ?_⟩
  · intro c' hc'
    have heq : c = c' := by
      rcases hpc with hpc | hpc
      · rw [hpc] at hc'
        simpa using hc'
      · rw [hpc] at hc'
        simpa using hc'
    exact heq ▸ hc
  · intro data maxlen hfirst
    rcases hpc with hpc | hpc
    all_goals
      rw [hpc] at hfirst
      cases hfirst

theorem recvBounded_of_pc (hpkts : ∀ p ∈ s.pkts, PktBounded p)
    (hpc : s.pc = .idle ∨ s.pc = .exited) : RecvBounded s := by
  refine ⟨hpkts, ?_, ?_⟩
  · intro c hc
    rcases hpc with hpc | hpc
    · rw [hpc] at hc
      simp at hc
    · rw [hpc] at hc
      simp at hc
  · intro data maxlen hfirst
    rcases hpc with hpc | hpc
    all_goals
      rw [hpc] at hfirst
      cases hfirst

/-- A call after some of its variables have changed that packet control does not depend on. -/
theorem CallBounded.setRetry (h : CallBounded c) (seqDone : Bool) (retry : ℕ)
    (retryExpired : Bool) : CallBounded { c with seqDone, retry, retryExpired } :=
  ⟨h.maxlen, h.room⟩

theorem ask_bounded (hpkts : ∀ p ∈ s.pkts, PktBounded p) (hc : CallBounded c) (nums : List ℤ)
    (sent : Bool) : RecvBounded (ask s c nums sent).2 := by
  unfold ask
  split
  · exact recvBounded_of_call hpkts (hc.setRetry c.seqDone (c.retry + 1) false) (.inl rfl)
  · exact recvBounded_of_pc hpkts (.inl rfl)

theorem finish_bounded (hpkts : ∀ p ∈ s.pkts, PktBounded p) (hc : CallBounded c)
    (expired sent : Bool) : RecvBounded (finish s c expired sent).2 := by
  unfold finish
  dsimp only
  split
  · exact recvBounded_of_call hpkts hc (.inl rfl)
  split
  · exact recvBounded_of_pc hpkts (.inl rfl)
  generalize (if c.retry > 0 ∧ !c.retryExpired then expired else c.retryExpired) = retryExpired
  split
  · exact recvBounded_of_pc hpkts (.inr rfl)
  split
  · exact ask_bounded hpkts hc ..
  · exact recvBounded_of_call hpkts (hc.setRetry c.seqDone c.retry retryExpired) (.inl rfl)

theorem turn_bounded {needed : ℤ → ℤ} {expired sent : Bool} (hs : RecvBounded s)
    (hpc : s.pc = .turn c) (hrefuse : Refusable needed s (.turn expired alloc sent)) :
    RecvBounded (turn s c expired alloc sent).2 := by
  have hcall := hs.call c (.inr hpc)
  cases hsync : s.inSync c with
  | cons pkt pkts =>
    have hbounded : ∀ p ∈ pkt :: pkts, PktBounded p := by
      intro p hp
      rw [← hsync] at hp
      exact hs.pkts p (mem_inSync hp)
    obtain ⟨-, hrest, hresult⟩ := @CallBounded.takePackets _ _ alloc hcall hbounded (by
      intro pkt' rest heq hdiff hfirst hpos hlong
      rw [← hsync] at heq
      exact (hrefuse c expired alloc sent _ rfl
        ⟨hpc, hpos, hfirst, pkt', rest, heq, hdiff, rfl⟩ hlong).1)
    rw [turn_of_inSync hsync]
    generalize takePackets alloc c (pkt :: pkts) = result at *
    obtain ⟨result, rest⟩ := result
    have hleft : ∀ p ∈ rest, PktBounded p := fun p hp => hbounded p (hrest p hp)
    cases result with
    | error value =>
      cases value with
      | none => exact recvBounded_of_pc hleft (.inr rfl)
      | some value => exact recvBounded_of_pc hleft (.inl rfl)
    | ok c' =>
      have hc' := hresult c' rfl
      dsimp only
      apply finish_bounded hleft
      split
      · exact hc'.setRetry true c'.retry c'.retryExpired
      · exact hc'
  | nil =>
    unfold inSync at hsync
    dsimp only at hsync
    unfold turn
    dsimp only
    split at hsync
    · next hempty =>
      rw [if_pos hempty]
      exact finish_bounded hs.pkts hcall ..
    · next hne =>
      rw [if_neg hne]
      split at hsync
      · next hlate =>
        rw [if_pos hlate]
        split
        · exact recvBounded_of_call hs.pkts (hcall.setRetry c.seqDone c.retry false) (.inl rfl)
        split
        · exact recvBounded_of_pc hs.pkts (.inr rfl)
        · exact ask_bounded hs.pkts hcall ..
      · next hlate =>
        rw [if_neg hlate]
        split at hsync
        · next hfar =>
          rw [if_pos hfar]
          exact recvBounded_of_pc hs.pkts (.inr rfl)
        · next hnear =>
          rw [if_neg hnear, hsync]
          exact recvBounded_of_call nofun hcall (.inl rfl)

theorem beginCall_bounded (hpkts : ∀ p ∈ s.pkts, PktBounded p) (data : ℕ → UInt8) {maxlen : ℤ}
    (hmaxlen : maxlen < 2 ^ 31) : RecvBounded (s.beginCall data maxlen) :=
  recvBounded_of_call (c := { data, maxlen, newseq := _ }) hpkts ⟨hmaxlen, nofun⟩ (.inl rfl)

theorem receive_bounded (hs : RecvBounded s) (data : Option (ℕ → UInt8)) {maxlen : ℤ}
    (hmaxlen : maxlen < 2 ^ 31) : RecvBounded (receive s data maxlen).2 := by
  have hmaxlen' : (if data.isNone then (-1 : ℤ) else maxlen) < 2 ^ 31 := by
    split
    · decide
    · exact hmaxlen
  unfold receive
  dsimp only
  generalize (if data.isNone then (-1 : ℤ) else maxlen) = maxlen' at *
  split
  · exact hs
  split
  · exact hs
  split
  · refine ⟨hs.pkts, by simp, ?_⟩
    intro data' maxlen'' hfirst
    cases hfirst
    exact hmaxlen'
  · exact beginCall_bounded hs.pkts _ hmaxlen'

theorem insertPkt_bounded (hs : RecvBounded s) {n : ℤ} (hn : n ≤ sizeofPacketHeader + packetSize)
    (hvalid : validPacket n pkt = true) : ∀ p ∈ insertPkt s.pkts pkt, PktBounded p := by
  intro p hp
  rcases mem_insertPkt hp with hp | rfl
  · exact hs.pkts p hp
  · simp only [validPacket, Bool.not_eq_true', Bool.or_eq_false_iff, decide_eq_false_iff_not,
      bne_eq_false_iff_eq] at hvalid
    constructor
    · omega
    · omega

theorem next_bounded {needed : ℤ → ℤ} {a : RecvAction} (hs : RecvBounded s) (ha : Accepted a)
    (hrefuse : Refusable needed s a) : RecvBounded (next s a) := by
  unfold next step
  split
  · next e t hstep =>
    split at hstep
    · next data maxlen hpc =>
      have hreceive := receive_bounded hs data ha
      rw [Option.some.inj hstep] at hreceive
      exact hreceive
    · next rcvd data maxlen hpc =>
      cases rcvd with
      | none =>
        cases hstep
        exact recvBounded_of_pc hs.pkts (.inl rfl)
      | some rcvd =>
        obtain ⟨n, pkt⟩ := rcvd
        dsimp only at hstep
        split at hstep
        · next hvalid =>
          cases hstep
          exact beginCall_bounded (s := { s with pkts := insertPkt s.pkts pkt })
            (insertPkt_bounded hs ha hvalid) data (hs.maxlen data maxlen hpc)
        · cases hstep
          exact hs
    · next rcvd c hpc =>
      have hcall := hs.call c (.inl hpc)
      split at hstep
      · cases hstep
        exact recvBounded_of_pc hs.pkts (.inr rfl)
      · cases rcvd with
        | none =>
          cases hstep
          exact recvBounded_of_call hs.pkts hcall (.inr rfl)
        | some rcvd =>
          obtain ⟨n, pkt⟩ := rcvd
          dsimp only at hstep
          split at hstep
          · next hvalid =>
            cases hstep
            exact recvBounded_of_call (insertPkt_bounded hs ha hvalid) hcall (.inr rfl)
          · cases hstep
            exact hs
    · next expired alloc sent c hpc =>
      have hturn := turn_bounded hs hpc hrefuse
      rw [Option.some.inj hstep] at hturn
      exact hturn
    · cases hstep
  · exact hs

theorem start_bounded : RecvBounded start := recvBounded_of_pc nofun (.inl rfl)

theorem safe_run_iff (needed : ℤ → ℤ) {as : List RecvAction} (h : ∀ a ∈ as, Accepted a) :
    StepsMeet next (Safe needed) start as ↔ StepsMeet next (Refusable needed) start as := by
  apply stepsMeet_iff_of_mem RecvBounded
  · intro s a _ hs
    exact ⟨refusable_of_safe, safe_of_refusable hs⟩
  · intro s a ha hs hrefuse
    exact next_bounded hs (h a ha) hrefuse
  · exact start_bounded

end Bounds

/-- The size that a sequence announces wraps to one that the data array holds. -/
def WrapsInto (s : FrameRecv) (a : RecvAction) : Prop :=
  ∃ c expired alloc sent size, a = .turn expired alloc sent ∧ Announces s c size ∧
    c.maxlen < size ∧ int32 size ≤ c.maxlen

/-- The size that a sequence announces is too long for the data array and not a value of type
`int`. -/
def TooLarge (s : FrameRecv) (a : RecvAction) : Prop :=
  ∃ c expired alloc sent size, a = .turn expired alloc sent ∧ Announces s c size ∧
    c.maxlen < size ∧ 2 ^ 31 ≤ size

/-- Whatever the packets say, a run writes into the data arrays of its callers only, and refuses
what is too long for them with the computed size, as long as no announced size wraps into the data
array; the size it returns then is the exact one as long as this is a value of type `int`. -/
theorem receive_inside_iff (as : List RecvAction) (h : ∀ a ∈ as, Accepted a) :
    (StepsMeet next (Safe int32) start as ↔
      StepsMeet next (fun s a => ¬ WrapsInto s a) start as) ∧
    (StepsMeet next (Safe id) start as ↔ StepsMeet next (fun s a => ¬ TooLarge s a) start as) := by
  have hcongr : ∀ {P Q : FrameRecv → RecvAction → Prop}, (∀ s a, P s a ↔ Q s a) →
      (StepsMeet next P start as ↔ StepsMeet next Q start as) := fun hPQ =>
    stepsMeet_iff (fun _ => True) (fun s a _ => hPQ s a) (fun _ _ _ _ => trivial) trivial
  constructor
  · rw [safe_run_iff int32 h]
    apply hcongr
    intro s a
    constructor
    · rintro hrefuse ⟨c, expired, alloc, sent, size, ha, hann, hlong, hwrap⟩
      have := (hrefuse c expired alloc sent size ha hann hlong).1
      omega
    · intro hnot c expired alloc sent size ha hann hlong
      refine ⟨?_, rfl⟩
      by_contra hwrap
      exact hnot ⟨c, expired, alloc, sent, size, ha, hann, hlong, by omega⟩
  · rw [safe_run_iff id h]
    apply hcongr
    intro s a
    constructor
    · rintro hrefuse ⟨c, expired, alloc, sent, size, ha, hann, hlong, hlarge⟩
      have hexact : int32 size = size := (hrefuse c expired alloc sent size ha hann hlong).2
      have hbound : int32 size < 2 ^ 31 := by
        have := Int.bmod_lt (x := size) (m := 2 ^ 32) (by decide)
        unfold int32
        omega
      omega
    · intro hnot c expired alloc sent size ha hann hlong
      have hpos := hann.2.1
      have hsmall : size < 2 ^ 31 := by
        by_contra hlarge
        exact hnot ⟨c, expired, alloc, sent, size, ha, hann, hlong, by omega⟩
      have hexact : int32 size = size := int32_eq (by omega) hsmall
      exact ⟨by omega, hexact⟩

def bytePacket (seq : UInt32) (pktNum pktTotal : ℤ) : Packet where
  header :=
    { pktType := pktBroadcast
      pktLen := 1
      seq
      pktNum
      pktTotal
      timestamp := 0
      duration := 1 }
  payload := [7]

/-- A call with a data array for one packet, and a sequence of 67109 packets of 64000 bytes, which
are 8704 bytes in type `int`. -/
def wrapRun : List RecvAction :=
  [.receive (some fun _ => 0) 64000, .getPacket (some (33, bytePacket 4 0 1)),
    .getPacket (some (33, bytePacket 5 1 67109)), .turn true none true]

theorem wrapRun_accepted : ∀ a ∈ wrapRun, Accepted a := by
  simp [wrapRun, Accepted, sizeofPacketHeader, packetSize]

theorem receive_inside_wrapRun :
    (StepsMeet next (Safe int32) start wrapRun ↔
      StepsMeet next (fun s a => ¬ WrapsInto s a) start wrapRun) ∧
    (StepsMeet next (Safe id) start wrapRun ↔
      StepsMeet next (fun s a => ¬ TooLarge s a) start wrapRun) :=
  receive_inside_iff wrapRun wrapRun_accepted

/-- Its second packet is written behind the data array. -/
theorem wrapRun_not_safe :
    (∀ a ∈ wrapRun, Accepted a) ∧ ¬ StepsMeet next (Safe int32) start wrapRun := by
  refine ⟨by simp [wrapRun, Accepted, sizeofPacketHeader, packetSize], ?_⟩
  rintro ⟨-, -, -, hsafe, -⟩
  have hinside := (hsafe _ true none true rfl rfl (by decide)).1 ⟨64000, 1⟩ (by decide +kernel) 0
    (by decide)
  exact absurd hinside.2 (by decide)

end FrameRecv

end AdvLigoRts.Daqd
