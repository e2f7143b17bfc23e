import AdvLigoRts.Daqd.FrameRecvTheorems

/-!
# The frame broadcast

One transmitter and one receiver, joined by a network that may lose, duplicate, delay and reorder
datagrams but does not alter them: every packet that has ever been sent may arrive at any time,
as often as it likes, or never. The receiver then returns the buffers as they were sent, one
after the other.
-/

namespace AdvLigoRts.Daqd

open PvLib

/-- `packets` and `requests` are all datagrams that have been sent to the one side and to the
other. -/
structure FrameXmit where
  snd : FrameSend
  rcv : FrameRecv
  packets : List Packet
  requests : List RetransmitPacket

inductive XmitAction
  | snd (a : SendAction)
  | rcv (a : RecvAction)

inductive XmitEvent
  | snd (e : SendEvent)
  | rcv (e : FrameRecvEvent)

namespace FrameXmit

def start (maxBuffers : ℕ) : FrameXmit where
  snd := FrameSend.start maxBuffers
  rcv := FrameRecv.start
  packets := []
  requests := []

/-- The network delivers what has been sent to it. -/
def delivers (s : FrameXmit) : XmitAction → Bool
  | .snd (.poll (some (n, rpkt))) =>
    decide (rpkt ∈ s.requests ∧ n = sizeofPacketHeader + rpkt.header.pktLen)
  | .rcv (.getPacket (some (n, pkt))) =>
    decide (pkt ∈ s.packets ∧ n = sizeofPacketHeader + pkt.header.pktLen)
  | _ => true

def wirePackets : SendEvent → List Packet
  | .wire pkt => [pkt]
  | _ => []

def wireRequests : FrameRecvEvent → List RetransmitPacket
  | .request rpkt => [rpkt]
  | _ => []

/-- One step of either side. -/
def step (packetBurst : ℤ) (s : FrameXmit) (a : XmitAction) : Option (XmitEvent × FrameXmit) :=
  if s.delivers a then
    match a with
    | .snd a =>
      (FrameSend.step packetBurst s.snd a).map fun (e, snd) =>
        (.snd e, { s with snd, packets := s.packets ++ wirePackets e })
    | .rcv a =>
      (FrameRecv.step s.rcv a).map fun (e, rcv) =>
        (.rcv e, { s with rcv, requests := s.requests ++ wireRequests e })
  else none

/-- What the transmitter has shown. -/
def sndTrace (tr : List XmitEvent) : List SendEvent :=
  tr.filterMap fun
    | .snd e => some e
    | .rcv _ => none

/-- What the receiver has shown. -/
def rcvTrace (tr : List XmitEvent) : List FrameRecvEvent :=
  tr.filterMap fun
    | .snd _ => none
    | .rcv e => some e

def bufs (tr : List XmitEvent) : List Buffer := FrameSend.sentBuffers (sndTrace tr)

/-- The sequence numbers that successful calls of `receive` have returned. -/
def successes (tr : List XmitEvent) : List UInt32 := (rcvTrace tr).filterMap FrameRecv.success

section Transmitter

variable {packetBurst : ℤ} {maxBuffers : ℕ} {tr : List SendEvent} {s t : FrameSend}
  {a : SendAction} {e : SendEvent}

/-- The steps of the transmitter that matter to the network. -/
structure SendShows (s : FrameSend) (a : SendAction) (e : SendEvent) (t : FrameSend) : Prop where
  running : s.aborted = false
  abort : e = .abort → t.aborted = true
  queued : ∀ b dropped, e = .queued b dropped → ∃ data used timestamp duration,
    a = .send data used timestamp duration ∧ b.data = data
  wire : ∀ p ∈ wirePackets e, p ∈ s.heldBurst ∨ p ∈ s.heldRetransmit
  request : ∀ rpkt, t.daemon = .request rpkt →
    s.daemon = .request rpkt ∨ ∃ n, a = .poll (some (n, rpkt))
  answered : ∀ rpkt pkts, e = .answered rpkt pkts →
    s.daemon = .request rpkt ∧ s.answer rpkt = some pkts

theorem sendShows_of_send {data : List UInt8} {used : Option ℕ} {timestamp duration : UInt32}
    (hrun : s.aborted = false) (h : s.send data used timestamp duration = (e, t)) :
    SendShows s (.send data used timestamp duration) e t := by
  unfold FrameSend.send at h
  split at h
  · obtain ⟨-, rfl, rfl⟩ | ⟨c, -, -, rfl, rfl⟩ | ⟨c, -, -, -, rfl, rfl⟩ | ⟨rfl, rfl⟩ :=
      FrameSend.sendBuffer_cases h
    iterate 3
      · refine ⟨hrun, nofun, ?_, nofun, fun _ => Or.inl, nofun⟩
        rintro b dropped ⟨⟩
        exact ⟨data, used, timestamp, duration, rfl, rfl⟩
    · exact ⟨hrun, fun _ => rfl, nofun, nofun, fun _ => Or.inl, nofun⟩
  · cases h
    exact ⟨hrun, nofun, nofun, nofun, fun _ => Or.inl, nofun⟩

theorem sendShows_of_put {ok : Bool} {pkts : List Packet} {next : List Packet → DaemonPc}
    {done : DaemonPc} (hrun : s.aborted = false)
    (hheld : ∀ p ∈ pkts, p ∈ s.heldBurst ∨ p ∈ s.heldRetransmit)
    (hnext : ∀ rest rpkt, next rest ≠ .request rpkt) (hdone : ∀ rpkt, done ≠ .request rpkt)
    (h : s.put ok next done pkts = (e, t)) : SendShows s (.put ok) e t := by
  obtain ⟨-, rfl, rfl⟩ | ⟨pkt, rest, rfl, rfl, rfl⟩ | ⟨rfl, rfl⟩ := FrameSend.put_cases h
  · exact ⟨hrun, by simp, by simp, by simp [wirePackets], by simp [hdone], by simp⟩
  · refine ⟨hrun, by simp, by simp, ?_, by simp [hnext], by simp⟩
    intro p hp
    obtain rfl := List.mem_singleton.mp hp
    exact hheld _ List.mem_cons_self
  · exact ⟨hrun, by simp, by simp, by simp [wirePackets], by simp, by simp⟩

theorem sendShows (h : FrameSend.step packetBurst s a = some (e, t)) : SendShows s a e t := by
  have hrun : s.aborted = false := by
    by_contra habort
    simp [FrameSend.step, habort] at h
  obtain ⟨data, used, timestamp, duration, rfl, hsend⟩ | ⟨rfl, -, rfl, rfl⟩ |
    ⟨ok, pkts, rfl, hpc, hput⟩ | ⟨ok, pkts, rfl, hpc, hput⟩ |
    ⟨rcvd, pc, rfl, -, rfl, rfl, hnext⟩ | ⟨rpkt, rfl, -, -, rfl, rfl⟩ |
    ⟨rpkt, pkts, rfl, hpc, hanswer, rfl, rfl⟩ := FrameSend.step_cases h
  · exact sendShows_of_send hrun hsend
  · refine ⟨hrun, by simp, by simp, by simp [wirePackets], ?_, by simp⟩
    intro rpkt hpc
    unfold FrameSend.assemble at hpc
    split at hpc
    · cases hpc
    · split at hpc <;> cases hpc
  · refine sendShows_of_put hrun (fun p hp => Or.inl ?_) (by simp) (by simp) hput
    rwa [FrameSend.heldBurst, hpc]
  · refine sendShows_of_put hrun (fun p hp => Or.inr ?_) (by simp) (by simp) hput
    rwa [FrameSend.heldRetransmit, hpc]
  · refine ⟨hrun, by simp, by simp, by simp [wirePackets], ?_, by simp⟩
    rintro rpkt hpc
    obtain rfl | ⟨n, rpkt', rfl, -, rfl⟩ := hnext
    · cases hpc
    · cases hpc
      exact Or.inr ⟨n, rfl⟩
  · exact ⟨hrun, by simp, by simp, by simp [wirePackets], by simp, by simp⟩
  · refine ⟨hrun, by simp, by simp, by simp [wirePackets], by simp, ?_⟩
    rintro rpkt' pkts' ⟨⟩
    exact ⟨hpc, hanswer⟩

theorem retransmitPacket_genuine {b : Buffer} (hlen : b.LenOk) {rpkt : RetransmitPacket}
    (hseq : b.seq = rpkt.header.seq) {k : ℤ} (hk : 0 ≤ k ∧ k < 33554) {pkt : Packet}
    (h : FrameSend.retransmitPacket b rpkt k = some pkt) :
    ∃ k < b.count, ∃ pktType, pkt = b.packet pktType k := by
  obtain ⟨k, rfl⟩ := Int.eq_ofNat_of_zero_le hk.1
  by_cases hlt : k < b.count
  · rw [FrameSend.retransmitPacket_eq hlen hseq hlt] at h
    exact ⟨k, hlt, pktRebroadcast, (Option.some.inj h).symm⟩
  · -- behind the last packet nothing is left of the data
    have hcover : b.data.length ≤ k * packetSize := Nat.le_of_not_lt fun hbelow =>
      hlt (Buffer.lt_count_iff.mpr hbelow)
    obtain ⟨hnum, hoff, hrest⟩ := hlen.int32_packet (k := k) (by omega)
    simp only [FrameSend.retransmitPacket, hlen.pktTotal_eq, hnum, hoff, hrest] at h
    have hnone : (if (k : ℤ) + 1 ≥ b.count then b.len - k * packetSize else packetSize) ≤ 0 := by
      rw [if_pos (by omega)]
      unfold Buffer.len
      omega
    rw [if_neg (by omega), if_pos (Or.inl hnone)] at h
    cases h

theorem genuine_answer {bufs : List Buffer} (h : FrameSend.QueueOk maxBuffers bufs s)
    {rpkt : RetransmitPacket} (hrequest : FrameRecv.RequestOk rpkt) {pkts : List Packet}
    (hanswer : s.answer rpkt = some pkts) : ∀ p ∈ pkts, Genuine bufs p := by
  obtain ⟨b, hb, hseq, rfl⟩ := FrameSend.answer_cases hanswer
  intro p hp
  obtain ⟨k, hk, hpkt⟩ := List.mem_filterMap.mp hp
  obtain ⟨k', hlt, pktType, rfl⟩ :=
    retransmitPacket_genuine (h.lenOk_of_mem hb) hseq (hrequest k hk) hpkt
  exact ⟨b.fresh, h.mem_fresh hb, k', hlt, pktType, rfl⟩

theorem genuine_held (h : FrameSend.Inv maxBuffers tr s)
    (hanswers : ∀ p ∈ FrameSend.answers tr, Genuine (FrameSend.sentBuffers tr) p) {p : Packet}
    (hp : p ∈ s.heldBurst ∨ p ∈ s.heldRetransmit) : Genuine (FrameSend.sentBuffers tr) p := by
  obtain hp | hp := hp
  · have hnot : s.daemon ≠ .ended := by
      intro hend
      simp [FrameSend.heldBurst, hend] at hp
    obtain ⟨left, hleft, hall⟩ := h.wire.wire
    have hmem : p ∈ (FrameSend.sentBuffers tr).flatMap Buffer.packets := by
      rw [← hleft, hall hnot]
      exact List.mem_append_right _ (List.mem_append_left _ hp)
    obtain ⟨b, hb, hpb⟩ := List.mem_flatMap.mp hmem
    obtain ⟨k, hk, rfl⟩ := List.mem_map.mp hpb
    exact ⟨b, hb, k, List.mem_range.mp hk, pktBroadcast, rfl⟩
  · have hnot : s.daemon ≠ .ended := by
      intro hend
      simp [FrameSend.heldRetransmit, hend] at hp
    obtain ⟨left, hleft, hall⟩ := h.wire.answered
    refine hanswers p ?_
    rw [← hleft, hall hnot]
    exact List.mem_append_right _ hp

end Transmitter

/-! ## The invariant -/

/-- The whole system after a run that has shown `tr`. -/
structure XmitOk (maxBuffers : ℕ) (tr : List XmitEvent) (s : FrameXmit) : Prop where
  sender : s.snd.aborted = false → FrameSend.Inv maxBuffers (sndTrace tr) s.snd
  numbered : Numbered (bufs tr)
  answers : ∀ p ∈ FrameSend.answers (sndTrace tr), Genuine (bufs tr) p
  request : ∀ rpkt, s.snd.daemon = .request rpkt → FrameRecv.RequestOk rpkt
  requests : ∀ rpkt ∈ s.requests, FrameRecv.RequestOk rpkt
  packets : ∀ p ∈ s.packets, Genuine (bufs tr) p
  receiver : FrameRecv.RecvOk (bufs tr) s.rcv
  delivered : ∀ value data sequence recvtime duration,
    .returned value data sequence recvtime duration ∈ rcvTrace tr → 0 ≤ value →
      FrameRecv.Delivered (bufs tr) value data sequence recvtime duration
  successes : (successes tr).IsChain fun q q' => q' = q + 1
  last : ∀ q ∈ (FrameXmit.successes tr).getLast?, s.rcv.first = false ∧ s.rcv.oldseq = q

section System

variable {packetBurst : ℤ} {maxBuffers : ℕ} {tr : List XmitEvent} {s t : FrameXmit}

theorem sndTrace_snd (tr : List XmitEvent) (e : SendEvent) :
    sndTrace (tr ++ [.snd e]) = sndTrace tr ++ [e] := by
  simp [sndTrace]

theorem sndTrace_rcv (tr : List XmitEvent) (e : FrameRecvEvent) :
    sndTrace (tr ++ [.rcv e]) = sndTrace tr := by
  simp [sndTrace]

theorem rcvTrace_snd (tr : List XmitEvent) (e : SendEvent) :
    rcvTrace (tr ++ [.snd e]) = rcvTrace tr := by
  simp [rcvTrace]

theorem rcvTrace_rcv (tr : List XmitEvent) (e : FrameRecvEvent) :
    rcvTrace (tr ++ [.rcv e]) = rcvTrace tr ++ [e] := by
  simp [rcvTrace]

theorem bufs_snd (tr : List XmitEvent) (e : SendEvent) :
    bufs (tr ++ [.snd e]) = bufs tr ++ FrameSend.sentBuffers [e] := by
  rw [bufs, sndTrace_snd, FrameSend.sentBuffers_append, bufs]

theorem queued_of_mem {e : SendEvent} {b : Buffer} (h : b ∈ FrameSend.sentBuffers [e]) :
    ∃ dropped, e = .queued b dropped := by
  obtain ⟨e', he', hb⟩ := List.mem_filterMap.mp h
  obtain rfl := List.mem_singleton.mp he'
  split at hb
  · cases hb
    exact ⟨_, rfl⟩
  · cases hb

theorem answered_of_mem {e : SendEvent} {p : Packet} (h : p ∈ FrameSend.answers [e]) :
    ∃ rpkt pkts, e = .answered rpkt pkts ∧ p ∈ pkts := by
  obtain ⟨e', he', hp⟩ := List.mem_flatMap.mp h
  obtain rfl := List.mem_singleton.mp he'
  split at hp
  · exact ⟨_, _, rfl, hp⟩
  · cases hp

theorem request_of_mem {e : FrameRecvEvent} {rpkt : RetransmitPacket} (h : rpkt ∈ wireRequests e) :
    e = .request rpkt := by
  unfold wireRequests at h
  split at h
  · rw [List.mem_singleton.mp h]
  · cases h

theorem xmitOk_start (maxBuffers : ℕ) : XmitOk maxBuffers [] (start maxBuffers) where
  sender := fun _ => FrameSend.inv_start maxBuffers
  numbered := ⟨nofun, by decide, nofun, nofun⟩
  answers := nofun
  request := nofun
  requests := nofun
  packets := nofun
  receiver := ⟨nofun, by simp [start, FrameRecv.start]⟩
  delivered := nofun
  successes := List.IsChain.nil
  last := nofun

theorem Delivered.append {bufs : List Buffer} {len : ℤ} {data : ℕ → UInt8}
    {sequence recvtime duration : UInt32}
    (h : FrameRecv.Delivered bufs len data sequence recvtime duration) (more : List Buffer) :
    FrameRecv.Delivered (bufs ++ more) len data sequence recvtime duration := by
  obtain ⟨b, hb, hrest⟩ := h
  exact ⟨b, List.getElem?_append_left (List.getElem?_eq_some_iff.mp hb).1 ▸ hb, hrest⟩

theorem RecvOk.append {bufs : List Buffer} {s : FrameRecv} (h : FrameRecv.RecvOk bufs s)
    (more : List Buffer) : FrameRecv.RecvOk (bufs ++ more) s where
  pkts := fun p hp => (h.pkts p hp).append more
  call := by
    intro c hc
    obtain ⟨hcall, hnewseq, hfirst⟩ := h.call c hc
    refine ⟨⟨hcall.fresh, fun hbegun => ?_⟩, hnewseq, hfirst⟩
    obtain ⟨b, hb, hrest⟩ := hcall.begun hbegun
    exact ⟨b, List.getElem?_append_left (List.getElem?_eq_some_iff.mp hb).1 ▸ hb, hrest⟩

theorem XmitOk.snd (h : XmitOk maxBuffers tr s) (hmax : 2 ≤ maxBuffers) {a : SendAction}
    (hlen : ∀ data used timestamp duration, a = .send data used timestamp duration →
      1 ≤ data.length ∧ data.length ≤ 2 ^ 31 - packetSize)
    (hpoll : ∀ n rpkt, a = .poll (some (n, rpkt)) → rpkt ∈ s.requests) {e : SendEvent}
    {snd : FrameSend} (hstep : FrameSend.step packetBurst s.snd a = some (e, snd))
    (hcount : (bufs (tr ++ [.snd e])).length < 2 ^ 31) :
    XmitOk maxBuffers (tr ++ [.snd e])
      { s with snd, packets := s.packets ++ wirePackets e } := by
  have hshows := sendShows hstep
  have hinv := h.sender hshows.running
  have hsent := bufs_snd tr e
  have hsuccesses : FrameXmit.successes (tr ++ [.snd e]) = FrameXmit.successes tr := by
    rw [FrameXmit.successes, rcvTrace_snd, FrameXmit.successes]
  have hstep' : e ≠ .abort → FrameSend.Inv maxBuffers (sndTrace tr ++ [e]) snd :=
    hinv.step hmax (fun data used timestamp duration ha => (hlen data used timestamp duration ha).2)
      hstep
  refine ⟨?_, ?_, ?_, ?_, h.requests, ?_, ?_, ?_, ?_, ?_⟩
  · intro hrun
    rw [sndTrace_snd]
    refine hstep' fun habort => ?_
    rw [hshows.abort habort] at hrun
    cases hrun
  · by_cases habort : e = .abort
    · rw [hsent, habort]
      simpa [FrameSend.sentBuffers] using h.numbered
    · have hqueue := (hstep' habort).queue
      rw [← sndTrace_snd] at hqueue
      refine ⟨hqueue.numbered, hcount, hqueue.lenOk, ?_⟩
      intro b hb
      rw [hsent] at hb
      obtain hb | hb := List.mem_append.mp hb
      · exact h.numbered.pos b hb
      · obtain ⟨dropped, hqueued⟩ := queued_of_mem hb
        obtain ⟨data, used, timestamp, duration, ha, hdata⟩ := hshows.queued b dropped hqueued
        rw [hdata]
        exact (hlen data used timestamp duration ha).1
  · rw [sndTrace_snd, FrameSend.answers_append, hsent]
    intro p hp
    obtain hp | hp := List.mem_append.mp hp
    · exact (h.answers p hp).append _
    · obtain ⟨rpkt, pkts, hanswered, hp⟩ := answered_of_mem hp
      obtain ⟨hpc, hanswer⟩ := hshows.answered rpkt pkts hanswered
      exact (genuine_answer hinv.queue (h.request rpkt hpc) hanswer p hp).append _
  · intro rpkt hpc
    obtain hpc | ⟨n, rfl⟩ := hshows.request rpkt hpc
    · exact h.request rpkt hpc
    · exact h.requests rpkt (hpoll n rpkt rfl)
  · rw [hsent]
    intro p hp
    obtain hp | hp := List.mem_append.mp hp
    · exact (h.packets p hp).append _
    · exact (genuine_held hinv h.answers (hshows.wire p hp)).append _
  · rw [hsent]
    exact RecvOk.append h.receiver _
  · rw [rcvTrace_snd, hsent]
    intro value data sequence recvtime duration hmem hvalue
    exact Delivered.append (h.delivered _ _ _ _ _ hmem hvalue) _
  · rw [hsuccesses]
    exact h.successes
  · rw [hsuccesses]
    exact h.last

theorem XmitOk.rcv (h : XmitOk maxBuffers tr s) {a : RecvAction}
    (hpkt : ∀ n p, a = .getPacket (some (n, p)) → p ∈ s.packets) {e : FrameRecvEvent}
    {rcv : FrameRecv} (hstep : FrameRecv.step s.rcv a = some (e, rcv)) :
    XmitOk maxBuffers (tr ++ [.rcv e])
      { s with rcv, requests := s.requests ++ wireRequests e } := by
  have hbufs : bufs (tr ++ [.rcv e]) = bufs tr := by rw [bufs, sndTrace_rcv, bufs]
  have hsuccesses : FrameXmit.successes (tr ++ [.rcv e])
      = FrameXmit.successes tr ++ (FrameRecv.success e).toList := by
    rw [FrameXmit.successes, rcvTrace_rcv, List.filterMap_append, FrameXmit.successes]
    cases hsuccess : FrameRecv.success e <;> simp [hsuccess]
  obtain ⟨hrecv, hshows⟩ := h.receiver.step h.numbered
    (fun n p ha => h.packets p (hpkt n p ha)) hstep
  refine ⟨?_, ?_, ?_, h.request, ?_, ?_, ?_, ?_, ?_, ?_⟩
  · rw [sndTrace_rcv]
    exact h.sender
  · rw [hbufs]
    exact h.numbered
  · rw [sndTrace_rcv, hbufs]
    exact h.answers
  · intro rpkt hmem
    obtain hmem | hmem := List.mem_append.mp hmem
    · exact h.requests rpkt hmem
    · exact hshows.request rpkt (request_of_mem hmem)
  · rw [hbufs]
    exact h.packets
  · rw [hbufs]
    exact hrecv
  · rw [rcvTrace_rcv, hbufs]
    intro value data sequence recvtime duration hmem hvalue
    obtain hmem | hmem := List.mem_append.mp hmem
    · exact h.delivered _ _ _ _ _ hmem hvalue
    · exact hshows.delivered _ _ _ _ _ (List.mem_singleton.mp hmem).symm hvalue
  · rw [hsuccesses]
    cases hsuccess : FrameRecv.success e with
    | none => simpa using h.successes
    | some q =>
      rw [Option.toList_some, List.isChain_append]
      refine ⟨h.successes, List.isChain_singleton q, ?_⟩
      rintro q₀ hq₀ _ ⟨⟩
      rw [(hshows.success q hsuccess).2.1, (h.last q₀ hq₀).2]
  · rw [hsuccesses]
    intro q hq
    cases hsuccess : FrameRecv.success e with
    | none =>
      rw [hsuccess, Option.toList_none, List.append_nil] at hq
      obtain ⟨hfirst, holdseq⟩ := h.last q hq
      exact ⟨hshows.first hfirst, (hshows.other hsuccess hfirst).trans holdseq⟩
    | some q' =>
      rw [hsuccess, Option.toList_some, List.getLast?_append_of_ne_nil] at hq
      · cases hq
        obtain ⟨hfirst, -, holdseq⟩ := hshows.success q' hsuccess
        exact ⟨hshows.first hfirst, holdseq⟩
      · simp

theorem XmitOk.step (h : XmitOk maxBuffers tr s) (hmax : 2 ≤ maxBuffers) {a : XmitAction}
    (hlen : ∀ data used timestamp duration, a = .snd (.send data used timestamp duration) →
      1 ≤ data.length ∧ data.length ≤ 2 ^ 31 - packetSize) {e : XmitEvent}
    (hstep : step packetBurst s a = some (e, t)) (hcount : (bufs (tr ++ [e])).length < 2 ^ 31) :
    XmitOk maxBuffers (tr ++ [e]) t := by
  unfold FrameXmit.step at hstep
  split at hstep
  · next hnet =>
    cases a with
    | snd a =>
      obtain ⟨⟨e', snd⟩, hsnd, heq⟩ := Option.map_eq_some_iff.mp hstep
      cases heq
      refine h.snd hmax ?_ ?_ hsnd hcount
      · rintro data used timestamp duration rfl
        exact hlen data used timestamp duration rfl
      · rintro n rpkt rfl
        exact (of_decide_eq_true hnet).1
    | rcv a =>
      obtain ⟨⟨e', rcv⟩, hrcv, heq⟩ := Option.map_eq_some_iff.mp hstep
      cases heq
      refine h.rcv ?_ hrcv
      rintro n p rfl
      exact (of_decide_eq_true hnet).1
  · cases hstep

/-- The sequence number of a successful call is that of a buffer. -/
theorem XmitOk.success_lt (h : XmitOk maxBuffers tr s) {q : UInt32}
    (hq : q ∈ FrameXmit.successes tr) : q.toNat < (bufs tr).length := by
  obtain ⟨e, he, hsuccess⟩ := List.mem_filterMap.mp hq
  unfold FrameRecv.success at hsuccess
  split at hsuccess
  · next value data sequence recvtime duration =>
    split at hsuccess
    · next hvalue =>
      cases hsuccess
      obtain ⟨b, hb, -⟩ := h.delivered _ _ _ _ _ he hvalue
      exact (List.getElem?_eq_some_iff.mp hb).1
    · cases hsuccess
  · cases hsuccess

/-- Every call of `receive` that returns a length has delivered the buffer that the transmitter
has numbered with the sequence number returned, and the sequence numbers of successive successful
calls are consecutive. -/
theorem receives_what_was_sent (packetBurst : ℤ) (maxBuffers : ℕ) (hmax : 2 ≤ maxBuffers)
    (acts : List XmitAction) (tr : List XmitEvent) (s : FrameXmit)
    (hlen : ∀ data used timestamp duration, .snd (.send data used timestamp duration) ∈ acts →
      1 ≤ data.length ∧ data.length ≤ 2 ^ 31 - packetSize)
    (hrun : run (step packetBurst) (start maxBuffers) acts = some (tr, s))
    (hcount : (bufs tr).length < 2 ^ 31) :
    (∀ value data sequence recvtime duration,
      .returned value data sequence recvtime duration ∈ rcvTrace tr → 0 ≤ value →
        FrameRecv.Delivered (bufs tr) value data sequence recvtime duration) ∧
    (successes tr).IsChain fun q q' => q'.toNat = q.toNat + 1 := by
  have hok : XmitOk maxBuffers tr s := by
    refine run_induction (fun tr s => (bufs tr).length < 2 ^ 31 → XmitOk maxBuffers tr s) ?_
      (fun _ => xmitOk_start maxBuffers) hrun hcount
    intro tr s a ha e t hok hstep hcount
    have hbefore : (bufs tr).length < 2 ^ 31 := by
      have hbufs : bufs (tr ++ [e]) = bufs tr ++ bufs [e] := by
        simp [bufs, sndTrace]
      rw [hbufs, List.length_append] at hcount
      omega
    refine (hok hbefore).step hmax ?_ hstep hcount
    rintro data used timestamp duration rfl
    exact hlen data used timestamp duration ha
  refine ⟨hok.delivered, ?_⟩
  refine hok.successes.imp_of_mem_imp fun q q' hq hq' heq => ?_
  have hlt := hok.success_lt hq
  rw [heq, UInt32.toNat_add, UInt32.toNat_one]
  omega

/-- Two buffers of different lengths, of which the receiver sees the first packet each. -/
def twoBuffers : List XmitAction :=
  [.snd (.send [1] none 5 1), .snd .assemble, .snd (.put true), .snd (.put true),
    .snd (.poll none), .snd (.send [2, 3] none 6 1), .snd .assemble, .snd (.put true),
    .rcv (.receive none 0),
    .rcv (.getPacket (some (33, Buffer.packet pktBroadcast ⟨0, [1], none, 5, 1, 0⟩ 0))),
    .rcv (.getPacket (some (34, Buffer.packet pktBroadcast ⟨1, [2, 3], none, 6, 1, 0⟩ 0))),
    .rcv (.turn false (some fun _ => 0) true)]

theorem receives_what_was_sent_two : ∃ tr s,
    run (step 1) (start 2) twoBuffers = some (tr, s) ∧ successes tr = [1] ∧
    ∀ value data sequence recvtime duration,
      .returned value data sequence recvtime duration ∈ rcvTrace tr → 0 ≤ value →
        FrameRecv.Delivered (bufs tr) value data sequence recvtime duration := by
  have hrun : ∃ r, run (step 1) (start 2) twoBuffers = some r ∧ successes r.1 = [1] ∧
      (bufs r.1).length < 2 ^ 31 := ⟨_, rfl, by decide, by decide⟩
  obtain ⟨⟨tr, s⟩, hrun, hsuccess, hcount⟩ := hrun
  have hlen : ∀ data used timestamp duration,
      .snd (.send data used timestamp duration) ∈ twoBuffers →
        1 ≤ data.length ∧ data.length ≤ 2 ^ 31 - packetSize := by
    intro data used timestamp duration hmem
    simp only [twoBuffers, List.mem_cons, XmitAction.snd.injEq, SendAction.send.injEq, reduceCtorEq,
      false_or, or_false, List.not_mem_nil] at hmem
    obtain ⟨rfl, -⟩ | ⟨rfl, -⟩ := hmem
    · decide
    · decide
  exact ⟨tr, s, hrun, hsuccess,
    (receives_what_was_sent 1 2 (by decide) twoBuffers tr s hlen hrun hcount).1⟩

end System

end FrameXmit

end AdvLigoRts.Daqd
