import AdvLigoRts.Daqd.FrameRecv
import AdvLigoRts.Daqd.FrameSendTheorems

/-!
# What the receiver delivers

A packet says which piece of which buffer it carries, so that it does not matter which packets
arrive, how often and in which order: as long as all of them are packets of the buffers sent, the
pieces copied so far are in their places (`CallOk`), and a call that returns has all of them.
-/

namespace AdvLigoRts.Daqd

open PvLib

/-- The buffers sent, where no sequence number has been used twice. -/
structure Numbered (bufs : List Buffer) : Prop where
  seq : ∀ i b, bufs[i]? = some b → b.seq = UInt32.ofNat i
  length : bufs.length < 2 ^ 31
  lenOk : ∀ b ∈ bufs, b.LenOk
  pos : ∀ b ∈ bufs, 0 < b.data.length

def Genuine (bufs : List Buffer) (pkt : Packet) : Prop :=
  ∃ b ∈ bufs, ∃ k < b.count, ∃ pktType, pkt = b.packet pktType k

theorem Genuine.append {bufs : List Buffer} {pkt : Packet} (h : Genuine bufs pkt)
    (more : List Buffer) : Genuine (bufs ++ more) pkt := by
  obtain ⟨b, hb, hk⟩ := h
  exact ⟨b, List.mem_append_left more hb, hk⟩

theorem Numbered.get {bufs : List Buffer} (h : Numbered bufs) {b : Buffer} (hb : b ∈ bufs) :
    bufs[b.seq.toNat]? = some b := by
  obtain ⟨i, hi⟩ := List.mem_iff_getElem?.mp hb
  have hlt := (List.getElem?_eq_some_iff.mp hi).1
  have hlength := h.length
  rw [h.seq i b hi, UInt32.toNat_ofNat', Nat.mod_eq_of_lt (by omega)]
  exact hi

namespace FrameRecv

/-- The numbers of the packets received. -/
def received (pktCntrl : List Bool) : Finset ℕ :=
  (Finset.range pktCntrl.length).filter fun k => pktCntrl[k]? = some true

theorem Copy.write_eq_blit (off size : ℕ) (data : ℕ → UInt8) (payload : List UInt8) :
    (⟨off, size⟩ : Copy).write data payload = blit data off (fun j => payload.getD j 0) size := by
  funext j
  unfold Copy.write blit
  have hsub : ((j : ℤ) - off).toNat = j - off := by omega
  simp only [hsub, Nat.cast_le, ← Nat.cast_add, Nat.cast_lt]

/-- A call that has received packets of the buffer `c.newseq`, if any. -/
structure CallOk (bufs : List Buffer) (c : RecvCall) : Prop where
  fresh : c.firstPacket = true → c.len = 0 ∧ c.seqDone = false
  begun : c.firstPacket = false → ∃ b, bufs[c.newseq.toNat]? = some b ∧
    c.sequence = c.newseq ∧ c.recvtime = b.timestamp ∧ c.duration = b.duration ∧
    c.pktCntrl.length = b.count ∧
    ∃ n : ℕ, c.len = n ∧ Assembled packetSize b.data (received c.pktCntrl) c.data n

section Call

variable {bufs : List Buffer} {c c' : RecvCall} {pkt : Packet} {pkts : List Packet}

theorem calcDiff_eq_zero {q : UInt32} (h : calcDiff (pkt :: pkts) q = 0) :
    pkt.header.seq = q := by
  have hseq := pkt.header.seq.toNat_lt
  have hq := q.toNat_lt
  simp only [calcDiff] at h
  apply UInt32.toNat_inj.mp
  omega

theorem received_replicate (n : ℕ) : received (List.replicate n false) = ∅ := by
  rw [received, Finset.filter_eq_empty_iff]
  intro k _ hk
  rw [List.getElem?_replicate] at hk
  split at hk
  · cases hk
  · cases hk

theorem received_set {l : List Bool} {k : ℕ} (hk : k < l.length) :
    received (l.set k true) = insert k (received l) := by
  ext i
  simp only [received, Finset.mem_filter, Finset.mem_range, Finset.mem_insert, List.length_set]
  by_cases hi : i = k
  · subst hi
    simp [hk]
  · simp [List.getElem?_set_ne (Ne.symm hi), hi]

theorem CallOk.firstPacket (h : CallOk bufs c) (hnum : Numbered bufs) (hpkt : Genuine bufs pkt)
    (hseq : pkt.header.seq = c.newseq) (alloc : Option (ℕ → UInt8)) :
    (∃ value < 0, FrameRecv.firstPacket c alloc pkt = .error (some value)) ∨
    ∃ c', FrameRecv.firstPacket c alloc pkt = .ok c' ∧ CallOk bufs c' ∧
      c'.firstPacket = false ∧ c'.newseq = c.newseq := by
  obtain ⟨b, hb, k, hk, pktType, rfl⟩ := hpkt
  have hget := hnum.get hb
  have hneeded : int32 ((b.count : ℤ) * packetSize) = b.count * packetSize := by
    have hcount := (hnum.lenOk b hb).count_le
    unfold packetSize
    exact int32_eq (by omega) (by omega)
  unfold FrameRecv.firstPacket
  split
  · next hfirst =>
    have hcount : ¬ (b.packet pktType k).header.pktTotal < 0 :=
      Int.not_lt.mpr (Int.natCast_nonneg _)
    simp only [if_neg hcount]
    simp only [Buffer.packet, hneeded]
    split
    · refine Or.inl ⟨_, ?_, rfl⟩
      have hpos : (0 : ℤ) < b.count * packetSize := by
        unfold packetSize
        omega
      omega
    · split
      · exact Or.inl ⟨-5, by decide, rfl⟩
      · refine Or.inr ⟨_, rfl, ⟨by simp, fun _ => ?_⟩, rfl, rfl⟩
        refine ⟨b, ?_, rfl, rfl, rfl, by simp, 0, ?_, ?_⟩
        · rw [← hseq]
          exact hget
        · exact_mod_cast (h.fresh hfirst).1
        · rw [Int.toNat_natCast, received_replicate]
          exact assembled_empty ..
  · next hfirst =>
    exact Or.inr ⟨c, rfl, h, by simpa using hfirst, rfl⟩

theorem CallOk.done (h : CallOk bufs c) (hfirst : c.firstPacket = false) :
    CallOk bufs { c with seqDone := true } where
  fresh := by
    intro htrue
    rw [show c.firstPacket = true from htrue] at hfirst
    cases hfirst
  begun := h.begun

/-- The payload of a packet that has not been received yet is copied to its place. -/
theorem CallOk.copyPayload (h : CallOk bufs c) (hnum : Numbered bufs) (hpkt : Genuine bufs pkt)
    (hseq : pkt.header.seq = c.newseq) (hfirst : c.firstPacket = false) :
    CallOk bufs (FrameRecv.copyPayload c pkt) ∧
      (FrameRecv.copyPayload c pkt).newseq = c.newseq ∧
      (FrameRecv.copyPayload c pkt).firstPacket = false := by
  obtain ⟨b, hb, k, hk, pktType, rfl⟩ := hpkt
  have hget : bufs[c.newseq.toNat]? = some b := by
    rw [← hseq]
    exact hnum.get hb
  obtain ⟨b', hb', hsequence, htime, hduration, hlength, n, hlen, hbytes⟩ := h.begun hfirst
  obtain rfl : b = b' := Option.some.inj (hget.symm.trans hb')
  unfold FrameRecv.copyPayload
  dsimp only
  split
  · next hnew =>
    have hfalse : c.pktCntrl[k]? = some false := by simpa [Buffer.packet] using hnew.2
    have hnot : k ∉ received c.pktCntrl := by simp [received, hfalse]
    have hsrc : ∀ j < (piece packetSize b.data k).length, (piece packetSize b.data k)[j]?
        = some ((piece packetSize b.data k).getD j 0) := by
      intro j hj
      rw [List.getD_eq_getElem?_getD, List.getElem?_eq_getElem hj]
      rfl
    have hblit := hbytes.blit Buffer.packetSize_pos hnot hsrc
    have hcopy : payloadCopy (b.packet pktType k)
        = ⟨(k * packetSize : ℕ), (piece packetSize b.data k).length⟩ := by
      have hcount := (hnum.lenOk b hb).count_le
      have hexact : int32 ((k : ℤ) * packetSize) = k * packetSize := by
        unfold packetSize
        exact int32_eq (by omega) (by omega)
      simp only [payloadCopy, Buffer.packet, hexact, Int.toNat_natCast]
      push_cast
      rfl
    refine ⟨⟨?_, fun _ => ?_⟩, rfl, hfirst⟩
    · intro htrue
      rw [show c.firstPacket = true from htrue] at hfirst
      cases hfirst
    · refine ⟨b, hget, hsequence, htime, hduration, ?_,
        n + (piece packetSize b.data k).length, ?_, ?_⟩
      · simpa using hlength
      · simp [Buffer.packet, hlen]
      · rw [hcopy, Copy.write_eq_blit]
        simp only [Buffer.packet, Int.toNat_natCast]
        rw [received_set (hlength ▸ hk)]
        exact hblit
  · exact ⟨h, rfl, hfirst⟩

theorem CallOk.copyPacket (h : CallOk bufs c) (hnum : Numbered bufs) (hpkt : Genuine bufs pkt)
    (hseq : pkt.header.seq = c.newseq) (hfirst : c.firstPacket = false) :
    CallOk bufs (FrameRecv.copyPacket c pkt) ∧
      (FrameRecv.copyPacket c pkt).newseq = c.newseq := by
  obtain ⟨hcopy, hnewseq, hfirst'⟩ := h.copyPayload hnum hpkt hseq hfirst
  unfold FrameRecv.copyPacket
  dsimp only
  split
  · exact ⟨hcopy.done hfirst', hnewseq⟩
  · exact ⟨hcopy, hnewseq⟩

/-- The loop over the packets at the front either makes the call fail or keeps it. -/
theorem CallOk.takePackets (h : CallOk bufs c) (hnum : Numbered bufs)
    (hpkts : ∀ p ∈ pkts, Genuine bufs p) (alloc : Option (ℕ → UInt8)) :
    (∀ p ∈ (FrameRecv.takePackets alloc c pkts).2, Genuine bufs p) ∧
    ((∃ value < 0, (FrameRecv.takePackets alloc c pkts).1 = .error (some value)) ∨
      ∃ c', (FrameRecv.takePackets alloc c pkts).1 = .ok c' ∧ CallOk bufs c' ∧
        c'.newseq = c.newseq) := by
  induction pkts generalizing c with
  | nil => exact ⟨nofun, Or.inr ⟨c, rfl, h, rfl⟩⟩
  | cons pkt pkts ih =>
    have hpkt := hpkts pkt List.mem_cons_self
    have hrest : ∀ p ∈ pkts, Genuine bufs p := fun p hp => hpkts p (List.mem_cons_of_mem pkt hp)
    unfold FrameRecv.takePackets
    split
    · next hdiff =>
      have hseq := calcDiff_eq_zero hdiff
      obtain ⟨value, hvalue, herror⟩ | ⟨c', hok, hc', hfirst, hnewseq⟩ :=
        h.firstPacket hnum hpkt hseq alloc
      · rw [herror]
        exact ⟨hpkts, Or.inl ⟨value, hvalue, rfl⟩⟩
      · rw [hok]
        obtain ⟨hcopy, hnewseq'⟩ := hc'.copyPacket hnum hpkt (hseq.trans hnewseq.symm) hfirst
        obtain ⟨hleft, hresult⟩ := ih hcopy hrest
        rw [hnewseq', hnewseq] at hresult
        exact ⟨hleft, hresult⟩
    · exact ⟨hpkts, Or.inr ⟨c, rfl, h, rfl⟩⟩

end Call

/-! ## The steps -/

/-- What the packet numbers of a request are good for: none is so large that the position of the
packet could not be computed in type `int`. -/
def RequestOk (rpkt : RetransmitPacket) : Prop :=
  ∀ k ∈ FrameSend.requestNums rpkt, 0 ≤ k ∧ k < 33554

/-- The bytes, the length and the times of the buffer that was sent with this number. -/
def Delivered (bufs : List Buffer) (len : ℤ) (data : ℕ → UInt8)
    (sequence recvtime duration : UInt32) : Prop :=
  ∃ b, bufs[sequence.toNat]? = some b ∧ len = b.data.length ∧
    bytesAt data 0 len.toNat = b.data ∧ recvtime = b.timestamp ∧ duration = b.duration

/-- The sequence number that a successful call has returned. -/
def success : FrameRecvEvent → Option UInt32
  | .returned value _ sequence _ _ => if 0 ≤ value then some sequence else none
  | _ => none

/-- The receiver between two steps. -/
structure RecvOk (bufs : List Buffer) (s : FrameRecv) : Prop where
  pkts : ∀ p ∈ s.pkts, Genuine bufs p
  call : ∀ c, s.pc = .poll c ∨ s.pc = .turn c →
    CallOk bufs c ∧ c.newseq = s.oldseq + 1 ∧ s.first = false

/-- What a step from `s` to `t` shows. -/
structure Shows (bufs : List Buffer) (s : FrameRecv) (e : FrameRecvEvent) (t : FrameRecv) :
    Prop where
  delivered : ∀ value data sequence recvtime duration,
    e = .returned value data sequence recvtime duration → 0 ≤ value →
      Delivered bufs value data sequence recvtime duration
  success : ∀ q, success e = some q → s.first = false ∧ q = s.oldseq + 1 ∧ t.oldseq = q
  other : FrameRecv.success e = none → s.first = false → t.oldseq = s.oldseq
  first : s.first = false → t.first = false
  request : ∀ rpkt, e = .request rpkt → RequestOk rpkt

section Steps

variable {bufs : List Buffer} {s t : FrameRecv} {c : RecvCall} {a : RecvAction} {e : FrameRecvEvent}
  {pkt : Packet} {pkts : List Packet}

/-- A step that neither succeeds nor asks for anything. -/
theorem shows_of_quiet (hreturned : success e = none) (hrequest : ∀ rpkt, e ≠ .request rpkt)
    (holdseq : s.first = false → t.oldseq = s.oldseq) (hfirst : s.first = false → t.first = false) :
    Shows bufs s e t where
  delivered := by
    rintro value data sequence recvtime duration rfl hvalue
    simp [FrameRecv.success, hvalue] at hreturned
  success := by simp [hreturned]
  other := fun _ => holdseq
  first := hfirst
  request := fun rpkt he => absurd he (hrequest rpkt)

/-- What a step shows does not depend on the packet buffer and the socket before it. -/
theorem Shows.frame {sock : Bool} (h : Shows bufs { s with sock, pkts } e t) : Shows bufs s e t :=
  { h with }

theorem mem_insertPkt {p : Packet} (h : p ∈ insertPkt pkts pkt) : p ∈ pkts ∨ p = pkt := by
  unfold insertPkt at h
  dsimp only at h
  split at h
  · simpa using h
  · split at h
    · exact Or.inl h
    · obtain hp | hp := List.mem_append.mp h
      · exact Or.inl (List.mem_of_mem_take hp)
      · obtain rfl | hp := List.mem_cons.mp hp
        · exact Or.inr rfl
        · exact Or.inl (List.mem_of_mem_drop hp)

theorem mem_skipOld {p : Packet} {newseq : UInt32} (h : p ∈ skipOld newseq pkts) : p ∈ pkts := by
  induction pkts with
  | nil => exact h
  | cons pkt pkts ih =>
    unfold skipOld at h
    split at h
    · exact List.mem_cons_of_mem pkt (ih h)
    · exact h

theorem RecvOk.insertPkt (h : RecvOk bufs s) (hpkt : Genuine bufs pkt) :
    ∀ p ∈ FrameRecv.insertPkt s.pkts pkt, Genuine bufs p := by
  intro p hp
  obtain hp | rfl := mem_insertPkt hp
  · exact h.pkts p hp
  · exact hpkt

theorem missingNums_lt (h : CallOk bufs c) (hnum : Numbered bufs) (hfirst : c.firstPacket = false) :
    ∀ k ∈ missingNums c, 0 ≤ k ∧ k < 33554 := by
  intro k hk
  obtain ⟨i, hi, rfl⟩ := List.mem_map.mp (List.mem_of_mem_take hk)
  have hlt : i < c.pktCntrl.length := List.mem_range.mp (List.mem_filter.mp hi).1
  obtain ⟨b, hb, -, -, -, hlength, -⟩ := h.begun hfirst
  have hcount := (hnum.lenOk b (List.mem_of_getElem? hb)).count_le
  simp only [Int.ofNat_eq_natCast]
  omega

theorem requestOk_of_nums {header : PacketHeader} {nums : List ℤ}
    (hlen : header.pktLen = nums.length * 4) (hnums : ∀ k ∈ nums, 0 ≤ k ∧ k < 33554) :
    RequestOk ⟨header, nums⟩ := by
  intro k hk
  obtain ⟨i, hi, rfl⟩ := List.mem_map.mp hk
  have hcount : FrameSend.requestCount ⟨header, nums⟩ = nums.length := by
    rw [FrameSend.requestCount, hlen]
    exact Int.mul_tdiv_cancel _ (by decide)
  rw [List.mem_reverse, List.mem_range, hcount, Int.toNat_natCast] at hi
  rw [List.getD_eq_getElem?_getD, List.getElem?_eq_getElem hi]
  exact hnums _ (List.getElem_mem hi)

/-- The state after a call has ended or the process has. -/
theorem recvOk_of_pc (hpkts : ∀ p ∈ t.pkts, Genuine bufs p) (hpc : t.pc = .idle ∨ t.pc = .exited) :
    RecvOk bufs t where
  pkts := hpkts
  call := by
    intro c hc
    obtain hpc | hpc := hpc <;> simp [hpc] at hc

theorem fail_ok (hpkts : ∀ p ∈ s.pkts, Genuine bufs p) (c : RecvCall) (value : ℤ)
    (hvalue : value < 0) :
    RecvOk bufs (fail s c value).2 ∧ Shows bufs s (fail s c value).1 (fail s c value).2 := by
  refine ⟨recvOk_of_pc hpkts (Or.inl rfl), shows_of_quiet ?_ nofun (fun _ => rfl) id⟩
  simp [fail, success, hvalue]

/-- A call after some of its variables have changed that the packets do not depend on. -/
theorem CallOk.setRetry (h : CallOk bufs c) (retry : ℕ) (retryExpired : Bool) :
    CallOk bufs { c with retry, retryExpired } := ⟨h.fresh, h.begun⟩

theorem ask_ok (hpkts : ∀ p ∈ s.pkts, Genuine bufs p) (hc : CallOk bufs c)
    (hnewseq : c.newseq = s.oldseq + 1) (hfirst : s.first = false) {nums : List ℤ}
    (hnums : ∀ k ∈ nums, 0 ≤ k ∧ k < 33554) (sent : Bool) :
    RecvOk bufs (ask s c nums sent).2 ∧
      Shows bufs s (ask s c nums sent).1 (ask s c nums sent).2 := by
  unfold FrameRecv.ask
  split
  · refine ⟨⟨hpkts, ?_⟩, ⟨nofun, nofun, fun _ _ => rfl, fun _ => hfirst, ?_⟩⟩
    · intro c' hc'
      obtain rfl : _ = c' := by simpa using hc'
      exact ⟨hc.setRetry _ _, hnewseq, hfirst⟩
    · rintro rpkt ⟨⟩
      exact requestOk_of_nums rfl hnums
  · obtain ⟨hrecv, hshows⟩ := fail_ok (s := { s with sock := false }) hpkts c (-6) (by decide)
    exact ⟨hrecv, hshows.frame⟩

theorem CallOk.begun_of_done (h : CallOk bufs c) (hdone : c.seqDone = true) :
    c.firstPacket = false := by
  by_contra hfirst
  rw [(h.fresh (by simpa using hfirst)).2] at hdone
  cases hdone

theorem CallOk.delivered (h : CallOk bufs c) (hdone : c.seqDone = true)
    (hall : c.pktCntrl.countP (fun received => !received) = 0) :
    Delivered bufs c.len c.data c.sequence c.recvtime c.duration ∧ c.sequence = c.newseq := by
  obtain ⟨b, hb, hsequence, htime, hduration, hlength, n, hlen, hbytes⟩ :=
    h.begun (h.begun_of_done hdone)
  have hreceived : received c.pktCntrl = Finset.range (pieceCount packetSize b.data.length) := by
    rw [received, hlength]
    refine Finset.filter_true_of_mem fun k hk => ?_
    have hlt : k < c.pktCntrl.length := hlength ▸ Finset.mem_range.mp hk
    rw [List.countP_eq_zero] at hall
    have htrue := hall _ (List.getElem_mem hlt)
    rw [List.getElem?_eq_getElem hlt]
    simpa using htrue
  rw [hreceived] at hbytes
  obtain ⟨hn, hdata⟩ := hbytes.complete Buffer.packetSize_pos
  refine ⟨⟨b, ?_, ?_, ?_, htime, hduration⟩, hsequence⟩
  · rw [hsequence]
    exact hb
  · rw [hlen, hn]
  · rw [hlen, Int.toNat_natCast]
    exact hdata

theorem finish_ok (hpkts : ∀ p ∈ s.pkts, Genuine bufs p) (hnum : Numbered bufs) (hc : CallOk bufs c)
    (hnewseq : c.newseq = s.oldseq + 1) (hfirst : s.first = false) (expired sent : Bool) :
    RecvOk bufs (finish s c expired sent).2 ∧
      Shows bufs s (finish s c expired sent).1 (finish s c expired sent).2 := by
  have hloop : ∀ c' : RecvCall, CallOk bufs c' → c'.newseq = c.newseq →
      RecvOk bufs { s with pc := .poll c' } ∧ Shows bufs s .tau { s with pc := .poll c' } := by
    intro c' hc' hseq
    refine ⟨⟨hpkts, ?_⟩, shows_of_quiet rfl nofun (fun _ => rfl) id⟩
    intro c'' hc''
    obtain rfl : c' = c'' := by simpa using hc''
    exact ⟨hc', hseq.trans hnewseq, hfirst⟩
  unfold FrameRecv.finish
  split
  · exact hloop c hc rfl
  · next hdone =>
    have hdone : c.seqDone = true := by simpa using hdone
    dsimp only
    split
    · next hall =>
      obtain ⟨hdelivered, hsequence⟩ := hc.delivered hdone hall
      refine ⟨recvOk_of_pc hpkts (Or.inl rfl), ⟨?_, ?_, ?_, fun _ => hfirst, nofun⟩⟩
      · rintro value data sequence recvtime duration ⟨⟩ _
        exact hdelivered
      · intro q hq
        have hlen : 0 ≤ c.len := by
          obtain ⟨b, -, hlen, -⟩ := hdelivered
          omega
        obtain rfl : c.sequence = q := by simpa [success, hlen] using hq
        exact ⟨hfirst, hsequence.trans hnewseq, hsequence.symm⟩
      · intro hnone
        have hlen : 0 ≤ c.len := by
          obtain ⟨b, -, hlen, -⟩ := hdelivered
          omega
        simp [success, hlen] at hnone
    · generalize (if c.retry > 0 ∧ !c.retryExpired then expired else c.retryExpired) = retryExpired
      split
      · exact ⟨recvOk_of_pc hpkts (Or.inr rfl), shows_of_quiet rfl nofun (fun _ => rfl) id⟩
      · split
        · have hnums := missingNums_lt hc hnum (hc.begun_of_done hdone)
          exact ask_ok hpkts hc hnewseq hfirst hnums sent
        · exact hloop _ (hc.setRetry c.retry retryExpired) rfl

theorem RecvOk.turn (h : RecvOk bufs s) (hnum : Numbered bufs) (hc : CallOk bufs c)
    (hnewseq : c.newseq = s.oldseq + 1) (hfirst : s.first = false) (expired : Bool)
    (alloc : Option (ℕ → UInt8)) (sent : Bool) :
    RecvOk bufs (turn s c expired alloc sent).2 ∧
      Shows bufs s (turn s c expired alloc sent).1 (turn s c expired alloc sent).2 := by
  have hzero : ∀ k ∈ ([0] : List ℤ), 0 ≤ k ∧ k < 33554 := by simp
  have hexit : RecvOk bufs { s with pc := .exited } ∧
      Shows bufs s .exited { s with pc := .exited } :=
    ⟨recvOk_of_pc h.pkts (Or.inr rfl), shows_of_quiet rfl nofun (fun _ => rfl) id⟩
  have hwait : ∀ c' : RecvCall, CallOk bufs c' → c'.newseq = c.newseq → ∀ pkts,
      (∀ p ∈ pkts, Genuine bufs p) → RecvOk bufs { s with pkts, pc := .poll c' } ∧
        Shows bufs s .tau { s with pkts, pc := .poll c' } := by
    intro c' hc' hseq pkts hpkts
    refine ⟨⟨hpkts, ?_⟩, shows_of_quiet rfl nofun (fun _ => rfl) id⟩
    intro c'' hc''
    obtain rfl : c' = c'' := by simpa using hc''
    exact ⟨hc', hseq.trans hnewseq, hfirst⟩
  unfold FrameRecv.turn
  dsimp only
  split
  · exact finish_ok h.pkts hnum hc hnewseq hfirst expired sent
  · split
    · split
      · exact hwait _ (hc.setRetry c.retry false) rfl s.pkts h.pkts
      · split
        · exact hexit
        · exact ask_ok h.pkts hc hnewseq hfirst hzero sent
    · split
      · exact hexit
      · have hold : ∀ p ∈ skipOld c.newseq s.pkts, Genuine bufs p :=
          fun p hp => h.pkts p (mem_skipOld hp)
        split
        · exact hwait c hc rfl [] nofun
        · next pkt pkts hpkts =>
          rw [hpkts] at hold
          obtain ⟨hleft, hresult⟩ := hc.takePackets hnum hold alloc
          split
          · next value left heq =>
            rw [heq] at hleft hresult
            obtain ⟨value', hvalue, ⟨⟩⟩ | ⟨c', ⟨⟩, -⟩ := hresult
            obtain ⟨hrecv, hshows⟩ := fail_ok (s := { s with pkts := left }) hleft c _ hvalue
            exact ⟨hrecv, hshows.frame⟩
          · next left heq =>
            rw [heq] at hresult
            obtain ⟨value', hvalue, ⟨⟩⟩ | ⟨c', ⟨⟩, -⟩ := hresult
          · next c' left heq =>
            rw [heq] at hleft hresult
            obtain ⟨value', hvalue, ⟨⟩⟩ | ⟨c'', ⟨⟩, hc', hseq⟩ := hresult
            -- the end of the sequence may show in the packet behind it
            have hdone : CallOk bufs
                (if calcDiff left c'.newseq > 0 ∧ c'.len ≠ 0 then { c' with seqDone := true }
                  else c') := by
              split
              · next hnext =>
                refine hc'.done ?_
                by_contra hstart
                exact hnext.2 (hc'.fresh (by simpa using hstart)).1
              · exact hc'
            have hseq' : (if calcDiff left c'.newseq > 0 ∧ c'.len ≠ 0
                then { c' with seqDone := true } else c').newseq = s.oldseq + 1 := by
              split <;> exact hseq.trans hnewseq
            obtain ⟨hrecv, hshows⟩ :=
              finish_ok (s := { s with pkts := left }) hleft hnum hdone hseq' hfirst expired sent
            exact ⟨hrecv, hshows.frame⟩

theorem beginCall_ok (hpkts : ∀ p ∈ s.pkts, Genuine bufs p) (data : ℕ → UInt8) (maxlen : ℤ) :
    RecvOk bufs (s.beginCall data maxlen) ∧ Shows bufs s .tau (s.beginCall data maxlen) := by
  refine ⟨⟨hpkts, ?_⟩, shows_of_quiet rfl nofun ?_ fun _ => rfl⟩
  · intro c hc
    obtain rfl : _ = c := by simpa [beginCall] using hc
    exact ⟨⟨fun _ => ⟨rfl, rfl⟩, nofun⟩, rfl, rfl⟩
  · intro hfirst
    simp [beginCall, hfirst]

theorem RecvOk.receive (h : RecvOk bufs s) (data : Option (ℕ → UInt8)) (maxlen : ℤ) :
    RecvOk bufs (receive s data maxlen).2 ∧
      Shows bufs s (receive s data maxlen).1 (receive s data maxlen).2 := by
  have hrefuse : ∀ value < 0, ∀ mem, Shows bufs s (.returned value mem 0 0 0) s := by
    intro value hvalue mem
    refine shows_of_quiet ?_ nofun (fun _ => rfl) id
    rw [success, if_neg (not_le.mpr hvalue)]
  unfold FrameRecv.receive
  dsimp only
  generalize (if data.isNone then (-1 : ℤ) else maxlen) = maxlen'
  split
  · exact ⟨h, hrefuse (-1) (by decide) _⟩
  · split
    · exact ⟨h, hrefuse (-2) (by decide) _⟩
    · split
      · exact ⟨⟨h.pkts, by simp⟩, shows_of_quiet rfl nofun (fun _ => rfl) id⟩
      · exact beginCall_ok h.pkts ..

/-- A step keeps the receiver and shows no buffer that was not sent. -/
theorem RecvOk.step (h : RecvOk bufs s) (hnum : Numbered bufs)
    (hrcvd : ∀ n p, a = .getPacket (some (n, p)) → Genuine bufs p)
    (hstep : step s a = some (e, t)) : RecvOk bufs t ∧ Shows bufs s e t := by
  unfold FrameRecv.step at hstep
  split at hstep
  · next data maxlen hpc =>
    have hreceive := h.receive data maxlen
    rw [Option.some.inj hstep] at hreceive
    exact hreceive
  · next rcvd data maxlen hpc =>
    split at hstep
    · cases hstep
      exact ⟨recvOk_of_pc h.pkts (Or.inl rfl), shows_of_quiet rfl nofun (fun _ => rfl) id⟩
    · next n p =>
      split at hstep
      · cases hstep
        obtain ⟨hrecv, hshows⟩ :=
          beginCall_ok (s := { s with pkts := FrameRecv.insertPkt s.pkts p })
            (h.insertPkt (hrcvd n p rfl)) data maxlen
        exact ⟨hrecv, hshows.frame⟩
      · cases hstep
        exact ⟨h, shows_of_quiet rfl nofun (fun _ => rfl) id⟩
  · next rcvd c hpc =>
    have hcall := h.call c (Or.inl hpc)
    have hturn : ∀ pkts, (∀ p ∈ pkts, Genuine bufs p) →
        RecvOk bufs { s with pkts, pc := .turn c } ∧
          Shows bufs s .tau { s with pkts, pc := .turn c } := by
      intro pkts hpkts
      refine ⟨⟨hpkts, ?_⟩, shows_of_quiet rfl nofun (fun _ => rfl) id⟩
      intro c' hc'
      obtain rfl : c = c' := by simpa using hc'
      exact hcall
    split at hstep
    · cases hstep
      exact ⟨recvOk_of_pc h.pkts (Or.inr rfl), shows_of_quiet rfl nofun (fun _ => rfl) id⟩
    · split at hstep
      · cases hstep
        exact hturn s.pkts h.pkts
      · next n p =>
        split at hstep
        · cases hstep
          exact hturn _ (h.insertPkt (hrcvd n p rfl))
        · cases hstep
          exact ⟨h, shows_of_quiet rfl nofun (fun _ => rfl) id⟩
  · next expired alloc sent c hpc =>
    obtain ⟨hc, hnewseq, hfirst⟩ := h.call c (Or.inr hpc)
    have hturn := h.turn hnum hc hnewseq hfirst expired alloc sent
    rw [Option.some.inj hstep] at hturn
    exact hturn
  · cases hstep

end Steps

end FrameRecv

end AdvLigoRts.Daqd
