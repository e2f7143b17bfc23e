import AdvLigoRts.Lib.Fragment
import AdvLigoRts.Daqd.FrameSend

/-!
# What the transmitter sends

The packets of a buffer are the pieces of its data (`Buffer.packets`).
-/

namespace AdvLigoRts.Daqd

open PvLib

/-! ## The packets of a buffer -/

namespace Buffer

variable {b : Buffer} {k n : ℕ}

/-- The number of packets of a buffer. -/
def count (b : Buffer) : ℕ := pieceCount packetSize b.data.length

/-- Packet `k` of a buffer. -/
def packet (pktType : ℤ) (b : Buffer) (k : ℕ) : Packet where
  header :=
    { pktType
      pktLen := (piece packetSize b.data k).length
      seq := b.seq
      pktNum := k
      pktTotal := b.count
      timestamp := b.timestamp
      duration := b.duration }
  payload := piece packetSize b.data k

/-- The packets of the first broadcast. -/
def packets (b : Buffer) : List Packet := (List.range b.count).map (b.packet pktBroadcast)

/-- The packets that have not been assembled yet. -/
def remaining (b : Buffer) : List Packet := b.packets.drop (pieceCount packetSize b.sofar.toNat)

/-- The buffer as it was when it was queued. -/
def fresh (b : Buffer) : Buffer := { b with sofar := 0 }

/-- The size of the buffer's packets can be summed up in type `int`. -/
def LenOk (b : Buffer) : Prop := b.data.length ≤ 2 ^ 31 - packetSize

/-- The first `k` packets have been assembled. -/
structure Assembled (b : Buffer) (k : ℕ) : Prop where
  le_count : k ≤ b.count
  sofar : b.sofar = (min (k * packetSize) b.data.length : ℕ)

theorem packetSize_pos : 0 < packetSize := by decide

@[simp] theorem length_packets (b : Buffer) : b.packets.length = b.count := by
  simp [packets]

@[simp] theorem packets_fresh (b : Buffer) : b.fresh.packets = b.packets := rfl

theorem flatten_payload (b : Buffer) : (b.packets.map Packet.payload).flatten = b.data := by
  have hpieces : b.packets.map Packet.payload = pieces packetSize b.data := by
    rw [packets, List.map_map]
    rfl
  rw [hpieces, flatten_pieces packetSize_pos]

theorem pktType_packets {p : Packet} (hp : p ∈ b.packets) : p.header.pktType = pktBroadcast := by
  obtain ⟨k, -, rfl⟩ := List.mem_map.mp hp
  rfl

/-- The 32-bit numbers of a packet do not wrap. -/
theorem LenOk.int32_packet (hlen : b.LenOk) {k : ℕ} (hk : k < 33554) :
    int32 ((k : ℤ) + 1) = k + 1 ∧ int32 ((k : ℤ) * packetSize) = k * packetSize ∧
      int32 (b.len - (k : ℤ) * packetSize) = b.len - k * packetSize := by
  unfold LenOk at hlen
  unfold packetSize at hlen ⊢
  unfold len
  refine ⟨?_, ?_, ?_⟩ <;> exact int32_eq (by omega) (by omega)

theorem LenOk.pktTotal_eq (h : b.LenOk) : b.pktTotal = b.count := by
  unfold LenOk packetSize at h
  unfold pktTotal len count pieceCount packetSize
  rw [int32_eq (by omega) (by omega), Int.tdiv_eq_ediv_of_nonneg (by omega)]
  omega

theorem LenOk.count_le (h : b.LenOk) : b.count ≤ 33554 := by
  unfold LenOk packetSize at h
  unfold count pieceCount packetSize
  omega

theorem lt_count_iff : k < b.count ↔ k * packetSize < b.data.length :=
  lt_pieceCount_iff packetSize_pos

theorem length_le_count_mul (b : Buffer) : b.data.length ≤ b.count * packetSize :=
  le_pieceCount_mul packetSize_pos _

theorem Assembled.handed (h : b.Assembled k) : pieceCount packetSize b.sofar.toNat = k := by
  rw [h.sofar, Int.toNat_natCast]
  obtain hlt | heq := Nat.lt_or_eq_of_le h.le_count
  · have hle : k * packetSize ≤ b.data.length := Nat.le_of_lt (lt_count_iff.mp hlt)
    rw [min_eq_left hle]
    unfold pieceCount packetSize
    omega
  · rw [min_eq_right (heq ▸ b.length_le_count_mul), heq, count]

theorem Assembled.remaining_eq (h : b.Assembled k) : b.remaining = b.packets.drop k := by
  rw [remaining, h.handed]

/-- Before the last packet there are `packetSize` bytes for each. -/
theorem Assembled.sofar_eq (h : b.Assembled k) (hlt : k < b.count) :
    b.sofar = k * packetSize := by
  rw [h.sofar, min_eq_left (Nat.le_of_lt (lt_count_iff.mp hlt)), Nat.cast_mul]

theorem pktLen_eq (hlt : k < b.count) :
    (if (k : ℤ) + 1 ≥ b.count then b.len - k * packetSize else packetSize)
      = (piece packetSize b.data k).length := by
  have hbelow := lt_count_iff.mp hlt
  have hcover := b.length_le_count_mul
  rw [length_piece, len]
  split
  · next hlast =>
    have hcount : b.count = k + 1 := by omega
    rw [hcount, Nat.succ_mul] at hcover
    omega
  · next hmore =>
    have hnext := lt_count_iff.mp (show k + 1 < b.count by omega)
    rw [Nat.succ_mul] at hnext
    omega

/-- The payload of a packet, as the daemon copies it. -/
theorem copy_eq (b : Buffer) (k : ℕ) :
    b.copy (k * packetSize) (piece packetSize b.data k).length = piece packetSize b.data k := by
  rw [copy, ← Nat.cast_mul, Int.toNat_natCast, Int.toNat_natCast, length_piece, piece,
    ← List.length_drop]
  exact (List.take_eq_take_min ..).symm

theorem drop_packets (hlt : k < b.count) :
    b.packets.drop k = b.packet pktBroadcast k :: b.packets.drop (k + 1) := by
  rw [List.drop_eq_getElem_cons (by simpa using hlt)]
  simp [packets]

/-- The daemon finds the number of the next packet. -/
theorem Assembled.tdiv (h : b.Assembled k) (hk : k < b.count ∨ b.count = 0) :
    b.sofar.tdiv packetSize = k := by
  have hle := h.le_count
  have hsofar : b.sofar = (k * packetSize : ℕ) := by
    rw [h.sofar]
    obtain hlt | hzero := hk
    · rw [min_eq_left (Nat.le_of_lt (lt_count_iff.mp hlt))]
    · obtain rfl : k = 0 := by omega
      simp
  rw [hsofar, Nat.cast_mul]
  exact Int.mul_tdiv_cancel _ (by decide)

end Buffer

namespace FrameSend

theorem burst_eq {b : Buffer} {k : ℕ} (h : b.Assembled k) (n : ℕ) :
    ∃ b', burst b.count n k b = ((b.packets.drop k).take n, b') ∧ b'.fresh = b.fresh ∧
      b'.Assembled (min (k + n) b.count) := by
  induction n generalizing b k with
  | zero =>
    refine ⟨b, ?_, rfl, ?_⟩
    · rw [burst, List.take_zero]
    · rw [Nat.add_zero, min_eq_left h.le_count]
      exact h
  | succ n ih =>
    unfold burst
    by_cases hlt : k < b.count
    · have hsofar := h.sofar_eq hlt
      have hlast : ((k : ℤ) + 1 = b.count) = ((k : ℤ) + 1 ≥ b.count) := by
        rw [eq_iff_iff]
        omega
      rw [if_pos (by exact_mod_cast hlt)]
      simp only [hlast, hsofar, Buffer.pktLen_eq hlt, Buffer.copy_eq]
      have hnext : Buffer.Assembled
          { b with sofar := k * packetSize + (piece packetSize b.data k).length } (k + 1) := by
        have hbelow := Buffer.lt_count_iff.mp hlt
        refine ⟨hlt, ?_⟩
        simp only [length_piece, Nat.succ_mul]
        omega
      obtain ⟨b', hburst, hfresh, hb'⟩ := ih hnext
      refine ⟨b', ?_, hfresh, ?_⟩
      · rw [Buffer.drop_packets hlt, List.take_succ_cons, ← Nat.cast_succ]
        simp only [show burst b.count n _ _ = _ from hburst]
        rfl
      · have hmin : min (k + 1 + n) b.count = min (k + (n + 1)) b.count := by omega
        exact hmin ▸ hb'
    · have heq : k = b.count := Nat.le_antisymm h.le_count (Nat.le_of_not_lt hlt)
      rw [if_neg (by exact_mod_cast hlt)]
      refine ⟨b, ?_, rfl, ?_⟩
      · rw [List.drop_eq_nil_of_le (by simp [heq]), List.take_nil]
      · rw [min_eq_right (by omega), ← heq]
        exact h

theorem fresh_burst (pktTotal : ℤ) (n : ℕ) (pktNum : ℤ) (b : Buffer) :
    (burst pktTotal n pktNum b).2.fresh = b.fresh := by
  induction n generalizing pktNum b with
  | zero => rfl
  | succ n ih =>
    unfold burst
    split
    · exact ih ..
    · rfl

/-- A burst changes nothing of a buffer but how far it has come. -/
theorem map_fresh_assemble (packetBurst : ℤ) (s : FrameSend) :
    (s.assemble packetBurst).buffers.map Buffer.fresh = s.buffers.map Buffer.fresh := by
  unfold assemble
  split
  · rfl
  · next c _ =>
    split
    · rfl
    · next b hb =>
      obtain ⟨hc, rfl⟩ := List.getElem?_eq_some_iff.mp hb
      have hc' : c < (s.buffers.map Buffer.fresh).length := by simpa using hc
      simpa only [List.map_set, fresh_burst, List.getElem_map] using List.set_getElem_self hc'

theorem inUse_assemble (packetBurst : ℤ) (s : FrameSend) :
    (s.assemble packetBurst).inUse = s.inUse := by
  unfold assemble
  split
  · rfl
  · split
    · rfl
    · rfl

/-! ## What a step does -/

variable {pkts : List Packet}

section Cases

variable {packetBurst : ℤ} {s t : FrameSend} {a : SendAction} {e : SendEvent}

/-- What `send( buffer& )` does. -/
theorem sendBuffer_cases {b : Buffer} (h : s.sendBuffer b = (e, t)) :
    (s.curbuf = none ∧ e = .queued b none ∧
      t = { s with buffers := s.buffers ++ [b], curbuf := some 0 }) ∨
    (∃ c, s.curbuf = some c ∧ s.maxbuffers / 2 ≤ c ∧ e = .queued b s.buffers.head? ∧
      t = { s with
        buffers := s.buffers.tail ++ [b]
        curbuf := some (c - 1)
        inUse := setUsed s.inUse (s.buffers.head?.bind Buffer.used) false }) ∨
    (∃ c, s.curbuf = some c ∧ c < s.maxbuffers / 2 ∧ s.buffers.length < s.maxbuffers ∧
      e = .queued b none ∧ t = { s with buffers := s.buffers ++ [b] }) ∨
    (e = .abort ∧ t = { s with aborted := true }) := by
  unfold sendBuffer at h
  split at h
  · next hcur =>
    cases h
    exact Or.inl ⟨hcur, rfl, rfl⟩
  · next c hcur =>
    split at h
    · next hold =>
      cases h
      exact Or.inr (Or.inl ⟨c, hcur, hold, rfl, rfl⟩)
    · next hold =>
      split at h
      · next hspace =>
        cases h
        exact Or.inr (Or.inr (Or.inl ⟨c, hcur, Nat.lt_of_not_le hold, hspace, rfl, rfl⟩))
      · cases h
        exact Or.inr (Or.inr (Or.inr ⟨rfl, rfl⟩))

/-- What a turn of `putPackets` does. -/
theorem put_cases {ok : Bool} {next : List Packet → DaemonPc} {done : DaemonPc}
    (h : s.put ok next done pkts = (e, t)) :
    (pkts = [] ∧ e = .tau ∧ t = { s with daemon := done }) ∨
    (∃ pkt rest, pkts = pkt :: rest ∧ e = .wire pkt ∧ t = { s with daemon := next rest }) ∨
    (e = .closed ∧ t = { s with sock := false, daemon := .ended }) := by
  cases pkts with
  | nil =>
    cases h
    exact Or.inl ⟨rfl, rfl, rfl⟩
  | cons pkt rest =>
    rw [put] at h
    split at h
    · cases h
      exact Or.inr (Or.inl ⟨pkt, rest, rfl, rfl, rfl⟩)
    · cases h
      exact Or.inr (Or.inr ⟨rfl, rfl⟩)

theorem step_cases (h : step packetBurst s a = some (e, t)) :
    (∃ data used timestamp duration, a = .send data used timestamp duration ∧
      s.send data used timestamp duration = (e, t)) ∨
    (a = .assemble ∧ s.daemon = .top ∧ e = .tau ∧ t = s.assemble packetBurst) ∨
    (∃ ok pkts, a = .put ok ∧ s.daemon = .putBurst pkts ∧
      s.put ok .putBurst .poll pkts = (e, t)) ∨
    (∃ ok pkts, a = .put ok ∧ s.daemon = .putRetransmit pkts ∧
      s.put ok .putRetransmit .top pkts = (e, t)) ∨
    (∃ rcvd pc, a = .poll rcvd ∧ s.daemon = .poll ∧ e = .tau ∧ t = { s with daemon := pc } ∧
      (pc = .top ∨ ∃ n rpkt, rcvd = some (n, rpkt) ∧ validRequest n rpkt ∧ pc = .request rpkt)) ∨
    (∃ rpkt, a = .answer ∧ s.daemon = .request rpkt ∧ s.answer rpkt = none ∧
      e = .unanswered rpkt ∧ t = { s with daemon := .top }) ∨
    (∃ rpkt pkts, a = .answer ∧ s.daemon = .request rpkt ∧ s.answer rpkt = some pkts ∧
      e = .answered rpkt pkts ∧ t = { s with daemon := .putRetransmit pkts }) := by
  unfold step at h
  split at h
  · cases h
  · split at h
    · next data used timestamp duration =>
      exact Or.inl ⟨data, used, timestamp, duration, rfl, Option.some.inj h⟩
    · next hpc =>
      cases h
      exact Or.inr (Or.inl ⟨rfl, hpc, rfl, rfl⟩)
    · next ok pkts hpc =>
      exact Or.inr (Or.inr (Or.inl ⟨ok, pkts, rfl, hpc, Option.some.inj h⟩))
    · next rcvd hpc =>
      refine Or.inr (Or.inr (Or.inr (Or.inr (Or.inl ?_))))
      split at h
      · cases h
        exact ⟨none, .top, rfl, hpc, rfl, rfl, Or.inl rfl⟩
      · next n rpkt =>
        split at h
        · next hvalid =>
          cases h
          exact ⟨_, _, rfl, hpc, rfl, rfl, Or.inr ⟨n, rpkt, rfl, hvalid, rfl⟩⟩
        · cases h
          exact ⟨_, .top, rfl, hpc, rfl, rfl, Or.inl rfl⟩
    · next rpkt hpc =>
      refine Or.inr (Or.inr (Or.inr (Or.inr (Or.inr ?_))))
      split at h
      · next hnone =>
        cases h
        exact Or.inl ⟨rpkt, rfl, hpc, hnone, rfl, rfl⟩
      · next pkts hsome =>
        cases h
        exact Or.inr ⟨rpkt, pkts, rfl, hpc, hsome, rfl, rfl⟩
    · next ok pkts hpc =>
      exact Or.inr (Or.inr (Or.inr (Or.inl ⟨ok, pkts, rfl, hpc, Option.some.inj h⟩)))
    · cases h

end Cases

/-! ## The queue -/

/-- The buffers in the queue: those before `curbuf` have been handed over to the last packet, the
one at `curbuf` to some packet that is not the last, the others not at all. -/
structure QueueAt (c : ℕ) (buffers done rest : List Buffer) : Prop where
  eq : buffers = done ++ rest
  length : done.length = c
  done : ∀ b ∈ done, b.Assembled b.count
  cur : ∀ b ∈ rest.head?, ∃ k, b.Assembled k ∧ (k < b.count ∨ b.count = 0)
  waiting : ∀ b ∈ rest.tail, b.Assembled 0

theorem assembled_zero {b : Buffer} (h : b.sofar = 0) : b.Assembled 0 where
  le_count := Nat.zero_le _
  sofar := by simp [h]

theorem remaining_eq_nil {b : Buffer} (h : b.Assembled b.count) : b.remaining = [] := by
  rw [h.remaining_eq]
  exact List.drop_eq_nil_of_le (by simp)

theorem remaining_eq_packets {b : Buffer} (h : b.Assembled 0) : b.remaining = b.packets := by
  rw [h.remaining_eq, List.drop_zero]

/-- What is left of a buffer before a burst of `n` packets. -/
theorem remaining_burst {b b' : Buffer} {k n : ℕ} (h : b.Assembled k) (hfresh : b'.fresh = b.fresh)
    (h' : b'.Assembled (min (k + n) b.count)) :
    b.remaining = (b.packets.drop k).take n ++ b'.remaining := by
  have hpackets : b'.packets = b.packets := by
    rw [← Buffer.packets_fresh b', hfresh, Buffer.packets_fresh]
  have hdrop : b.packets.drop (min (k + n) b.count) = b.packets.drop (k + n) := by
    obtain hle | hge := Nat.le_total (k + n) b.count
    · rw [min_eq_left hle]
    · rw [min_eq_right hge, List.drop_eq_nil_of_le (by simp), List.drop_eq_nil_of_le (by simpa)]
  rw [h.remaining_eq, h'.remaining_eq, hpackets, hdrop, ← List.drop_drop, List.take_append_drop]

section QueueAt

variable {c : ℕ} {buffers done rest : List Buffer} {b : Buffer}

theorem QueueAt.push (h : QueueAt c buffers done rest) (hb : b.sofar = 0) :
    QueueAt c (buffers ++ [b]) done (rest ++ [b]) where
  eq := by rw [h.eq, List.append_assoc]
  length := h.length
  done := h.done
  cur := by
    cases rest with
    | nil =>
      intro b' hb'
      cases hb'
      exact ⟨0, assembled_zero hb, Nat.eq_zero_or_pos _ |>.symm⟩
    | cons b' rest => exact h.cur
  waiting := by
    cases rest with
    | nil => nofun
    | cons b' rest =>
      intro x hx
      obtain hx | hx := List.mem_append.mp hx
      · exact h.waiting x hx
      · obtain rfl := List.mem_singleton.mp hx
        exact assembled_zero hb

/-- `pop_front` takes a buffer that has been handed over. -/
theorem QueueAt.pop (h : QueueAt c buffers done rest) (hc : 0 < c) :
    ∃ old done', buffers = old :: (done' ++ rest) ∧ old.Assembled old.count ∧
      QueueAt (c - 1) buffers.tail done' rest := by
  obtain ⟨heq, hlength, hdone, hcur, hwaiting⟩ := h
  cases done with
  | nil =>
    rw [← hlength] at hc
    exact absurd hc (lt_irrefl 0)
  | cons old done' =>
    rw [List.length_cons] at hlength
    refine ⟨old, done', heq, hdone old List.mem_cons_self, ?_, ?_, ?_, hcur, hwaiting⟩
    · rw [heq]
      rfl
    · omega
    · exact fun x hx => hdone x (List.mem_cons_of_mem old hx)

theorem QueueAt.getElem? (h : QueueAt c buffers done rest) : buffers[c]? = rest.head? := by
  rw [h.eq, List.getElem?_append_right (Nat.le_of_eq h.length), h.length, Nat.sub_self,
    List.head?_eq_getElem?]

/-- The buffer at `curbuf` has been replaced after a burst. -/
theorem QueueAt.set (h : QueueAt c buffers done rest) (hb : buffers[c]? = some b) {b' : Buffer}
    {k : ℕ} (hb' : b'.Assembled k) :
    ∃ done' rest', QueueAt (if b'.sofar ≥ b'.len then c + 1 else c) (buffers.set c b')
      done' rest' ∧ buffers = done ++ b :: rest.tail ∧
      buffers.set c b' = done ++ b' :: rest.tail := by
  rw [h.getElem?] at hb
  obtain ⟨rest', rfl⟩ : ∃ rest', rest = b :: rest' := by
    cases rest with
    | nil => cases hb
    | cons x rest' =>
      cases hb
      exact ⟨rest', rfl⟩
  have hset : buffers.set c b' = done ++ b' :: rest' := by
    rw [h.eq, List.set_append_right _ _ (Nat.le_of_eq h.length), h.length, Nat.sub_self,
      List.set_cons_zero]
  have hsofar := hb'.sofar
  have hcover := b'.length_le_count_mul
  split
  · next hdone =>
    -- the burst has handed over the last packet
    have hk : b'.Assembled b'.count := by
      refine ⟨le_rfl, ?_⟩
      rw [min_eq_right hcover]
      unfold Buffer.len at hdone
      omega
    refine ⟨done ++ [b'], rest', ⟨?_, ?_, ?_, ?_, ?_⟩, h.eq, hset⟩
    · rw [hset, List.append_assoc]
      rfl
    · rw [List.length_append, h.length]
      rfl
    · intro x hx
      obtain hx | hx := List.mem_append.mp hx
      · exact h.done x hx
      · obtain rfl := List.mem_singleton.mp hx
        exact hk
    · intro x hx
      exact ⟨0, h.waiting x (List.mem_of_mem_head? hx), (Nat.eq_zero_or_pos _).symm⟩
    · exact fun x hx => h.waiting x (List.mem_of_mem_tail hx)
  · next hmore =>
    refine ⟨done, b' :: rest', ⟨hset, h.length, h.done, ?_, h.waiting⟩, h.eq, hset⟩
    intro x hx
    cases hx
    refine ⟨k, hb', Or.inl ?_⟩
    rw [Buffer.lt_count_iff]
    unfold Buffer.len at hmore
    omega

/-- Nothing is left of the buffers before `curbuf`. -/
theorem QueueAt.flatMap_done (h : QueueAt c buffers done rest) :
    done.flatMap Buffer.remaining = [] := by
  rw [List.flatMap_eq_nil_iff]
  exact fun b hb => remaining_eq_nil (h.done b hb)

end QueueAt

def heldBurst (s : FrameSend) : List Packet :=
  match s.daemon with
  | .putBurst pkts => pkts
  | _ => []

/-- The packets of an answer that are still to be put. -/
def heldRetransmit (s : FrameSend) : List Packet :=
  match s.daemon with
  | .putRetransmit pkts => pkts
  | _ => []

/-- The queue after the buffers `bufs` have been sent. -/
structure QueueOk (maxBuffers : ℕ) (bufs : List Buffer) (s : FrameSend) : Prop where
  running : s.aborted = false
  maxbuffers : s.maxbuffers = maxBuffers
  seq : s.seq = UInt32.ofNat bufs.length
  numbered : ∀ i b, bufs[i]? = some b → b.seq = UInt32.ofNat i
  lenOk : ∀ b ∈ bufs, b.LenOk
  suffix : s.buffers.map Buffer.fresh <:+ bufs
  unsent : s.curbuf = none → bufs = []
  sent : ∀ c, s.curbuf = some c → s.buffers.length ≤ maxBuffers ∧
    ∃ done rest, QueueAt c s.buffers done rest

section QueueOk

variable {maxBuffers : ℕ} {bufs : List Buffer} {s t : FrameSend} {e : SendEvent}

theorem queueOk_start (maxBuffers : ℕ) : QueueOk maxBuffers [] (start maxBuffers) where
  running := rfl
  maxbuffers := rfl
  seq := rfl
  numbered := nofun
  lenOk := nofun
  suffix := List.suffix_rfl
  unsent := fun _ => rfl
  sent := nofun

theorem QueueOk.mem_fresh (h : QueueOk maxBuffers bufs s) {b : Buffer} (hb : b ∈ s.buffers) :
    b.fresh ∈ bufs := h.suffix.mem (List.mem_map_of_mem hb)

theorem QueueOk.lenOk_of_mem (h : QueueOk maxBuffers bufs s) {b : Buffer} (hb : b ∈ s.buffers) :
    b.LenOk := h.lenOk b.fresh (h.mem_fresh hb)

theorem QueueOk.setDaemon (h : QueueOk maxBuffers bufs s) (pc : DaemonPc) (sock : Bool) :
    QueueOk maxBuffers bufs { s with sock, daemon := pc } :=
  { h with }

/-- The sequence numbers of the queue follow one another. -/
theorem QueueOk.consecutive (h : QueueOk maxBuffers bufs s) :
    ∃ n, ∀ i b, s.buffers[i]? = some b → b.seq = UInt32.ofNat (n + i) := by
  obtain ⟨gone, hgone⟩ := h.suffix
  refine ⟨gone.length, fun i b hb => ?_⟩
  have hfresh : bufs[gone.length + i]? = some b.fresh := by
    rw [← hgone, List.getElem?_append_right (Nat.le_add_right ..), Nat.add_sub_cancel_left,
      List.getElem?_map, hb]
    rfl
  exact h.numbered _ b.fresh hfresh

theorem QueueOk.queue (h : QueueOk maxBuffers bufs s) {b : Buffer} (hseq : b.seq = s.seq)
    (hsofar : b.sofar = 0) (hlen : b.LenOk) {kept done rest : List Buffer} {c : ℕ}
    (hkept : kept <:+ s.buffers) (hat : QueueAt c kept done rest)
    (hroom : kept.length + 1 ≤ maxBuffers) (ht : t.buffers = kept ++ [b])
    (htcur : t.curbuf = some c) (htseq : t.seq = s.seq + 1) (htmax : t.maxbuffers = s.maxbuffers)
    (htrun : t.aborted = s.aborted) : QueueOk maxBuffers (bufs ++ [b]) t where
  running := htrun.trans h.running
  maxbuffers := htmax.trans h.maxbuffers
  seq := by
    rw [htseq, h.seq, List.length_append]
    exact (UInt32.ofNat_add ..).symm
  numbered := by
    intro i b' hb'
    rw [List.getElem?_append] at hb'
    split at hb'
    · exact h.numbered i b' hb'
    · next hge =>
      obtain ⟨hi, rfl⟩ : i - bufs.length = 0 ∧ b = b' := by
        simpa [List.getElem?_singleton] using hb'
      have hi : i = bufs.length := by omega
      rw [hi, hseq]
      exact h.seq
  lenOk := by
    intro b' hb'
    obtain hb' | hb' := List.mem_append.mp hb'
    · exact h.lenOk b' hb'
    · obtain rfl := List.mem_singleton.mp hb'
      exact hlen
  suffix := by
    obtain ⟨gone, hgone⟩ := (hkept.map Buffer.fresh).trans h.suffix
    have hfresh : b.fresh = b := by rw [Buffer.fresh, ← hsofar]
    refine ⟨gone, ?_⟩
    rw [ht, List.map_append, ← List.append_assoc, hgone, List.map_singleton, hfresh]
  unsent := by
    intro hnone
    rw [htcur] at hnone
    cases hnone
  sent := by
    intro c' hc'
    obtain rfl : c = c' := Option.some.inj (htcur.symm.trans hc')
    refine ⟨?_, done, rest ++ [b], ht ▸ hat.push hsofar⟩
    simpa [ht] using hroom

/-- `send` queues the buffer behind the others, and its packets are left with theirs. -/
theorem QueueOk.send (h : QueueOk maxBuffers bufs s) (hmax : 2 ≤ maxBuffers) {data : List UInt8}
    {used : Option ℕ} {timestamp duration : UInt32}
    (hlen : data.length ≤ 2 ^ 31 - packetSize)
    (hsend : s.send data used timestamp duration = (e, t)) :
    (e = .refused ∧ t = s) ∨ e = .abort ∨
    ∃ b dropped, e = .queued b dropped ∧ QueueOk maxBuffers (bufs ++ [b]) t ∧
      t.daemon = s.daemon ∧
      t.buffers.flatMap Buffer.remaining = s.buffers.flatMap Buffer.remaining ++ b.packets := by
  unfold FrameSend.send at hsend
  split at hsend
  · generalize hb : Buffer.mk s.seq data used timestamp duration 0 = b at hsend
    have hseq : b.seq = s.seq := by rw [← hb]
    have hsofar : b.sofar = 0 := by rw [← hb]
    have hlenOk : b.LenOk := by
      rw [← hb]
      exact hlen
    have hleft : b.remaining = b.packets := remaining_eq_packets (assembled_zero hsofar)
    obtain ⟨hcur, rfl, rfl⟩ | ⟨c, hcur, hold, rfl, rfl⟩ | ⟨c, hcur, -, hspace, rfl, rfl⟩ |
      ⟨rfl, -⟩ := sendBuffer_cases hsend
    · have hempty : s.buffers = [] := by
        have hsuffix := h.suffix
        rwa [h.unsent hcur, List.suffix_nil, List.map_eq_nil_iff] at hsuffix
      have hat : QueueAt 0 s.buffers [] [] := ⟨hempty, rfl, nofun, nofun, nofun⟩
      have hroom : s.buffers.length + 1 ≤ maxBuffers := by
        rw [hempty]
        exact Nat.le_trans (by decide) hmax
      refine Or.inr (Or.inr ⟨b, none, rfl, ?_, rfl, ?_⟩)
      · exact h.queue hseq hsofar hlenOk List.suffix_rfl hat hroom rfl rfl rfl rfl rfl
      · simp [hleft]
    · obtain ⟨hlength, done, rest, hat⟩ := h.sent c hcur
      have hhalf : s.maxbuffers / 2 ≤ c := hold
      rw [h.maxbuffers] at hhalf
      obtain ⟨old, done', heq, hdone, htail⟩ := hat.pop (by omega)
      have hroom : s.buffers.tail.length + 1 ≤ maxBuffers := by
        rw [heq] at hlength ⊢
        exact hlength
      refine Or.inr (Or.inr ⟨b, s.buffers.head?, rfl, ?_, rfl, ?_⟩)
      · exact h.queue hseq hsofar hlenOk (List.tail_suffix _) htail hroom rfl rfl rfl rfl rfl
      · simp [heq, hleft, remaining_eq_nil hdone]
    · obtain ⟨hlength, done, rest, hat⟩ := h.sent c hcur
      have hroom : s.buffers.length + 1 ≤ maxBuffers := by
        rw [← h.maxbuffers]
        exact hspace
      refine Or.inr (Or.inr ⟨b, none, rfl, ?_, rfl, ?_⟩)
      · exact h.queue hseq hsofar hlenOk List.suffix_rfl hat hroom rfl hcur rfl rfl rfl
      · simp [hleft]
    · exact Or.inr (Or.inl rfl)
  · cases hsend
    exact Or.inl ⟨rfl, rfl⟩

theorem QueueOk.assemble (h : QueueOk maxBuffers bufs s) (packetBurst : ℤ) :
    QueueOk maxBuffers bufs (s.assemble packetBurst) ∧
      (s.assemble packetBurst).heldBurst
          ++ (s.assemble packetBurst).buffers.flatMap Buffer.remaining
        = s.buffers.flatMap Buffer.remaining ∧
      (s.assemble packetBurst).heldRetransmit = [] ∧
      (s.assemble packetBurst).daemon ≠ .ended := by
  unfold FrameSend.assemble
  split
  · exact ⟨h.setDaemon .poll s.sock, rfl, rfl, nofun⟩
  · next c hcur =>
    obtain ⟨hlength, done, rest, hat⟩ := h.sent c hcur
    split
    · exact ⟨h.setDaemon .poll s.sock, rfl, rfl, nofun⟩
    · next b hb =>
      obtain ⟨k, hk, hnext⟩ := hat.cur b (hat.getElem? ▸ hb)
      have hlen := h.lenOk_of_mem (List.mem_of_getElem? hb)
      obtain ⟨b', hburst, hfresh, hb'⟩ := burst_eq hk packetBurst.toNat
      rw [hlen.pktTotal_eq, hk.tdiv hnext, hburst]
      obtain ⟨done', rest', hat', heq, hset⟩ := hat.set hb hb'
      have hsuffix : (s.buffers.set c b').map Buffer.fresh = s.buffers.map Buffer.fresh := by
        rw [hset, heq, List.map_append, List.map_append, List.map_cons, List.map_cons, hfresh]
      refine ⟨⟨h.running, h.maxbuffers, h.seq, h.numbered, h.lenOk, hsuffix ▸ h.suffix, nofun, ?_⟩,
        ?_, rfl, nofun⟩
      · rintro c' ⟨⟩
        refine ⟨?_, done', rest', hat'⟩
        exact Nat.le_trans (Nat.le_of_eq List.length_set) hlength
      · simp only [heldBurst]
        rw [hset, heq, List.flatMap_append, List.flatMap_append, List.flatMap_cons,
          List.flatMap_cons, hat.flatMap_done, List.nil_append, List.nil_append,
          ← List.append_assoc,
          ← remaining_burst hk hfresh hb']

end QueueOk

/-! ## The wire -/

/-- The buffers sent, in the order of the calls of `send`. -/
def sentBuffers (tr : List SendEvent) : List Buffer :=
  tr.filterMap fun
    | .queued b _ => some b
    | _ => none

def onWire (pktType : ℤ) (tr : List SendEvent) : List Packet :=
  tr.filterMap fun
    | .wire pkt => if pkt.header.pktType = pktType then some pkt else none
    | _ => none

/-- The packets that the daemon has assembled for requests. -/
def answers (tr : List SendEvent) : List Packet :=
  tr.flatMap fun
    | .answered _ pkts => pkts
    | _ => []

/-- What has been put on the wire, and what has not. Only a daemon that has ended loses
packets. -/
structure WireOk (tr : List SendEvent) (s : FrameSend) : Prop where
  broadcast : ∀ p ∈ s.heldBurst, p.header.pktType = pktBroadcast
  rebroadcast : ∀ p ∈ s.heldRetransmit, p.header.pktType = pktRebroadcast
  wire : ∃ left, onWire pktBroadcast tr ++ left = (sentBuffers tr).flatMap Buffer.packets ∧
    (s.daemon ≠ .ended → left = s.heldBurst ++ s.buffers.flatMap Buffer.remaining)
  answered : ∃ left, onWire pktRebroadcast tr ++ left = answers tr ∧
    (s.daemon ≠ .ended → left = s.heldRetransmit)

/-- The queue and the wire after a run that has shown `tr`. -/
structure Inv (maxBuffers : ℕ) (tr : List SendEvent) (s : FrameSend) : Prop where
  queue : QueueOk maxBuffers (sentBuffers tr) s
  wire : WireOk tr s

theorem inv_start (maxBuffers : ℕ) : Inv maxBuffers [] (start maxBuffers) where
  queue := queueOk_start maxBuffers
  wire := ⟨nofun, nofun, ⟨[], rfl, fun _ => rfl⟩, ⟨[], rfl, fun _ => rfl⟩⟩

section Inv

variable {packetBurst : ℤ} {maxBuffers : ℕ} {tr : List SendEvent} {s t : FrameSend}
  {a : SendAction} {e : SendEvent}

@[simp] theorem sentBuffers_append (tr tr' : List SendEvent) :
    sentBuffers (tr ++ tr') = sentBuffers tr ++ sentBuffers tr' := List.filterMap_append ..

@[simp] theorem onWire_append (ty : ℤ) (tr tr' : List SendEvent) :
    onWire ty (tr ++ tr') = onWire ty tr ++ onWire ty tr' := List.filterMap_append ..

@[simp] theorem answers_append (tr tr' : List SendEvent) :
    answers (tr ++ tr') = answers tr ++ answers tr' := List.flatMap_append ..

/-- What a step has to show of the packets: the new ones on the wire and those that are left
after it are those that were left before it and the new ones of the queue. -/
theorem WireOk.next (h : WireOk tr s)
    (hbroadcast : ∀ p ∈ t.heldBurst, p.header.pktType = pktBroadcast)
    (hrebroadcast : ∀ p ∈ t.heldRetransmit, p.header.pktType = pktRebroadcast)
    (hlost : t.daemon = .ended → (∀ ty, onWire ty [e] = []) ∧ answers [e] = [])
    (hwire : t.daemon ≠ .ended → s.daemon ≠ .ended ∧
      onWire pktBroadcast [e] ++ (t.heldBurst ++ t.buffers.flatMap Buffer.remaining)
        = s.heldBurst ++ s.buffers.flatMap Buffer.remaining
          ++ (sentBuffers [e]).flatMap Buffer.packets ∧
      onWire pktRebroadcast [e] ++ t.heldRetransmit = s.heldRetransmit ++ answers [e]) :
    WireOk (tr ++ [e]) t := by
  obtain ⟨left, hleft, hall⟩ := h.wire
  obtain ⟨left', hleft', hall'⟩ := h.answered
  by_cases hend : t.daemon = .ended
  · obtain ⟨hnone, hnone'⟩ := hlost hend
    refine ⟨hbroadcast, hrebroadcast,
      ⟨left ++ (sentBuffers [e]).flatMap Buffer.packets, ?_, absurd hend⟩,
      ⟨left', ?_, absurd hend⟩⟩
    · rw [onWire_append, hnone, List.append_nil, ← List.append_assoc, hleft, sentBuffers_append,
        List.flatMap_append]
    · rw [onWire_append, hnone, answers_append, hnone', List.append_nil, List.append_nil, hleft']
  · obtain ⟨hs, hburst, hretransmit⟩ := hwire hend
    refine ⟨hbroadcast, hrebroadcast, ⟨_, ?_, fun _ => rfl⟩, ⟨_, ?_, fun _ => rfl⟩⟩
    · rw [onWire_append, List.append_assoc, hburst, ← hall hs, ← List.append_assoc, hleft,
        sentBuffers_append, List.flatMap_append]
    · rw [onWire_append, List.append_assoc, hretransmit, ← hall' hs, ← List.append_assoc, hleft',
        answers_append]

/-- A step that shows nothing and moves the daemon between places where it holds no packets. -/
theorem WireOk.move (h : WireOk tr s) (hs : s.heldBurst = []) (hs' : s.heldRetransmit = [])
    (hsnot : s.daemon ≠ .ended) (pc : DaemonPc)
    (ht : ({ s with daemon := pc } : FrameSend).heldBurst = [])
    (ht' : ({ s with daemon := pc } : FrameSend).heldRetransmit = [])
    (hwire : ∀ ty, onWire ty [e] = []) (hsent : sentBuffers [e] = []) (hans : answers [e] = []) :
    WireOk (tr ++ [e]) { s with daemon := pc } := by
  refine h.next (by simp [ht]) (by simp [ht']) (fun _ => ⟨hwire, hans⟩) fun _ => ⟨hsnot, ?_, ?_⟩
  · rw [hwire, hsent, hs, ht]
    simp
  · rw [hwire, hans, hs', ht']

theorem WireOk.putBurst (h : WireOk tr s) {ok : Bool} (hpc : s.daemon = .putBurst pkts)
    (hput : s.put ok .putBurst .poll pkts = (e, t)) : WireOk (tr ++ [e]) t := by
  have hheld : s.heldBurst = pkts := by rw [heldBurst, hpc]
  have hheld' : s.heldRetransmit = [] := by rw [heldRetransmit, hpc]
  have hnot : s.daemon ≠ .ended := by simp [hpc]
  obtain ⟨rfl, rfl, rfl⟩ | ⟨pkt, rest, rfl, rfl, rfl⟩ | ⟨rfl, rfl⟩ := put_cases hput
  · exact h.move hheld hheld' hnot _ rfl rfl (fun _ => rfl) rfl rfl
  · have hty := h.broadcast pkt (by simp [hheld])
    refine h.next ?_ nofun nofun fun _ => ⟨hnot, ?_, ?_⟩
    · exact fun p hp => h.broadcast p (hheld ▸ List.mem_cons_of_mem pkt hp)
    · simp [onWire, hty, heldBurst, hpc, sentBuffers]
    · simp [onWire, hty, heldRetransmit, hpc, answers, pktBroadcast, pktRebroadcast]
  · exact h.next nofun nofun (fun _ => ⟨fun _ => rfl, rfl⟩) (absurd rfl)

theorem WireOk.putRetransmit (h : WireOk tr s) {ok : Bool} (hpc : s.daemon = .putRetransmit pkts)
    (hput : s.put ok .putRetransmit .top pkts = (e, t)) : WireOk (tr ++ [e]) t := by
  have hheld : s.heldBurst = [] := by rw [heldBurst, hpc]
  have hheld' : s.heldRetransmit = pkts := by rw [heldRetransmit, hpc]
  have hnot : s.daemon ≠ .ended := by simp [hpc]
  obtain ⟨rfl, rfl, rfl⟩ | ⟨pkt, rest, rfl, rfl, rfl⟩ | ⟨rfl, rfl⟩ := put_cases hput
  · exact h.move hheld hheld' hnot _ rfl rfl (fun _ => rfl) rfl rfl
  · have hty := h.rebroadcast pkt (by simp [hheld'])
    refine h.next nofun ?_ nofun fun _ => ⟨hnot, ?_, ?_⟩
    · exact fun p hp => h.rebroadcast p (hheld' ▸ List.mem_cons_of_mem pkt hp)
    · simp [onWire, hty, heldBurst, hpc, sentBuffers, pktBroadcast, pktRebroadcast]
    · simp [onWire, hty, heldRetransmit, hpc, answers]
  · exact h.next nofun nofun (fun _ => ⟨fun _ => rfl, rfl⟩) (absurd rfl)

/-- A `put` leaves the queue alone. -/
theorem QueueOk.put {bufs : List Buffer} (h : QueueOk maxBuffers bufs s) {ok : Bool}
    {next : List Packet → DaemonPc} {done : DaemonPc} (hput : s.put ok next done pkts = (e, t)) :
    QueueOk maxBuffers bufs t ∧ sentBuffers [e] = [] := by
  obtain ⟨-, rfl, rfl⟩ | ⟨pkt, rest, -, rfl, rfl⟩ | ⟨rfl, rfl⟩ := put_cases hput
  · exact ⟨h.setDaemon _ s.sock, rfl⟩
  · exact ⟨h.setDaemon _ s.sock, rfl⟩
  · exact ⟨h.setDaemon _ false, rfl⟩

theorem retransmitPacket_some {b : Buffer} {rpkt : RetransmitPacket} {pktNum : ℤ} {pkt : Packet}
    (h : retransmitPacket b rpkt pktNum = some pkt) : pkt.header.pktType = pktRebroadcast := by
  simp only [retransmitPacket] at h
  split_ifs at h
  all_goals
    cases h
    rfl

theorem answer_cases {rpkt : RetransmitPacket} (h : s.answer rpkt = some pkts) :
    ∃ b ∈ s.buffers, b.seq = rpkt.header.seq ∧
      pkts = (requestNums rpkt).filterMap (retransmitPacket b rpkt) := by
  unfold FrameSend.answer at h
  split at h
  · cases h
  · split at h
    · cases h
    · next b hb =>
      split at h
      · cases h
      · next hseq =>
        split at h
        · cases h
        · cases h
          exact ⟨b, List.mem_of_getElem? hb, not_not.mp hseq, rfl⟩

theorem Inv.step (h : Inv maxBuffers tr s) (hmax : 2 ≤ maxBuffers)
    (hlen : ∀ data used timestamp duration, a = .send data used timestamp duration →
      data.length ≤ 2 ^ 31 - packetSize)
    (hstep : step packetBurst s a = some (e, t)) (hne : e ≠ .abort) :
    Inv maxBuffers (tr ++ [e]) t := by
  have hqueue := h.queue
  obtain ⟨data, used, timestamp, duration, rfl, hsend⟩ | ⟨rfl, hpc, rfl, rfl⟩ |
    ⟨ok, pkts, rfl, hpc, hput⟩ | ⟨ok, pkts, rfl, hpc, hput⟩ |
    ⟨rcvd, pc, rfl, hpc, rfl, rfl, hnext⟩ | ⟨rpkt, rfl, hpc, -, rfl, rfl⟩ |
    ⟨rpkt, pkts, rfl, hpc, hanswer, rfl, rfl⟩ := step_cases hstep
  · obtain ⟨rfl, rfl⟩ | rfl | ⟨b, dropped, rfl, hqueue', hdaemon, hleft⟩ :=
      h.queue.send hmax (hlen _ _ _ _ rfl) hsend
    · refine ⟨by simpa [sentBuffers] using hqueue, ?_⟩
      refine h.wire.next h.wire.broadcast h.wire.rebroadcast (fun _ => ⟨fun _ => rfl, rfl⟩)
        fun hs => ⟨hs, ?_, ?_⟩
      · simp [onWire, sentBuffers]
      · simp [onWire, answers]
    · exact absurd rfl hne
    · have hheld : t.heldBurst = s.heldBurst := by rw [heldBurst, hdaemon, heldBurst]
      have hheld' : t.heldRetransmit = s.heldRetransmit := by
        rw [heldRetransmit, hdaemon, heldRetransmit]
      refine ⟨by simpa [sentBuffers] using hqueue', ?_⟩
      refine h.wire.next (hheld ▸ h.wire.broadcast) (hheld' ▸ h.wire.rebroadcast)
        (fun _ => ⟨fun _ => rfl, rfl⟩) fun hs => ⟨hdaemon ▸ hs, ?_, ?_⟩
      · simp [onWire, sentBuffers, hheld, hleft]
      · simp [onWire, answers, hheld']
  · obtain ⟨hqueue', hleft, hheld', hnot⟩ := h.queue.assemble packetBurst
    have hnone : s.heldBurst = [] := by rw [heldBurst, hpc]
    have hnone' : s.heldRetransmit = [] := by rw [heldRetransmit, hpc]
    refine ⟨by simpa [sentBuffers] using hqueue', ?_⟩
    refine h.wire.next ?_ (by simp [hheld']) (absurd · hnot) fun _ => ⟨by simp [hpc], ?_, ?_⟩
    · intro p hp
      have hmem : p ∈ s.buffers.flatMap Buffer.remaining := hleft ▸ List.mem_append_left _ hp
      obtain ⟨b, -, hp⟩ := List.mem_flatMap.mp hmem
      exact Buffer.pktType_packets (List.mem_of_mem_drop hp)
    · simp [onWire, sentBuffers, hleft, hnone]
    · simp [onWire, answers, hheld', hnone']
  · obtain ⟨hqueue', hsent⟩ := hqueue.put hput
    exact ⟨by simpa [hsent] using hqueue', h.wire.putBurst hpc hput⟩
  · obtain ⟨hqueue', hsent⟩ := hqueue.put hput
    exact ⟨by simpa [hsent] using hqueue', h.wire.putRetransmit hpc hput⟩
  · have hnone : s.heldBurst = [] := by rw [heldBurst, hpc]
    have hnone' : s.heldRetransmit = [] := by rw [heldRetransmit, hpc]
    refine ⟨by simpa [sentBuffers] using hqueue.setDaemon pc s.sock, ?_⟩
    obtain rfl | ⟨n, rpkt, -, -, rfl⟩ := hnext
    · exact h.wire.move hnone hnone' (by simp [hpc]) .top rfl rfl (fun _ => rfl) rfl rfl
    · exact h.wire.move hnone hnone' (by simp [hpc]) (.request rpkt) rfl rfl (fun _ => rfl) rfl rfl
  · have hnone : s.heldBurst = [] := by rw [heldBurst, hpc]
    have hnone' : s.heldRetransmit = [] := by rw [heldRetransmit, hpc]
    refine ⟨by simpa [sentBuffers] using hqueue.setDaemon .top s.sock, ?_⟩
    exact h.wire.move hnone hnone' (by simp [hpc]) .top rfl rfl (fun _ => rfl) rfl rfl
  · obtain ⟨b, -, -, rfl⟩ := answer_cases hanswer
    refine ⟨by simpa [sentBuffers] using hqueue.setDaemon (.putRetransmit _) s.sock, ?_⟩
    refine h.wire.next nofun ?_ nofun fun _ => ⟨by simp [hpc], ?_, ?_⟩
    · intro p hp
      obtain ⟨k, -, hk⟩ := List.mem_filterMap.mp hp
      exact retransmitPacket_some hk
    · simp [onWire, sentBuffers, heldBurst, hpc]
    · simp [onWire, answers, heldRetransmit, hpc]

end Inv

/-! ## Requests -/

/-- The sequence numbers of the queue do not run over `2 ^ 32`. -/
def NoWrap (s : FrameSend) : Prop :=
  ∀ b ∈ s.buffers.head?, b.seq.toNat + s.buffers.length ≤ 2 ^ 32

instance (s : FrameSend) : Decidable s.NoWrap :=
  inferInstanceAs (Decidable (∀ b ∈ s.buffers.head?, b.seq.toNat + s.buffers.length ≤ 2 ^ 32))

section Requests

variable {maxBuffers : ℕ} {bufs : List Buffer} {s : FrameSend} {b : Buffer}
  {rpkt : RetransmitPacket}

theorem QueueOk.seq_toNat (h : QueueOk maxBuffers bufs s) (hwrap : s.NoWrap) :
    ∃ n, ∀ (i : ℕ) (b : Buffer), s.buffers[i]? = some b → b.seq.toNat = n + i := by
  obtain ⟨n, hn⟩ := h.consecutive
  refine ⟨n % 2 ^ 32, fun i b hb => ?_⟩
  have hi : i < s.buffers.length := (List.getElem?_eq_some_iff.mp hb).1
  have hhead : s.buffers[0]? = some (s.buffers[0]) := List.getElem?_eq_getElem (by omega)
  have hfirst := hwrap _ (List.head?_eq_getElem? ▸ hhead)
  rw [hn 0 _ hhead, Nat.add_zero, UInt32.toNat_ofNat'] at hfirst
  rw [hn i b hb, UInt32.toNat_ofNat']
  omega

theorem QueueOk.find (h : QueueOk maxBuffers bufs s) (hwrap : s.NoWrap) (hb : b ∈ s.buffers)
    (hseq : b.seq = rpkt.header.seq) :
    s.buffers[lowerBound (fun b => decide (b.seq < rpkt.header.seq)) s.buffers]? = some b := by
  obtain ⟨n, hn⟩ := h.seq_toNat hwrap
  obtain ⟨j, hj⟩ := List.mem_iff_getElem?.mp hb
  have hjb := hn j b hj
  rw [lowerBound_eq (k := j) ?_ ?_]
  · exact hj
  · intro i x hx
    rw [decide_eq_true_eq, ← hseq, UInt32.lt_iff_toNat_lt, hn i x hx, hjb]
    omega
  · exact Nat.le_of_lt (List.getElem?_eq_some_iff.mp hj).1

/-- A packet that is asked for is sent again as it was. -/
theorem retransmitPacket_eq (hlen : b.LenOk) (hseq : b.seq = rpkt.header.seq) {k : ℕ}
    (hlt : k < b.count) : retransmitPacket b rpkt k = some (b.packet pktRebroadcast k) := by
  have hcount := hlen.count_le
  have hpos : 0 < (piece packetSize b.data k).length := by
    have hbelow := Buffer.lt_count_iff.mp hlt
    rw [length_piece]
    exact Nat.lt_min.mpr ⟨Buffer.packetSize_pos, by omega⟩
  have hle : (piece packetSize b.data k).length ≤ packetSize := by
    rw [length_piece]
    exact Nat.min_le_left ..
  obtain ⟨hnum, hoff, hrest⟩ := hlen.int32_packet (k := k) (by omega)
  have hpktLen := Buffer.pktLen_eq hlt
  simp only [retransmitPacket, hlen.pktTotal_eq, hnum, hoff, hrest, hpktLen, Buffer.copy_eq]
  rw [if_neg (by omega), if_neg (by omega), ← hseq]
  rfl

theorem QueueOk.answer_eq (h : QueueOk maxBuffers bufs s) (hwrap : s.NoWrap) (hb : b ∈ s.buffers)
    (hseq : b.seq = rpkt.header.seq) (hcount : requestCount rpkt ≤ maximumRetransmit)
    (hnums : ∀ k ∈ requestNums rpkt, 0 ≤ k ∧ k < b.count) :
    s.answer rpkt
      = some ((requestNums rpkt).map fun k => b.packet pktRebroadcast k.toNat) := by
  have hlen := h.lenOk_of_mem hb
  have hcur : s.curbuf ≠ none := by
    intro hnone
    have hmem := h.mem_fresh hb
    rw [h.unsent hnone] at hmem
    cases hmem
  have hpkts : (requestNums rpkt).filterMap (retransmitPacket b rpkt)
      = (requestNums rpkt).map fun k => b.packet pktRebroadcast k.toNat := by
    rw [← List.filterMap_eq_map']
    refine List.filterMap_congr fun k hk => ?_
    obtain ⟨hk0, hlt⟩ := hnums k hk
    obtain ⟨k, rfl⟩ := Int.eq_ofNat_of_zero_le hk0
    rw [retransmitPacket_eq hlen hseq (by exact_mod_cast hlt)]
    rfl
  obtain ⟨c, hc⟩ := Option.ne_none_iff_exists'.mp hcur
  simp only [FrameSend.answer, hc, h.find hwrap hb hseq, hpkts]
  rw [if_neg (not_not.mpr hseq), if_neg (not_lt.mpr hcount)]

end Requests

/-! ## Dropped buffers -/

/-- The buffer that the step has taken out of the queue. -/
def dropped : SendEvent → Option Buffer
  | .queued _ old => old
  | _ => none

/-- What a step from `s` to `t` that shows `e` drops: a buffer whose packets have all been
assembled, when at least half of the buffers are such, and no other. -/
structure DropOk (maxBuffers : ℕ) (s : FrameSend) (e : SendEvent) (t : FrameSend) : Prop where
  done : ∀ old, dropped e = some old → old ∈ s.buffers ∧ old.sofar = old.len ∧
    maxBuffers / 2 ≤ s.buffers.countP fun b => b.sofar = b.len
  cleared : ∀ old, dropped e = some old → ∀ i, old.used = some i → t.inUse i = false
  kept : ∀ b ∈ s.buffers, dropped e = some b ∨ ∃ b' ∈ t.buffers, b'.fresh = b.fresh
  flags : ∀ i, s.inUse i = true → t.inUse i = false →
    ∃ old, dropped e = some old ∧ old.used = some i

section Drop

variable {packetBurst : ℤ} {maxBuffers : ℕ} {bufs : List Buffer} {s t : FrameSend}
  {a : SendAction} {e : SendEvent}

theorem dropOk_of_fresh (hdrop : dropped e = none)
    (hflags : ∀ i, s.inUse i = true → t.inUse i = true)
    (hfresh : s.buffers.map Buffer.fresh <+: t.buffers.map Buffer.fresh) :
    DropOk maxBuffers s e t where
  done := by simp [hdrop]
  cleared := by simp [hdrop]
  kept := by
    intro b hb
    obtain ⟨b', hb', heq⟩ := List.mem_map.mp (hfresh.mem (List.mem_map_of_mem hb))
    exact Or.inr ⟨b', hb', heq⟩
  flags := by
    intro i hs ht
    rw [hflags i hs] at ht
    cases ht

theorem setUsed_true {inUse : ℕ → Bool} {i : ℕ} (used : Option ℕ) (h : inUse i = true) :
    setUsed inUse used true i = true := by
  cases used with
  | none => exact h
  | some j =>
    by_cases hij : i = j
    · simp [setUsed, hij]
    · simpa [setUsed, hij] using h

/-- The branch of `send` that drops the first buffer. -/
theorem QueueOk.dropOk_pop (h : QueueOk maxBuffers bufs s) (hmax : 2 ≤ maxBuffers) {c : ℕ}
    (hcur : s.curbuf = some c) (hold : s.maxbuffers / 2 ≤ c) {b : Buffer} {inUse : ℕ → Bool}
    (hflags : ∀ i, s.inUse i = true → inUse i = true) (ht : t.buffers = s.buffers.tail ++ [b])
    (htuse : t.inUse = setUsed inUse (s.buffers.head?.bind Buffer.used) false) :
    DropOk maxBuffers s (.queued b s.buffers.head?) t := by
  obtain ⟨-, done, rest, hat⟩ := h.sent c hcur
  rw [h.maxbuffers] at hold
  obtain ⟨old, done', heq, hdone, -⟩ := hat.pop (by omega)
  have hfull : ∀ b' : Buffer, b'.Assembled b'.count → b'.sofar = b'.len := by
    intro b' hb'
    rw [hb'.sofar, min_eq_right b'.length_le_count_mul, Buffer.len]
  rw [heq] at ht htuse ⊢
  simp only [List.head?_cons, Option.bind_some] at htuse
  refine ⟨?_, ?_, ?_, ?_⟩
  · rintro _ ⟨⟩
    refine ⟨by simp [heq], hfull old hdone, ?_⟩
    have hcount : done.countP (fun b => decide (b.sofar = b.len)) = done.length := by
      rw [List.countP_eq_length]
      exact fun b' hb' => decide_eq_true (hfull b' (hat.done b' hb'))
    rw [hat.eq, List.countP_append, hcount, hat.length]
    omega
  · rintro _ ⟨⟩ i hi
    rw [htuse, hi]
    simp [setUsed]
  · intro b' hb'
    rw [heq] at hb'
    obtain rfl | hb' := List.mem_cons.mp hb'
    · exact Or.inl rfl
    · refine Or.inr ⟨b', ?_, rfl⟩
      rw [ht]
      exact List.mem_append_left _ hb'
  · intro i hs hti
    refine ⟨old, rfl, ?_⟩
    rw [htuse] at hti
    by_contra hne
    have hsame : setUsed inUse old.used false i = inUse i := by
      cases hused : old.used with
      | none => rfl
      | some j =>
        have hij : i ≠ j := fun hij => hne (hij ▸ hused)
        simp [setUsed, hij]
    rw [hsame, hflags i hs] at hti
    cases hti

theorem QueueOk.dropOk (h : QueueOk maxBuffers bufs s) (hmax : 2 ≤ maxBuffers)
    (hstep : step packetBurst s a = some (e, t)) : DropOk maxBuffers s e t := by
  have hput : ∀ {ok next done pkts}, s.put ok next done pkts = (e, t) →
      DropOk maxBuffers s e t := by
    intro ok next done pkts hput
    obtain ⟨-, rfl, rfl⟩ | ⟨pkt, rest, -, rfl, rfl⟩ | ⟨rfl, rfl⟩ := put_cases hput
    all_goals exact dropOk_of_fresh rfl (fun _ => id) List.prefix_rfl
  obtain ⟨data, used, timestamp, duration, rfl, hsend⟩ | ⟨rfl, -, rfl, rfl⟩ |
    ⟨ok, pkts, rfl, -, hburst⟩ | ⟨ok, pkts, rfl, -, hretransmit⟩ |
    ⟨rcvd, pc, rfl, -, rfl, rfl, -⟩ | ⟨rpkt, rfl, -, -, rfl, rfl⟩ |
    ⟨rpkt, pkts, rfl, -, -, rfl, rfl⟩ := step_cases hstep
  · unfold FrameSend.send at hsend
    split at hsend
    · have hflags : ∀ i, s.inUse i = true → setUsed s.inUse used true i = true :=
        fun i hi => setUsed_true used hi
      obtain ⟨-, rfl, rfl⟩ | ⟨c, hcur, hold, rfl, rfl⟩ | ⟨c, -, -, -, rfl, rfl⟩ | ⟨rfl, rfl⟩ :=
        sendBuffer_cases hsend
      · exact dropOk_of_fresh rfl hflags (List.map_append ▸ List.prefix_append ..)
      · exact h.dropOk_pop hmax hcur hold hflags rfl rfl
      · exact dropOk_of_fresh rfl hflags (List.map_append ▸ List.prefix_append ..)
      · exact dropOk_of_fresh rfl hflags List.prefix_rfl
    · cases hsend
      exact dropOk_of_fresh rfl (fun _ => id) List.prefix_rfl
  · refine dropOk_of_fresh rfl ?_ (map_fresh_assemble packetBurst s ▸ List.prefix_rfl)
    rw [inUse_assemble]
    exact fun _ => id
  · exact hput hburst
  · exact hput hretransmit
  · exact dropOk_of_fresh rfl (fun _ => id) List.prefix_rfl
  · exact dropOk_of_fresh rfl (fun _ => id) List.prefix_rfl
  · exact dropOk_of_fresh rfl (fun _ => id) List.prefix_rfl

end Drop

/-! ## Whole runs -/

/-- The condition on a step in state `s`: the number of packets of a buffer can be computed in
type `int`, and the buffer of a request is looked for in a queue whose sequence numbers do not
run over `2 ^ 32`. -/
def StepOk (s : FrameSend) : SendAction → Prop
  | .send data _ _ _ => data.length ≤ 2 ^ 31 - packetSize
  | .answer => s.NoWrap
  | _ => True

instance (s : FrameSend) (a : SendAction) : Decidable (s.StepOk a) :=
  match a with
  | .send data _ _ _ => inferInstanceAs (Decidable (data.length ≤ 2 ^ 31 - packetSize))
  | .answer => inferInstanceAs (Decidable s.NoWrap)
  | .assemble | .put _ | .poll _ => .isTrue trivial

/-- What holds of the wire, of the queue and of the next step after a run that has shown `tr`. -/
structure Safe (packetBurst : ℤ) (maxBuffers : ℕ) (tr : List SendEvent) (s : FrameSend) : Prop where
  /-- The broadcast packets on the wire are the packets of the buffers in the order of the calls of
  `send`. -/
  wire : ∃ left, onWire pktBroadcast tr ++ left = (sentBuffers tr).flatMap Buffer.packets ∧
    (s.daemon ≠ .ended → left = s.heldBurst ++ s.buffers.flatMap Buffer.remaining)
  payload : ∀ b ∈ sentBuffers tr, (b.packets.map Packet.payload).flatten = b.data
  /-- An empty buffer has nothing to send. -/
  curbuf : sentBuffers tr ≠ [] → ∃ c, s.curbuf = some c ∧ c ≤ s.buffers.length ∧
    s.buffers.length ≤ maxBuffers ∧ ∀ i b, s.buffers[i]? = some b →
      (i < c → b.sofar = b.len) ∧ (c ≤ i → b.sofar < b.len ∨ b.data = [])
  queued : s.buffers.map Buffer.fresh <:+ sentBuffers tr
  consecutive : ∃ n, ∀ i b, s.buffers[i]? = some b → b.seq = UInt32.ofNat (n + i)
  dropped : ∀ a e t, step packetBurst s a = some (e, t) → DropOk maxBuffers s e t
  /-- A request is answered with the packets it asks for, as they were in the first broadcast. -/
  answer : s.StepOk .answer → ∀ rpkt, s.daemon = .request rpkt →
    ∀ b ∈ s.buffers, b.seq = rpkt.header.seq → requestCount rpkt ≤ maximumRetransmit →
    (∀ k ∈ requestNums rpkt, 0 ≤ k ∧ k < b.count) →
    ∃ t, step packetBurst s .answer = some (.answered rpkt
      ((requestNums rpkt).map fun k => b.packet pktRebroadcast k.toNat), t)
  /-- The packets of the answers are put on the wire, each once and in order. -/
  answered : ∃ left, onWire pktRebroadcast tr ++ left = answers tr ∧
    (s.daemon ≠ .ended → left = s.heldRetransmit)

section Runs

variable {packetBurst : ℤ} {maxBuffers : ℕ} {tr : List SendEvent} {s : FrameSend}

theorem QueueAt.curbuf {c : ℕ} {buffers done rest : List Buffer}
    (h : QueueAt c buffers done rest) : c ≤ buffers.length ∧ ∀ i b, buffers[i]? = some b →
      (i < c → b.sofar = b.len) ∧ (c ≤ i → b.sofar < b.len ∨ b.data = []) := by
  have hat : ∀ (b : Buffer) k, b.Assembled k → (k < b.count ∨ b.count = 0) →
      b.sofar < b.len ∨ b.data = [] := by
    intro b k hk hlt
    obtain hlt | hzero := hlt
    · left
      have hbelow := Buffer.lt_count_iff.mp hlt
      have hsofar := hk.sofar
      unfold Buffer.len
      omega
    · right
      have hcover := b.length_le_count_mul
      rw [hzero, Nat.zero_mul] at hcover
      exact List.eq_nil_of_length_eq_zero (Nat.le_zero.mp hcover)
  refine ⟨?_, fun i b hb => ⟨fun hi => ?_, fun hi => ?_⟩⟩
  · rw [h.eq, List.length_append, h.length]
    exact Nat.le_add_right ..
  · rw [h.eq, List.getElem?_append_left (h.length ▸ hi)] at hb
    have hb := h.done b (List.mem_of_getElem? hb)
    rw [hb.sofar, min_eq_right b.length_le_count_mul, Buffer.len]
  · rw [h.eq, List.getElem?_append_right (h.length ▸ hi)] at hb
    cases rest with
    | nil => simp at hb
    | cons b' rest =>
      obtain rfl | hb := List.mem_cons.mp (List.mem_of_getElem? hb)
      · obtain ⟨k, hk, hlt⟩ := h.cur b rfl
        exact hat b k hk hlt
      · exact hat b 0 (h.waiting b hb) (Nat.eq_zero_or_pos _).symm

theorem Inv.safe (h : Inv maxBuffers tr s) (hmax : 2 ≤ maxBuffers) :
    Safe packetBurst maxBuffers tr s where
  wire := h.wire.wire
  payload := fun b _ => b.flatten_payload
  curbuf := by
    intro hsent
    cases hcur : s.curbuf with
    | none => exact absurd (h.queue.unsent hcur) hsent
    | some c =>
      obtain ⟨hlength, done, rest, hat⟩ := h.queue.sent c hcur
      exact ⟨c, rfl, hat.curbuf.1, hlength, hat.curbuf.2⟩
  queued := h.queue.suffix
  consecutive := h.queue.consecutive
  dropped := fun a e t hstep => h.queue.dropOk hmax hstep
  answer := by
    intro hwrap rpkt hpc b hb hseq hcount hnums
    refine ⟨{ s with
      daemon := .putRetransmit
        ((requestNums rpkt).map fun k => b.packet pktRebroadcast k.toNat) }, ?_⟩
    simp [FrameSend.step, h.queue.running, hpc, h.queue.answer_eq hwrap hb hseq hcount hnums]
  answered := h.wire.answered

/-- In every run whose steps meet the condition and that does not take the overload branch, the
wire, the queue, what is dropped and the answers are as they should be. -/
theorem transmits (packetBurst : ℤ) (maxBuffers : ℕ) (hmax : 2 ≤ maxBuffers)
    (acts : List SendAction) (tr : List SendEvent) (s : FrameSend)
    (hrun : run (restrict StepOk (step packetBurst)) (start maxBuffers) acts = some (tr, s))
    (hload : SendEvent.abort ∉ tr) : Safe packetBurst maxBuffers tr s := by
  refine Inv.safe ?_ hmax
  refine run_induction (fun tr s => SendEvent.abort ∉ tr → Inv maxBuffers tr s) ?_
    (fun _ => inv_start maxBuffers) hrun hload
  intro tr s a _ e t hinv hstep hnot
  obtain ⟨hok, hstep⟩ := restrict_eq_some.mp hstep
  have hnot' : SendEvent.abort ∉ tr ∧ e ≠ .abort := by simpa [eq_comm] using hnot
  refine (hinv hnot'.1).step hmax ?_ hstep hnot'.2
  rintro data used timestamp duration rfl
  exact hok

end Runs

/-- One buffer of three bytes. -/
theorem transmits_one : ∃ tr s,
    run (restrict StepOk (step 1)) (start 2)
      [.send [1, 2, 3] (some 7) 5 1, .assemble, .put true, .put true] = some (tr, s) ∧
    SendEvent.abort ∉ tr ∧ Safe 1 2 tr s := by
  have hrun : ∃ r, run (restrict StepOk (step 1)) (start 2)
      [.send [1, 2, 3] (some 7) 5 1, .assemble, .put true, .put true] = some r ∧
      SendEvent.abort ∉ r.1 := ⟨_, rfl, by decide⟩
  obtain ⟨⟨tr, s⟩, hrun, hload⟩ := hrun
  exact ⟨tr, s, hrun, hload, transmits 1 2 (by decide) _ tr s hrun hload⟩

def oneByte (q : UInt32) (sofar : ℤ) : Buffer :=
  { seq := q, data := [0], used := none, timestamp := 0, duration := 0, sofar }

/-- The buffer with sequence number `q` is the last one sent, and all have been broadcast. -/
def sentOne (q : UInt32) : FrameSend where
  sock := true
  seq := q + 1
  maxbuffers := 2
  buffers := [oneByte q 1]
  curbuf := some 1
  inUse := fun _ => false
  daemon := .top
  aborted := false

theorem assemble_oneByte (q : UInt32) :
    assemble 1 { sentOne q with buffers := [oneByte q 0], curbuf := some 0 }
      = { sentOne q with daemon := .putBurst [(oneByte q 0).packet pktBroadcast 0] } := by
  have htotal : (oneByte q 0).pktTotal = 1 := by
    simp [Buffer.pktTotal, Buffer.len, oneByte, packetSize, int32]
  have hburst : burst (oneByte q 0).pktTotal 1 ((oneByte q 0).sofar.tdiv packetSize) (oneByte q 0)
      = ([(oneByte q 0).packet pktBroadcast 0], oneByte q 1) := by
    rw [htotal]
    simp [burst, oneByte, Buffer.packet, Buffer.copy, Buffer.len, Buffer.count, piece, pieceCount,
      packetSize]
  simp only [assemble, List.getElem?_cons_zero]
  rw [show (1 : ℤ).toNat = 1 from rfl, hburst]
  rfl

theorem run_round (q : UInt32) : ∃ tr, run (step 1) (sentOne q)
    [.send [0] none 0 0, .assemble, .put true, .put true, .poll none]
      = some (tr, sentOne (q + 1)) ∧ SendEvent.abort ∉ tr := by
  have hsend : step 1 (sentOne q) (.send [0] none 0 0)
      = some (.queued (oneByte (q + 1) 0) (some (oneByte q 1)),
        { sentOne (q + 1) with buffers := [oneByte (q + 1) 0], curbuf := some 0 }) := by
    simp [step, sentOne, send, sendBuffer, setUsed, oneByte]
  have hassemble : step 1
        { sentOne (q + 1) with buffers := [oneByte (q + 1) 0], curbuf := some 0 } .assemble
      = some (.tau, _) := congrArg (fun t => some (SendEvent.tau, t)) (assemble_oneByte (q + 1))
  refine ⟨[.queued (oneByte (q + 1) 0) (some (oneByte q 1)), .tau,
    .wire ((oneByte (q + 1) 0).packet pktBroadcast 0), .tau, .tau], ?_, ?_⟩
  · rw [run, hsend]
    dsimp only
    rw [run, hassemble]
    rfl
  · simp

/-- Sequence numbers go round. -/
theorem run_sentOne (n : ℕ) : ∃ acts tr, run (step 1) (start 2) acts
    = some (tr, sentOne (UInt32.ofNat n)) ∧ SendEvent.abort ∉ tr := by
  induction n with
  | zero =>
    refine ⟨[.send [0] none 0 0, .assemble, .put true, .put true, .poll none], _, rfl, ?_⟩
    decide
  | succ n ih =>
    obtain ⟨acts, tr, hrun, hnot⟩ := ih
    obtain ⟨tr', hround, hnot'⟩ := run_round (UInt32.ofNat n)
    rw [← UInt32.ofNat_one, ← UInt32.ofNat_add] at hround
    refine ⟨_, _, run_append hrun hround, ?_⟩
    rw [List.mem_append]
    exact fun hmem => hmem.elim hnot hnot'

/-- The request for packet 0 of the last buffer before the sequence numbers begin again. -/
def lastRequest : RetransmitPacket where
  header :=
    { pktType := pktRequestRetransmit
      pktLen := 4
      seq := 2 ^ 32 - 1
      pktNum := 0
      pktTotal := 1
      timestamp := 0
      duration := 0 }
  pktResend := [0]

/-- With the buffers `2 ^ 32 - 1` and `0` in the queue, the first of which has been broadcast, the
request for a packet of it is not answered. -/
theorem not_transmits : ∃ acts tr s t b,
    run (step 1) (start 2) acts = some (tr, s) ∧ SendEvent.abort ∉ tr ∧
      s.daemon = .request lastRequest ∧ b ∈ s.buffers ∧ b.seq = lastRequest.header.seq ∧
      b.sofar = b.len ∧ requestCount lastRequest ≤ maximumRetransmit ∧
      (∀ k ∈ requestNums lastRequest, 0 ≤ k ∧ k < b.count) ∧
      step 1 s .answer = some (.unanswered lastRequest, t) := by
  obtain ⟨acts, tr, hrun, hnot⟩ := run_sentOne (2 ^ 32 - 2)
  have hend : ∃ r, run (step 1) (sentOne (UInt32.ofNat (2 ^ 32 - 2)))
      [.send [0] none 0 0, .send [0] none 0 0, .assemble, .put true, .put true,
        .poll (some (36, lastRequest))] = some r ∧ SendEvent.abort ∉ r.1 ∧
      r.2.daemon = .request lastRequest ∧
      (∃ b, r.2.buffers.head? = some b ∧ b.seq = lastRequest.header.seq ∧ b.sofar = b.len ∧
        ∀ k ∈ requestNums lastRequest, 0 ≤ k ∧ k < b.count) ∧
      ∃ t, step 1 r.2 .answer = some (.unanswered lastRequest, t) := by
    refine ⟨_, rfl, ?_, rfl, ⟨_, rfl, rfl, rfl, ?_⟩, ⟨_, rfl⟩⟩
    · decide
    · decide
  obtain ⟨⟨tr', s⟩, hrun', hnot', hpc, ⟨b, hb, hseq, hdone, hnums⟩, t, hanswer⟩ := hend
  refine ⟨_, _, s, t, b, run_append hrun hrun', ?_, hpc, List.mem_of_mem_head? hb, hseq, hdone,
    by decide, hnums, hanswer⟩
  rw [List.mem_append]
  exact fun hmem => hmem.elim hnot hnot'

end FrameSend

end AdvLigoRts.Daqd
