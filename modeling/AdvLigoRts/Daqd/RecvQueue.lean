import AdvLigoRts.Daqd.FrameRecvTheorems
import Mathlib.Algebra.Order.Group.Abs
import Mathlib.Data.List.TakeWhile

/-!
# The packet buffer and the wrap of the sequence number

`getPacket` keeps the packets in the order of `operator<`, which compares sequence numbers as
unsigned values, and `calcDiff` takes the distance modulo 2^32 of the packet at the front.
-/

namespace AdvLigoRts.Daqd

open PvLib

namespace FrameRecv

def queue (arrived : List Packet) : List Packet := arrived.foldl insertPkt []

/-- The signed distance modulo 2^32 of a sequence number from the expected one. -/
def seqDist (newseq seq : UInt32) : ℤ := ((seq.toNat : ℤ) - newseq.toNat).bmod (2 ^ 32)

/-- Sequence numbers from both sides of the wrap. -/
def Straddles (arrived : List Packet) : Prop :=
  ∃ p ∈ arrived, ∃ q ∈ arrived, p.header.seq.toNat + 2 ^ 31 ≤ q.header.seq.toNat

section Queue

variable {pkts arrived : List Packet} {pkt p q : Packet} {newseq : UInt32}

theorem pktLt_iff : pktLt p q = true ↔ p.header.seq < q.header.seq ∨
    p.header.seq = q.header.seq ∧ p.header.pktNum < q.header.pktNum := by
  simp [pktLt]

theorem pktEq_iff : pktEq p q = true ↔ p.header.seq = q.header.seq ∧
    p.header.pktNum = q.header.pktNum := by
  simp [pktEq]

theorem seq_le_of_pktLt (h : pktLt p q = true) : p.header.seq ≤ q.header.seq := by
  rw [pktLt_iff, UInt32.lt_iff_toNat_lt] at h
  rw [UInt32.le_iff_toNat_le]
  rcases h with hlt | ⟨heq, -⟩
  · omega
  · rw [heq]

theorem pktLt_trans (hpq : pktLt p q = true) (hq : pktLt q pkt = true) : pktLt p pkt = true := by
  rw [pktLt_iff, UInt32.lt_iff_toNat_lt, ← UInt32.toNat_inj] at *
  omega

/-- Packets that are neither before nor behind one another are duplicates. -/
theorem pktLt_of_not (hlt : pktLt p q ≠ true) (heq : pktEq p q ≠ true) : pktLt q p = true := by
  rw [Ne, pktLt_iff, UInt32.lt_iff_toNat_lt, ← UInt32.toNat_inj] at hlt
  rw [Ne, pktEq_iff, ← UInt32.toNat_inj] at heq
  rw [pktLt_iff, UInt32.lt_iff_toNat_lt, ← UInt32.toNat_inj]
  omega

/-- In a sorted buffer a packet is inserted behind the ones before it. -/
theorem insertPkt_eq (hsorted : pkts.Pairwise fun a b => pktLt a b = true) :
    insertPkt pkts pkt =
      match pkts.dropWhile fun q => pktLt q pkt with
      | [] => pkts ++ [pkt]
      | q :: rest =>
        if pktEq q pkt then pkts
        else (pkts.takeWhile fun q => pktLt q pkt) ++ pkt :: q :: rest := by
  have hpos := @lowerBound_of_pairwise _ (fun q => pktLt q pkt) _ _ hsorted
    fun a b hab hb => pktLt_trans hab hb
  have hsplit := List.takeWhile_append_dropWhile (p := fun q => pktLt q pkt) (l := pkts)
  unfold insertPkt
  dsimp only
  rw [hpos]
  generalize htake : (pkts.takeWhile fun q => pktLt q pkt) = taken at *
  generalize hdrop : (pkts.dropWhile fun q => pktLt q pkt) = rest at *
  subst hsplit
  rw [List.getElem?_append_right (le_refl _), Nat.sub_self, List.take_left, List.drop_left]
  cases rest with
  | nil => rfl
  | cons q rest => rfl

theorem insertPkt_pairwise (hsorted : pkts.Pairwise fun a b => pktLt a b = true) :
    (insertPkt pkts pkt).Pairwise fun a b => pktLt a b = true := by
  rw [insertPkt_eq hsorted]
  have hsplit := List.takeWhile_append_dropWhile (p := fun q => pktLt q pkt) (l := pkts)
  have htaken : ∀ q ∈ pkts.takeWhile fun q => pktLt q pkt, pktLt q pkt = true :=
    fun q hq => List.mem_takeWhile_imp (p := fun q => pktLt q pkt) hq
  split
  · next hnil =>
    rw [hnil, List.append_nil] at hsplit
    rw [hsplit] at htaken
    apply List.pairwise_append.mpr
    refine ⟨hsorted, List.pairwise_singleton .., fun a ha b hb => ?_⟩
    rw [List.mem_singleton.mp hb]
    exact htaken a ha
  · next q rest hcons =>
    split
    · exact hsorted
    · next hne =>
      rw [hcons] at hsplit
      generalize htake : (pkts.takeWhile fun q => pktLt q pkt) = taken at *
      subst hsplit
      obtain ⟨hleft, hright, hcross⟩ := List.pairwise_append.mp hsorted
      have hq : pktLt pkt q = true := by
        apply pktLt_of_not _ hne
        intro hlt
        have hhead := List.head?_dropWhile_not (fun q => pktLt q pkt) (taken ++ q :: rest)
        rw [hcons] at hhead
        simp [hlt] at hhead
      apply List.pairwise_append.mpr
      refine ⟨hleft, List.pairwise_cons.mpr ⟨fun b hb => ?_, hright⟩, fun a ha b hb => ?_⟩
      · rcases List.mem_cons.mp hb with rfl | hb
        · exact hq
        · exact pktLt_trans hq ((List.pairwise_cons.mp hright).1 b hb)
      · rcases List.mem_cons.mp hb with rfl | hb
        · exact htaken a ha
        · exact hcross a ha b hb

theorem exists_mem_insertPkt (pkts : List Packet) (pkt : Packet) :
    ∃ q ∈ insertPkt pkts pkt, q.header.seq = pkt.header.seq := by
  unfold insertPkt
  dsimp only
  split
  · exact ⟨pkt, by simp, rfl⟩
  · next q hq =>
    split
    · next heq => exact ⟨q, List.mem_of_getElem? hq, (pktEq_iff.mp heq).1⟩
    · exact ⟨pkt, by simp, rfl⟩

theorem mem_insertPkt_of_mem (h : p ∈ pkts) : p ∈ insertPkt pkts pkt := by
  unfold insertPkt
  dsimp only
  split
  · exact List.mem_append_left _ h
  · next pos _ _ =>
    split
    · exact h
    · rw [← List.take_append_drop (lowerBound (fun q => pktLt q pkt) pkts) pkts] at h
      rcases List.mem_append.mp h with h | h
      · exact List.mem_append_left _ h
      · exact List.mem_append_right _ (List.mem_cons_of_mem _ h)

theorem queue_snoc : queue (arrived ++ [pkt]) = insertPkt (queue arrived) pkt := by
  simp [queue, List.foldl_append]

theorem queue_pairwise (arrived : List Packet) :
    (queue arrived).Pairwise fun a b => pktLt a b = true := by
  induction arrived using List.reverseRecOn with
  | nil => exact List.Pairwise.nil
  | append_singleton arrived pkt ih =>
    rw [queue_snoc]
    exact insertPkt_pairwise ih

theorem mem_of_mem_queue (h : p ∈ queue arrived) : p ∈ arrived := by
  induction arrived using List.reverseRecOn with
  | nil => exact h
  | append_singleton arrived pkt ih =>
    rw [queue_snoc] at h
    rcases mem_insertPkt h with h | rfl
    · exact List.mem_append_left _ (ih h)
    · exact List.mem_append_right _ List.mem_cons_self

theorem exists_mem_queue (h : p ∈ arrived) : ∃ q ∈ queue arrived, q.header.seq = p.header.seq := by
  induction arrived using List.reverseRecOn with
  | nil => cases h
  | append_singleton arrived pkt ih =>
    rw [queue_snoc]
    rcases List.mem_append.mp h with h | h
    · obtain ⟨q, hq, hseq⟩ := ih h
      exact ⟨q, mem_insertPkt_of_mem hq, hseq⟩
    · rw [List.mem_singleton.mp h]
      exact exists_mem_insertPkt ..

/-- The packet at the front has the least sequence number as an unsigned value. -/
theorem queue_front (hne : arrived ≠ []) :
    ∃ front rest, queue arrived = front :: rest ∧ front ∈ arrived ∧
      ∀ p ∈ arrived, front.header.seq.toNat ≤ p.header.seq.toNat := by
  obtain ⟨a, ha⟩ := List.exists_mem_of_ne_nil arrived hne
  obtain ⟨b, hb, -⟩ := exists_mem_queue ha
  have hsorted := queue_pairwise arrived
  cases hqueue : queue arrived with
  | nil =>
    rw [hqueue] at hb
    cases hb
  | cons front rest =>
    refine ⟨front, rest, rfl, mem_of_mem_queue (by rw [hqueue]; exact List.mem_cons_self), ?_⟩
    intro p hp
    obtain ⟨q, hq, hseq⟩ := exists_mem_queue hp
    rw [hqueue] at hsorted hq
    rw [← hseq]
    rcases List.mem_cons.mp hq with rfl | hq
    · exact le_rfl
    · exact UInt32.le_iff_toNat_le.mp
        (seq_le_of_pktLt ((List.pairwise_cons.mp hsorted).1 q hq))

theorem seqDist_spec (newseq seq : UInt32) : -2 ^ 31 ≤ seqDist newseq seq ∧
    seqDist newseq seq < 2 ^ 31 ∧ (seqDist newseq seq = (seq.toNat : ℤ) - newseq.toNat ∨
      seqDist newseq seq = (seq.toNat : ℤ) - newseq.toNat - 2 ^ 32 ∨
      seqDist newseq seq = (seq.toNat : ℤ) - newseq.toNat + 2 ^ 32) := by
  have hseq := seq.toNat_lt
  have hnew := newseq.toNat_lt
  unfold seqDist
  rw [Int.bmod_def]
  split <;> omega

/-- `calcDiff` is the distance of the packet at the front, half way round apart. -/
theorem calcDiff_cons (h : seqDist newseq pkt.header.seq ≠ -2 ^ 31) :
    calcDiff (pkt :: pkts) newseq = seqDist newseq pkt.header.seq := by
  have hseq := pkt.header.seq.toNat_lt
  have hnew := newseq.toNat_lt
  obtain ⟨hlow, hhigh, hcases⟩ := seqDist_spec newseq pkt.header.seq
  unfold calcDiff
  dsimp only
  split <;> split <;> omega

/-- The distances on one side of the wrap are in the order of the numbers. -/
theorem seqDist_le_iff {a b : UInt32} (hab : a.toNat ≤ b.toNat) (ha : |seqDist newseq a| ≤ 500)
    (hb : |seqDist newseq b| ≤ 500) :
    seqDist newseq a ≤ seqDist newseq b ↔ b.toNat < a.toNat + 2 ^ 31 := by
  have hlt := b.toNat_lt
  have hnew := newseq.toNat_lt
  have hspec := seqDist_spec newseq a
  have hspec' := seqDist_spec newseq b
  rw [abs_le] at ha hb
  omega

/-- `calcDiff` is the least distance of a packet in the buffer just when no two of them lie on
different sides of the wrap. -/
theorem calcDiff_isLeast_iff (hne : arrived ≠ [])
    (hnear : ∀ p ∈ arrived, |seqDist newseq p.header.seq| ≤ 500) :
    IsLeast {d | ∃ p ∈ queue arrived, d = seqDist newseq p.header.seq}
      (calcDiff (queue arrived) newseq) ↔ ¬ Straddles arrived := by
  obtain ⟨front, rest, hqueue, hfront, hleast⟩ := queue_front hne
  have hdiff : calcDiff (queue arrived) newseq = seqDist newseq front.header.seq := by
    rw [hqueue]
    apply calcDiff_cons
    have := abs_le.mp (hnear front hfront)
    omega
  have hle : ∀ p ∈ arrived, seqDist newseq front.header.seq ≤ seqDist newseq p.header.seq ↔
      p.header.seq.toNat < front.header.seq.toNat + 2 ^ 31 :=
    fun p hp => seqDist_le_iff (hleast p hp) (hnear front hfront) (hnear p hp)
  rw [hdiff]
  constructor
  · rintro ⟨-, hlower⟩ ⟨p, hp, q, hq, hpq⟩
    obtain ⟨q', hq', hseq⟩ := exists_mem_queue hq
    have hmin := hlower ⟨q', hq', rfl⟩
    rw [hseq, hle q hq] at hmin
    have := hleast p hp
    omega
  · intro hside
    refine ⟨⟨front, by rw [hqueue]; exact List.mem_cons_self, rfl⟩, ?_⟩
    rintro d ⟨p, hp, rfl⟩
    have hp' := mem_of_mem_queue hp
    apply (hle p hp').mpr
    by_contra hge
    exact hside ⟨front, hfront, p, hp', by omega⟩

/-- A packet of the expected sequence is hidden just when a packet that has been counted from the
other side of the wrap stands before it. -/
theorem calcDiff_nonpos_iff (hnear : ∀ p ∈ arrived, |seqDist newseq p.header.seq| ≤ 500)
    (hp : p ∈ arrived) (hseq : p.header.seq = newseq) :
    calcDiff (queue arrived) newseq ≤ 0 ↔
      ∀ q ∈ arrived, newseq.toNat < q.header.seq.toNat + 2 ^ 31 := by
  obtain ⟨front, rest, hqueue, hfront, hleast⟩ := queue_front (List.ne_nil_of_mem hp)
  have hbound := abs_le.mp (hnear front hfront)
  have hspec := seqDist_spec newseq front.header.seq
  have hlt := front.header.seq.toNat_lt
  have hnew := newseq.toNat_lt
  have hfirst := hleast p hp
  rw [hseq] at hfirst
  rw [hqueue, calcDiff_cons (by omega)]
  constructor
  · intro hnonpos q hq
    have := hleast q hq
    omega
  · intro hall
    have := hall front hfront
    omega

end Queue

end FrameRecv

end AdvLigoRts.Daqd
