import AdvLigoRts.Daqd.CircTheorems
import AdvLigoRts.Daqd.ProducerShmem

/-!
# The time stamps of the blocks the producer accepts

`ProducerInv16` ties the two threads together: the `k`-th put writes sixteenth `k % 16` with the
properties made for the `k`-th accepted block.
-/

namespace AdvLigoRts.Daqd

open PvLib CircBuffer

/-! ## The continuity check -/

/-- `frac` stands for cycle `c`, in one of the two encodings. -/
def Denotes (frac c : ℕ) : Prop := frac = c ∨ frac = c * nanoPer16th

/-- `frac` is a cycle number, or a whole number of sixteenths of a second in nanoseconds. -/
def FracOk (frac : ℕ) : Prop := frac < 16 ∨ frac % nanoPer16th = 0 ∧ frac < 1000000000

theorem Denotes.fracOk {frac c : ℕ} (hc : c < 16) (h : Denotes frac c) : FracOk frac := by
  unfold FracOk
  unfold Denotes nanoPer16th at *
  omega

/-- What the producer knows about the block before the one of index `i`: it was cycle `(i + 15) %
16`, counted from second `g₀`. -/
def PrevAt (g₀ i prevGps prevFrac : ℕ) : Prop :=
  prevGps = g₀ + (i + 15) / 16 ∧
    (Denotes prevFrac ((i + 15) % 16) ∨ i = 0 ∧ lastInSecond prevFrac = true)

theorem prevAt_zero {gps frac : ℕ} (h : lastInSecond frac = true) : PrevAt gps 0 gps frac :=
  ⟨rfl, .inr ⟨rfl, h⟩⟩

theorem prevAt_succ {g₀ i gps frac : ℕ} (hgps : gps = g₀ + 1 + i / 16)
    (hfrac : Denotes frac (i % 16)) : PrevAt g₀ (i + 1) gps frac := by
  refine ⟨by omega, .inl ?_⟩
  rwa [show (i + 1 + 15) % 16 = i % 16 by omega]

theorem lastInSecond_iff {frac : ℕ} :
    lastInSecond frac = true ↔ frac = 15 ∨ 937500000 ≤ frac := by
  simp [lastInSecond, dataBlocks, daqNumDataBlocks]

/-- The check expects a new second exactly after cycle 15. -/
theorem PrevAt.lastInSecond_iff {g₀ i prevGps prevFrac : ℕ}
    (h : PrevAt g₀ i prevGps prevFrac) : lastInSecond prevFrac = true ↔ i % 16 = 0 := by
  -- after the first block the field is known, before it only that it was late
  obtain ⟨-, hden | ⟨rfl, hlast⟩⟩ := h
  · rw [Daqd.lastInSecond_iff]
    unfold Denotes nanoPer16th at hden
    omega
  · simp [hlast]

/-- A block that passes the check, with a field that means something, is the next one. -/
theorem Continues.next {g₀ i prevGps prevFrac gps frac : ℕ}
    (hprev : PrevAt g₀ i prevGps prevFrac) (h : Continues prevGps prevFrac gps frac)
    (hok : FracOk frac) : gps = g₀ + 1 + i / 16 ∧ Denotes frac (i % 16) := by
  have hlast := hprev.lastInSecond_iff
  obtain ⟨hgps, hfrac⟩ := hprev
  obtain ⟨hg, hf⟩ := h
  refine ⟨?_, ?_⟩
  · unfold expectedGps at hg
    by_cases hnew : i % 16 = 0
    · rw [if_pos (hlast.mpr hnew)] at hg
      omega
    · rw [if_neg (mt hlast.mp hnew)] at hg
      omega
  · rcases hf with hcycle | hnano
    · -- the cycle number expected is the next one, or the out-of-band value, which is no field
      unfold expectedCycle dataBlocks daqNumDataBlocks at hcycle
      by_cases hsmall : prevFrac < 16
      · rw [if_pos hsmall] at hcycle
        rw [Daqd.lastInSecond_iff] at hlast
        left
        unfold Denotes nanoPer16th at hfrac
        omega
      · rw [if_neg hsmall] at hcycle
        unfold FracOk nanoPer16th at hok
        omega
    · -- a sixteenth more in nanoseconds means something after a field in nanoseconds only
      unfold expectedNano at hnano
      simp only at hnano
      unfold FracOk at hok
      rw [Daqd.lastInSecond_iff] at hlast
      right
      unfold Denotes at hfrac
      unfold nanoPer16th at *
      by_cases hwrap : 1000000000 ≤ prevFrac + 1000000000 / 16
      · rw [if_pos hwrap] at hnano
        omega
      · rw [if_neg hwrap] at hnano
        omega

/-! ## What the circular buffer sees -/

/-- The put stores the properties it is given, but for the sequence number. -/
theorem prop16th_fill16th (b : CircBuffer) (store : List UInt8 → List UInt8 × ℕ)
    (prop : BlockProp) :
    ((b.fill16th store (some prop)).block b.nextBlockIn).prop16th b.nextBlockIn16th =
      { prop with seqNum := b.puts } := by
  by_cases h : b.nextBlockIn16th = 0 <;> simp [fill16th, modifyBlock, stamp, h]

theorem nextBlockIn16th_addTransientConsumer {b : CircBuffer} {gps delta : ℤ}
    {r : TransientResult} (h : b.addTransientConsumer gps delta = some r) :
    r.buf.nextBlockIn16th = b.nextBlockIn16th := by
  unfold addTransientConsumer at h
  split at h
  · cases h
    rfl
  · split at h
    · cases h
      rfl
    · split at h
      · cases h
      · simp only at h
        split at h <;> cases h <;> rfl

/-- The first section of a `put16th_dpscattered`. -/
theorem CircSys.write16th_eq_some {s t : CircSys} {zeroBadData : Bool} {pv : List PutDpvec}
    {prop : Option BlockProp} {e : CircEvent}
    (h : s.step (.write (.put16thDpscattered zeroBadData pv prop)) = some (e, t)) :
    s.pending = none ∧ t = { s with
      buf := s.buf.fill16th (fun dst => storeDpvecs zeroBadData s.buf.nextBlockIn16th dst pv) prop
      pending := some (.sixteenth s.buf.nextBlockIn s.buf.nextBlockIn16th) } := by
  simp only [step, write, PutCall.write] at h
  split at h
  · rename_i hguard
    split at h
    · cases h
    · rename_i p b' hw
      obtain ⟨-, rfl, rfl⟩ := waitAndFill16th_eq_some hw
      cases h
      exact ⟨hguard.1, rfl⟩
  · cases h

/-- Consumers do not move the producer. -/
theorem CircSys.consumer_frame {s t : CircSys} {a : CircAction} {e : CircEvent}
    (hw : ∀ call, a ≠ .write call) (hp : a ≠ .publish) (hst : s.step a = some (e, t)) :
    t.pending = s.pending ∧ t.buf.nextBlockIn16th = s.buf.nextBlockIn16th := by
  cases step_moves hst with
  | drop call _ _ => exact absurd rfl (hw call)
  | fill call b' _ _ _ _ _ => exact absurd rfl (hw call)
  | publish p _ => exact absurd rfl hp
  | idle | join fast i hc hi => exact ⟨rfl, rfl⟩
  | transient gps delta r hr => exact ⟨rfl, nextBlockIn16th_addTransientConsumer hr⟩
  | leave i hi => exact ⟨rfl, rfl⟩
  | get16th i nb b' hi hn =>
    obtain ⟨-, -, rfl⟩ := get16th_eq_some hn
    exact ⟨rfl, rfl⟩
  | unlock i hi | unlock16th i hi => exact ⟨rfl, rfl⟩

/-! ## The steps -/

namespace ProducerSys

variable {s t : ProducerSys} {e : ProducerEvent} {tr : List ProducerEvent}

/-- The outcomes of a step, with the guards that led there. -/
inductive Moves (s : ProducerSys) : ProducerEvent → ProducerSys → Prop
  | wait (syncTries : ℕ) (pc : WriterPc) (hpc : s.pc = .sync syncTries)
      (hwait : ∀ i prevGps prevFrac, pc ≠ .main i prevGps prevFrac) :
      Moves s .quiet { s with pc }
  | sync (syncTries : ℕ) (block : DaqMultiDcuData) (hpc : s.pc = .sync syncTries)
      (hlast : lastInSecond (fracOf block) = true) :
      Moves s (.synced block) { s with pc := .main 0 (gpsOf block) (fracOf block) }
  | exit (i prevGps prevFrac : ℕ) (why : ProducerExit) (recvInput : List ProducerBuf)
      (hpc : s.pc = .main i prevGps prevFrac) :
      Moves s .quiet { s with pc := .exited why, recvInput }
  | accept (i prevGps prevFrac : ℕ) (block : DaqMultiDcuData) (filled : ProducerBuf)
      (recvInput : List ProducerBuf) (hpc : s.pc = .main i prevGps prevFrac)
      (hcont : Continues prevGps prevFrac (gpsOf block) (fracOf block)) :
      Moves s (.accepted block) { s with
        pc := .main (i + 1) (gpsOf block) (fracOf block)
        recvInput
        crcInput := s.crcInput ++ [filled.stampTime i (gpsOf block)] }
  | put (buf : ProducerBuf) (crcInput : List ProducerBuf) (b' : CircBuffer)
      (hidle : s.putting = none) (hcrc : s.crcInput = buf :: crcInput)
      (hb' : b'.nextBlockIn16th = s.b1.buf.nextBlockIn16th) :
      Moves s (.wrote s.b1.buf.nextBlockIn s.b1.buf.nextBlockIn16th
          { buf.prop with seqNum := s.b1.buf.puts })
        { s with
          putting := some buf
          crcInput
          b1 := { s.b1 with
            buf := b'
            pending := some (.sixteenth s.b1.buf.nextBlockIn s.b1.buf.nextBlockIn16th) } }
  | publish (buf : ProducerBuf) (p : Pending) (hput : s.putting = some buf)
      (hp : s.b1.pending = some p) :
      Moves s .quiet { s with
        putting := none
        recvInput := s.recvInput ++ [buf]
        b1 := { s.b1 with buf := p.publish s.b1.buf, pending := none } }
  | consumer (b1 : CircSys) (hpend : b1.pending = s.b1.pending)
      (hin : b1.buf.nextBlockIn16th = s.b1.buf.nextBlockIn16th) : Moves s .quiet { s with b1 }

variable {block : DaqMultiDcuData}

theorem checkBlock_ok {prevGps prevFrac : ℕ} (h : checkBlock prevGps prevFrac block = .ok ()) :
    Continues prevGps prevFrac (gpsOf block) (fracOf block) := by
  unfold checkBlock at h
  simp only at h
  by_cases htotal : block.header.dcuTotalModels = 0
  · simp [htotal] at h
  · simp only [if_pos (Nat.pos_of_ne_zero htotal), htotal, false_or] at h
    by_contra hcont
    rw [if_pos hcont] at h
    cases h

theorem receive_moves {filled : ProducerBuf} (h : s.receive block filled = some (e, t)) :
    s.Moves e t := by
  unfold receive at h
  split at h
  · rename_i syncTries hpc
    unfold syncTurn at h
    simp only at h
    by_cases hempty : block.header.dcuTotalModels = 0
    · simp only [if_pos hempty, Option.some.injEq, Prod.mk.injEq] at h
      obtain ⟨rfl, rfl⟩ := h
      exact .wait syncTries _ hpc (by simp)
    · by_cases hlast : lastInSecond (fracOf block) = true
      · simp only [if_neg hempty, if_pos hlast, Option.some.injEq, Prod.mk.injEq] at h
        obtain ⟨rfl, rfl⟩ := h
        exact .sync syncTries block hpc hlast
      · rw [if_neg hempty, if_neg hlast] at h
        by_cases htries : maxSyncTries < syncTries + 1
        · simp only [if_pos htries, Option.some.injEq, Prod.mk.injEq] at h
          obtain ⟨rfl, rfl⟩ := h
          exact .wait syncTries _ hpc (by simp)
        · simp only [if_neg htries, Option.some.injEq, Prod.mk.injEq] at h
          obtain ⟨rfl, rfl⟩ := h
          exact .wait syncTries _ hpc (by simp)
  · rename_i i prevGps prevFrac hpc
    split at h
    · cases h
    · rename_i buf recvInput hrecv
      split at h
      · rename_i why hcheck
        cases h
        exact .exit i prevGps prevFrac why recvInput hpc
      · rename_i hcheck
        cases h
        exact .accept i prevGps prevFrac block filled recvInput hpc (checkBlock_ok hcheck)
  · cases h

theorem put_moves {zeroBadData : Bool} (h : s.put zeroBadData = some (e, t)) : s.Moves e t := by
  unfold put at h
  split at h
  · rename_i buf crcInput hput hcrc
    split at h
    · cases h
    · rename_i ev b1 hst
      obtain ⟨-, rfl⟩ := CircSys.write16th_eq_some hst
      simp only [Option.some.injEq, Prod.mk.injEq] at h
      obtain ⟨rfl, rfl⟩ := h
      simp only [wroteEvent, prop16th_fill16th]
      exact .put buf crcInput _ hput hcrc (filled_fill16th ..).frame.2.2.2.1
  · cases h

theorem publish_moves (h : s.publish = some (e, t)) : s.Moves e t := by
  unfold publish at h
  split at h
  · cases h
  · rename_i buf hput
    split at h
    · cases h
    · rename_i ev b1 hst
      simp only [CircSys.step, CircSys.publish] at hst
      split at hst
      · cases hst
      · rename_i p hp
        cases hst
        cases h
        exact .publish buf p hput hp

theorem consumer_moves {a : CircAction} (h : s.consumer a = some (e, t)) : s.Moves e t := by
  unfold consumer at h
  split at h
  · cases h
  · cases h
  · rename_i hw hp
    split at h
    · cases h
    · rename_i ev b1 hst
      cases h
      obtain ⟨hpend, hin⟩ := CircSys.consumer_frame hw hp hst
      exact .consumer b1 hpend hin

theorem step_moves {a : ProducerAction} (h : s.step a = some (e, t)) : s.Moves e t := by
  unfold step at h
  split at h
  · cases h
  · cases a with
    | receive block filled => exact receive_moves h
    | put zeroBadData => exact put_moves h
    | publish => exact publish_moves h
    | consumer a => exact consumer_moves h

/-! ## The receive thread -/

@[simp] theorem syncedBlocks_append (tr tr' : List ProducerEvent) :
    syncedBlocks (tr ++ tr') = syncedBlocks tr ++ syncedBlocks tr' :=
  List.filterMap_append ..

@[simp] theorem acceptedBlocks_append (tr tr' : List ProducerEvent) :
    acceptedBlocks (tr ++ tr') = acceptedBlocks tr ++ acceptedBlocks tr' :=
  List.filterMap_append ..

@[simp] theorem writtenSixteenths_append (tr tr' : List ProducerEvent) :
    writtenSixteenths (tr ++ tr') = writtenSixteenths tr ++ writtenSixteenths tr' :=
  List.filterMap_append ..

/-- The blocks come one sixteenth of a second after the other, from second `g₀ + 1` on. -/
def Unbroken (g₀ : ℕ) (blocks : List DaqMultiDcuData) : Prop :=
  ∀ i block, blocks[i]? = some block →
    gpsOf block = g₀ + 1 + i / 16 ∧ Denotes (fracOf block) (i % 16)

theorem Unbroken.concat {g₀ : ℕ} {blocks : List DaqMultiDcuData} (h : Unbroken g₀ blocks)
    (hgps : gpsOf block = g₀ + 1 + blocks.length / 16)
    (hfrac : Denotes (fracOf block) (blocks.length % 16)) : Unbroken g₀ (blocks ++ [block]) := by
  intro i x hx
  rw [List.getElem?_append] at hx
  split at hx
  · exact h i x hx
  · rename_i hi
    obtain ⟨hlt, rfl⟩ := List.getElem?_eq_some_iff.mp hx
    rw [List.length_singleton] at hlt
    obtain rfl : i = blocks.length := by omega
    exact ⟨by simpa using hgps, by simpa using hfrac⟩

/-- What the receive thread has done so far, from its place. -/
structure Sequence (tr : List ProducerEvent) (pc : WriterPc) : Prop where
  before : ∀ syncTries, pc = .sync syncTries → syncedBlocks tr = [] ∧ acceptedBlocks tr = []
  count : ∀ i prevGps prevFrac, pc = .main i prevGps prevFrac → (acceptedBlocks tr).length = i
  synced : (acceptedBlocks tr ≠ [] ∨ ∃ i prevGps prevFrac, pc = .main i prevGps prevFrac) →
    syncedBlocks tr ≠ []
  clock : (∀ block ∈ acceptedBlocks tr, FracOk (fracOf block)) → ∀ block₀ ∈ syncedBlocks tr,
    Unbroken (gpsOf block₀) (acceptedBlocks tr) ∧
      ∀ i prevGps prevFrac, pc = .main i prevGps prevFrac →
        PrevAt (gpsOf block₀) i prevGps prevFrac

namespace Sequence

variable {pc pc' : WriterPc}

theorem start : Sequence [] (.sync 0) where
  before _ _ := ⟨rfl, rfl⟩
  count _ _ _ h := by cases h
  synced h := by simp [acceptedBlocks] at h
  clock _ _ h := by simp [syncedBlocks] at h

theorem other (h : Sequence tr pc) (hs : syncedBlocks [e] = []) (ha : acceptedBlocks [e] = []) :
    Sequence (tr ++ [e]) pc := by
  obtain ⟨h1, h2, h3, h4⟩ := h
  constructor <;> simpa only [syncedBlocks_append, acceptedBlocks_append, hs, ha, List.append_nil]

/-- Going on waiting, or leaving the loops. -/
theorem leave (h : Sequence tr pc) (hmain : ∀ i prevGps prevFrac, pc' ≠ .main i prevGps prevFrac)
    (hsync : ∀ n, pc' = .sync n → ∃ m, pc = .sync m) : Sequence tr pc' where
  before n hn := by
    obtain ⟨m, hm⟩ := hsync n hn
    exact h.before m hm
  count i prevGps prevFrac hpc := absurd hpc (hmain i prevGps prevFrac)
  synced := by
    rintro (hne | ⟨i, prevGps, prevFrac, hpc⟩)
    · exact h.synced (.inl hne)
    · exact absurd hpc (hmain i prevGps prevFrac)
  clock hok block₀ hblock₀ :=
    ⟨(h.clock hok block₀ hblock₀).1, fun i prevGps prevFrac hpc =>
      absurd hpc (hmain i prevGps prevFrac)⟩

theorem sync {n : ℕ} (h : Sequence tr (.sync n)) (hlast : lastInSecond (fracOf block) = true) :
    Sequence (tr ++ [.synced block]) (.main 0 (gpsOf block) (fracOf block)) := by
  obtain ⟨hsynced, haccepted⟩ := h.before n rfl
  have hs : syncedBlocks (tr ++ [.synced block]) = [block] := by
    rw [syncedBlocks_append, hsynced]
    rfl
  have ha : acceptedBlocks (tr ++ [.synced block]) = [] := by
    rw [acceptedBlocks_append, haccepted]
    rfl
  refine ⟨by simp, ?_, fun _ => by simp [hs], ?_⟩
  · intro i prevGps prevFrac hpc
    cases hpc
    rw [ha]
    rfl
  · intro _ block₀ hblock₀
    rw [hs, List.mem_singleton] at hblock₀
    subst hblock₀
    refine ⟨fun i x hx => by simp [ha] at hx, fun i prevGps prevFrac hpc => ?_⟩
    cases hpc
    exact prevAt_zero hlast

theorem accept {i prevGps prevFrac : ℕ} (h : Sequence tr (.main i prevGps prevFrac))
    (hcont : Continues prevGps prevFrac (gpsOf block) (fracOf block)) :
    Sequence (tr ++ [.accepted block]) (.main (i + 1) (gpsOf block) (fracOf block)) := by
  have hs : syncedBlocks (tr ++ [.accepted block]) = syncedBlocks tr := by
    rw [syncedBlocks_append]
    exact List.append_nil _
  have ha : acceptedBlocks (tr ++ [.accepted block]) = acceptedBlocks tr ++ [block] := by
    rw [acceptedBlocks_append]
    rfl
  have hlen := h.count i prevGps prevFrac rfl
  refine ⟨by simp, ?_, fun _ => ?_, ?_⟩
  · intro j g f hpc
    cases hpc
    rw [ha, List.length_append, hlen]
    rfl
  · rw [hs]
    exact h.synced (.inr ⟨i, prevGps, prevFrac, rfl⟩)
  · intro hok block₀ hblock₀
    rw [hs] at hblock₀
    rw [ha] at hok ⊢
    simp only [List.mem_append, List.mem_singleton] at hok
    obtain ⟨hunbroken, hprev⟩ :=
      h.clock (fun x hx => hok x (.inl hx)) block₀ hblock₀
    -- the check and the field's meaning give the next place on the clock
    obtain ⟨hgps, hfrac⟩ := hcont.next (hprev i prevGps prevFrac rfl) (hok block (.inr rfl))
    refine ⟨hunbroken.concat (hlen ▸ hgps) (hlen ▸ hfrac), fun j g f hpc => ?_⟩
    cases hpc
    exact prevAt_succ hgps hfrac

theorem step (h : Sequence tr s.pc) (hm : s.Moves e t) : Sequence (tr ++ [e]) t.pc := by
  cases hm with
  | wait syncTries pc hpc hwait =>
    exact (h.leave hwait fun _ _ => ⟨syncTries, hpc⟩).other rfl rfl
  | sync syncTries block hpc hlast =>
    rw [hpc] at h
    exact h.sync hlast
  | exit i prevGps prevFrac why recvInput hpc =>
    exact (h.leave (by simp) (by simp)).other rfl rfl
  | accept i prevGps prevFrac block filled recvInput hpc hcont =>
    rw [hpc] at h
    exact h.accept hcont
  | put buf crcInput b' hidle hcrc hb' => exact h.other rfl rfl
  | publish buf p hput hp | consumer b1 hpend hin => exact h.other rfl rfl

end Sequence

/-! ## The second thread -/

def timeOf (prop : BlockProp) : ℤ × ℤ := (prop.gps, prop.gpsN)

/-- The time that the accepted block of index `i` is stamped with. -/
def stampOf (i : ℕ) (block : DaqMultiDcuData) : ℤ × ℤ :=
  (gpsOf block, (nanoPer16th * (i % 16) : ℕ))

/-- What was written and what is still queued carry the stamps of the accepted blocks, in
order, and the writes go through the sixteenths. -/
structure HandedOver (tr : List ProducerEvent) (s : ProducerSys) : Prop where
  times : (writtenSixteenths tr).map (fun w => timeOf w.2) ++
    s.crcInput.map (fun buf => timeOf buf.prop) = (acceptedBlocks tr).mapIdx stampOf
  sixteenths : ∀ k w, (writtenSixteenths tr)[k]? = some w → w.1 = k % 16
  pending : ∀ p, s.b1.pending = some p → ∃ nbi nbi16th, p = .sixteenth nbi nbi16th
  place : s.b1.buf.nextBlockIn16th =
    ((writtenSixteenths tr).length + if s.putting = none then 0 else 15) % 16

namespace HandedOver

theorem start (bufs : List ProducerBuf) (consumers blocks blockSize : ℕ) (blockPeriod : ℤ) :
    HandedOver [] (start bufs (bufferMalloc consumers blocks blockSize blockPeriod)) where
  times := rfl
  sixteenths _ _ h := by simp [writtenSixteenths] at h
  pending _ h := by cases h
  place := rfl

/-- Steps that neither accept nor write, and leave the producer's place alone. -/
theorem other (h : HandedOver tr s) (ha : acceptedBlocks [e] = [])
    (hw : writtenSixteenths [e] = []) (hcrc : t.crcInput = s.crcInput)
    (hput : t.putting = s.putting) (hpending : t.b1.pending = s.b1.pending)
    (hplace : t.b1.buf.nextBlockIn16th = s.b1.buf.nextBlockIn16th) :
    HandedOver (tr ++ [e]) t := by
  obtain ⟨h1, h2, h3, h4⟩ := h
  constructor <;> simpa only [acceptedBlocks_append, writtenSixteenths_append, ha, hw,
    List.append_nil, hcrc, hput, hpending, hplace]

theorem accept (h : HandedOver tr s) {filled : ProducerBuf} {pc : WriterPc}
    {recvInput : List ProducerBuf} :
    HandedOver (tr ++ [.accepted block]) { s with
      pc
      recvInput
      crcInput := s.crcInput ++
        [filled.stampTime (acceptedBlocks tr).length (gpsOf block)] } := by
  have ha : acceptedBlocks (tr ++ [.accepted block]) = acceptedBlocks tr ++ [block] := by
    rw [acceptedBlocks_append]
    rfl
  have hw : writtenSixteenths (tr ++ [.accepted block]) = writtenSixteenths tr := by
    rw [writtenSixteenths_append]
    exact List.append_nil _
  refine ⟨?_, by simpa only [hw] using h.sixteenths, h.pending, by simpa only [hw] using h.place⟩
  rw [ha, hw, List.mapIdx_concat, List.map_append, ← List.append_assoc, h.times]
  rfl

theorem put (h : HandedOver tr s) {buf : ProducerBuf} {crcInput : List ProducerBuf}
    {b1 : CircSys} {nbi nbi16th seqNum : ℕ} (hidle : s.putting = none)
    (hcrc : s.crcInput = buf :: crcInput) (hb1 : b1.buf.nextBlockIn16th = s.b1.buf.nextBlockIn16th)
    (hpending : b1.pending = some (.sixteenth nbi nbi16th))
    (hturn : nbi16th = s.b1.buf.nextBlockIn16th) :
    HandedOver (tr ++ [.wrote nbi nbi16th { buf.prop with seqNum }])
      { s with putting := some buf, crcInput, b1 } := by
  have hplace := h.place
  rw [if_pos hidle, Nat.add_zero] at hplace
  have ha : acceptedBlocks (tr ++ [.wrote nbi nbi16th { buf.prop with seqNum }])
      = acceptedBlocks tr := by
    rw [acceptedBlocks_append]
    exact List.append_nil _
  have hw : writtenSixteenths (tr ++ [.wrote nbi nbi16th { buf.prop with seqNum }])
      = writtenSixteenths tr ++ [(nbi16th, { buf.prop with seqNum })] := by
    rw [writtenSixteenths_append]
    rfl
  refine ⟨?_, ?_, ?_, ?_⟩
  · -- the head of the queue becomes the last write
    have htimes := h.times
    rw [hcrc, List.map_cons, List.append_cons] at htimes
    rw [ha, hw, List.map_append]
    exact htimes
  · intro k w hk
    rw [hw, List.getElem?_append] at hk
    split at hk
    · exact h.sixteenths k w hk
    · obtain ⟨hlt, rfl⟩ := List.getElem?_eq_some_iff.mp hk
      rw [List.length_singleton] at hlt
      obtain rfl : k = (writtenSixteenths tr).length := by omega
      -- the new write goes where the producer stands
      simpa [hturn] using hplace
  · intro p hp
    rw [hpending] at hp
    cases hp
    exact ⟨nbi, nbi16th, rfl⟩
  · rw [hw, List.length_append, List.length_singleton]
    simp only [hb1, hplace, reduceCtorEq, if_false]
    omega

theorem publish (h : HandedOver tr s) {buf : ProducerBuf} {p : Pending}
    (hput : s.putting = some buf) (hp : s.b1.pending = some p) :
    HandedOver (tr ++ [.quiet]) { s with
      putting := none
      recvInput := s.recvInput ++ [buf]
      b1 := { s.b1 with buf := p.publish s.b1.buf, pending := none } } := by
  obtain ⟨nbi, nbi16th, rfl⟩ := h.pending p hp
  have hplace := h.place
  have ha : acceptedBlocks (tr ++ [.quiet]) = acceptedBlocks tr := by
    rw [acceptedBlocks_append]
    exact List.append_nil _
  have hw : writtenSixteenths (tr ++ [.quiet]) = writtenSixteenths tr := by
    rw [writtenSixteenths_append]
    exact List.append_nil _
  refine ⟨by rw [ha, hw]; exact h.times, by rw [hw]; exact h.sixteenths, by simp, ?_⟩
  -- during a put the producer stands one behind the number of writes; now it moves on
  rw [if_neg (by simp [hput])] at hplace
  simp only [Pending.publish, (s.b1.buf.publish16th_frame nbi nbi16th).2.2.2.2.1, hw, hplace,
    if_true]
  omega

theorem step (h : HandedOver tr s) (hseq : Sequence tr s.pc) (hm : s.Moves e t) :
    HandedOver (tr ++ [e]) t := by
  cases hm with
  | wait syncTries pc hpc hwait | sync syncTries block hpc hlast
  | exit i prevGps prevFrac why recvInput hpc =>
    exact h.other rfl rfl rfl rfl rfl rfl
  | accept i prevGps prevFrac block filled recvInput hpc hcont =>
    rw [← hseq.count i prevGps prevFrac hpc]
    exact h.accept
  | put buf crcInput b' hidle hcrc hb' => exact h.put hidle hcrc hb' rfl rfl
  | publish buf p hput hp => exact h.publish hput hp
  | consumer b1 hpend hin => exact h.other rfl rfl rfl rfl hpend hin

/-- The `k`-th write is for the `k`-th accepted block, in sixteenth `k % 16`. -/
theorem write_eq (h : HandedOver tr s) {k nbi16th : ℕ} {prop : BlockProp}
    (hk : (writtenSixteenths tr)[k]? = some (nbi16th, prop)) :
    ∃ block, (acceptedBlocks tr)[k]? = some block ∧ nbi16th = k % 16 ∧
      prop.gps = gpsOf block ∧ prop.gpsN = (nanoPer16th * nbi16th : ℕ) := by
  have h16 : nbi16th = k % 16 := h.sixteenths k _ hk
  obtain ⟨hlt, -⟩ := List.getElem?_eq_some_iff.mp hk
  have htime : ((acceptedBlocks tr).mapIdx stampOf)[k]? = some (timeOf prop) := by
    rw [← h.times, List.getElem?_append_left (by simpa using hlt), List.getElem?_map, hk]
    rfl
  rw [List.getElem?_mapIdx, Option.map_eq_some_iff] at htime
  obtain ⟨block, hblock, hstamp⟩ := htime
  simp only [stampOf, timeOf, Prod.mk.injEq] at hstamp
  exact ⟨block, hblock, h16, hstamp.1.symm, by rw [h16]; exact hstamp.2.symm⟩

end HandedOver

/-! ## Every run -/

/-- The writes match the accepted blocks' own stamps. -/
def WritesMatch (tr : List ProducerEvent) : Prop :=
  ∀ (k nbi16th : ℕ) (prop : BlockProp), (writtenSixteenths tr)[k]? = some (nbi16th, prop) →
    ∃ block, (acceptedBlocks tr)[k]? = some block ∧ Denotes (fracOf block) nbi16th ∧
      prop.gps = gpsOf block ∧ prop.gpsN = (nanoPer16th * nbi16th : ℕ)

/-- The producer has accepted an unbroken sequence, and written its blocks with their own time
stamps into the sixteenths they belong to, exactly if every sub-second field it has accepted
was a cycle number or a whole number of sixteenths in nanoseconds. -/
theorem unbroken_iff_fracOk {bufs : List ProducerBuf} {consumers blocks blockSize : ℕ}
    {blockPeriod : ℤ} {as : List ProducerAction} {tr : List ProducerEvent} {s : ProducerSys}
    (h : run step (start bufs (bufferMalloc consumers blocks blockSize blockPeriod)) as
      = some (tr, s)) :
    (∀ block₀ ∈ syncedBlocks tr,
        Unbroken (gpsOf block₀) (acceptedBlocks tr) ∧ WritesMatch tr) ↔
      ∀ block ∈ acceptedBlocks tr, FracOk (fracOf block) := by
  have hinv : Sequence tr s.pc ∧ HandedOver tr s := by
    refine run_induction (fun tr s => Sequence tr s.pc ∧ HandedOver tr s) ?_
      ⟨.start, .start bufs consumers blocks blockSize blockPeriod⟩ h
    rintro tr s a - e t ⟨hseq, hhand⟩ hst
    have hm := step_moves hst
    exact ⟨hseq.step hm, hhand.step hseq hm⟩
  obtain ⟨hseq, hhand⟩ := hinv
  constructor
  · intro hall block hblock
    -- a cycle or its nanoseconds is a field that means something
    obtain ⟨block₀, hblock₀⟩ :=
      List.exists_mem_of_ne_nil _ (hseq.synced (.inl (List.ne_nil_of_mem hblock)))
    obtain ⟨i, hi⟩ := List.mem_iff_getElem?.mp hblock
    exact ((hall block₀ hblock₀).1 i block hi).2.fracOk (Nat.mod_lt _ (by norm_num))
  · intro hok block₀ hblock₀
    have hunbroken := (hseq.clock hok block₀ hblock₀).1
    refine ⟨hunbroken, fun k nbi16th prop hk => ?_⟩
    obtain ⟨block, hblock, h16, hgps, hgpsN⟩ := hhand.write_eq hk
    exact ⟨block, hblock, h16 ▸ (hunbroken k block hblock).2, hgps, hgpsN⟩

private def emptyBuf : ProducerBuf := ⟨[], {}⟩

private def blockAt (gps frac : ℕ) : DaqMultiDcuData :=
  ⟨⟨1, 0, fun _ => { timeSec := UInt32.ofNat gps, timeNSec := UInt32.ofNat frac }⟩, fun _ => 0⟩

/-- After a second that ends in nanoseconds, a block with 26 as its sub-second field is taken
for the first of the next one. -/
theorem out_of_band_cycle_accepted :
    ∃ tr s, run step (start [emptyBuf] (bufferMalloc 0 1 16 1))
        [.receive (blockAt 100 937500000) emptyBuf, .receive (blockAt 101 26) emptyBuf]
        = some (tr, s) ∧
      (syncedBlocks tr).map gpsOf = [100] ∧
      (acceptedBlocks tr).map (fun block => (gpsOf block, fracOf block)) = [(101, 26)] ∧
      ¬∀ block₀ ∈ syncedBlocks tr,
        Unbroken (gpsOf block₀) (acceptedBlocks tr) ∧ WritesMatch tr := by
  have hrun : (run step (start [emptyBuf] (bufferMalloc 0 1 16 1))
      [.receive (blockAt 100 937500000) emptyBuf, .receive (blockAt 101 26) emptyBuf]).map
        (fun r => ((syncedBlocks r.1).map gpsOf,
          (acceptedBlocks r.1).map fun block => (gpsOf block, fracOf block)))
      = some ([100], [(101, 26)]) := by
    decide +kernel
  obtain ⟨⟨tr, s⟩, hsome, hval⟩ := Option.map_eq_some_iff.mp hrun
  simp only [Prod.mk.injEq] at hval
  obtain ⟨hsynced, haccepted⟩ := hval
  refine ⟨tr, s, hsome, hsynced, haccepted, fun hall => ?_⟩
  obtain ⟨block₀, hmem, -⟩ : ∃ block₀ ∈ syncedBlocks tr, gpsOf block₀ = 100 := by
    simpa using (List.mem_map (f := gpsOf)).mp (hsynced ▸ List.mem_singleton_self 100)
  obtain ⟨block, hblock⟩ : ∃ block, acceptedBlocks tr = [block] :=
    List.length_eq_one_iff.mp (by simpa using congrArg List.length haccepted)
  have hfrac : fracOf block = 26 := by
    rw [hblock] at haccepted
    simp only [List.map_cons, List.map_nil, List.cons.injEq, Prod.mk.injEq] at haccepted
    exact haccepted.1.2
  have hden := ((hall block₀ hmem).1 0 block (by simp [hblock])).2
  rw [hfrac] at hden
  unfold Denotes nanoPer16th at hden
  omega

/-- The sync block and the first two blocks of the next second, in either encoding. -/
private def firstBlocks : List ProducerAction :=
  [.receive (blockAt 100 15) emptyBuf, .receive (blockAt 101 0) emptyBuf, .put false, .publish,
    .receive (blockAt 101 62500000) emptyBuf, .put false]

theorem unbroken_iff_fracOk_firstBlocks :
    ∃ tr s, run step (start [emptyBuf] (bufferMalloc 0 1 16 1)) firstBlocks = some (tr, s) ∧
      (acceptedBlocks tr).length = 2 ∧ (writtenSixteenths tr).length = 2 ∧
      ∀ block₀ ∈ syncedBlocks tr,
        Unbroken (gpsOf block₀) (acceptedBlocks tr) ∧ WritesMatch tr := by
  have hrun : (run step (start [emptyBuf] (bufferMalloc 0 1 16 1)) firstBlocks).map
      (fun r => ((acceptedBlocks r.1).map fracOf, (writtenSixteenths r.1).length))
      = some ([0, 62500000], 2) := by
    decide +kernel
  obtain ⟨⟨tr, s⟩, hsome, hval⟩ := Option.map_eq_some_iff.mp hrun
  simp only [Prod.mk.injEq] at hval
  obtain ⟨haccepted, hwritten⟩ := hval
  refine ⟨tr, s, hsome, by simpa using congrArg List.length haccepted, hwritten,
    (unbroken_iff_fracOk hsome).mpr fun block hblock => ?_⟩
  have hfrac := List.mem_map_of_mem (f := fracOf) hblock
  rw [haccepted] at hfrac
  unfold FracOk nanoPer16th
  simp only [List.mem_cons, List.not_mem_nil, or_false] at hfrac
  omega

end ProducerSys

end AdvLigoRts.Daqd
