import AdvLigoRts.Daqd.CircAssembly

/-!
# A block is assembled while others use the buffer

Between the sixteen calls, and between the two critical sections of each, the consumers join, read,
unlock and leave.
-/

namespace AdvLigoRts.Daqd

open PvLib CircBuffer

/-! ## The size of the blocks -/

/-- Every block is `block_size` bytes big, and the next part is one of sixteen. -/
structure WholeBlocks (b : CircBuffer) : Prop where
  size : ∀ n, (b.block n).data.length = b.blockSize
  part_lt : b.nextBlockIn16th < 16

theorem length_copyPieces {data : List UInt8} {pieces : List (List UInt8)}
    (h : (pieces.map List.length).sum ≤ data.length) :
    (copyPieces data pieces).1.length = data.length := by
  have hloop : ∀ (pieces : List (List UInt8)) (acc : List UInt8 × ℕ),
      acc.2 + (pieces.map List.length).sum ≤ acc.1.length →
      (pieces.foldl (fun acc piece => (memcpy acc.1 acc.2 piece, acc.2 + piece.length))
        acc).1.length
        = acc.1.length := by
    intro pieces
    induction pieces with
    | nil => exact fun acc _ => rfl
    | cons piece pieces ih =>
      intro acc hacc
      rw [List.map_cons, List.sum_cons] at hacc
      have hone : (memcpy acc.1 acc.2 piece).length = acc.1.length := length_splice (by omega)
      rw [List.foldl_cons, ih _ (by simp only [hone]; omega)]
      exact hone
  exact hloop pieces (data, 0) (by rw [Nat.zero_add]; exact h)

theorem length_zeroDpvecs {data : List UInt8} {k : ℕ} {pv : List PutDpvec}
    (h : ∀ v ∈ pv, v.destVecIdx + v.vecLen * k + v.vecLen ≤ data.length) :
    (zeroDpvecs k data pv).1.length = data.length := by
  have hloop : ∀ (pv : List PutDpvec) (acc : List UInt8 × ℕ),
      (∀ v ∈ pv, v.destVecIdx + v.vecLen * k + v.vecLen ≤ acc.1.length) →
      (pv.foldl (fun acc v => (memcpy acc.1 (v.destVecIdx + v.vecLen * k)
        (List.replicate v.vecLen 0), acc.2 + v.vecLen)) acc).1.length = acc.1.length := by
    intro pv
    induction pv with
    | nil => exact fun acc _ => rfl
    | cons v pv ih =>
      intro acc hacc
      have hv := hacc v List.mem_cons_self
      have hone : (memcpy acc.1 (v.destVecIdx + v.vecLen * k)
          (List.replicate v.vecLen 0)).length = acc.1.length :=
        length_splice (by rw [List.length_replicate]; exact hv)
      rw [List.foldl_cons, ih]
      · exact hone
      · intro w hw
        show _ ≤ (memcpy acc.1 _ _).length
        rw [hone]
        exact hacc w (List.mem_cons_of_mem v hw)
  exact hloop pv (data, 0) h

theorem length_storeAll_of_inBlock {data : List UInt8} {zeroBadData : Bool} {k : ℕ}
    {pv : List PutDpvec} (hk : k < 16)
    (h : ∀ v ∈ pv, v.vecLen ≤ v.src.length ∧ v.destVecIdx + v.vecLen * k + v.vecLen ≤ data.length ∧
      (v.destStatusIdx ≠ noStatus → v.destStatusIdx + 17 * 4 ≤ data.length)) :
    (storeAll zeroBadData k data pv).length = data.length := by
  induction pv generalizing data with
  | nil => rfl
  | cons v pv ih =>
    obtain ⟨hsrc, hdata, hstatus⟩ := h v List.mem_cons_self
    have hone := PutDpvec.length_store_of_le zeroBadData hk hsrc hdata hstatus
    have hrest := ih (fun w hw => hone.symm ▸ h w (List.mem_cons_of_mem v hw))
    exact hrest.trans hone

theorem PutCall.length_write {b b' : CircBuffer} {call : PutCall} (hin : call.InBlock b)
    (hw : call.write b = some (call.pendingOf b, b')) (h : WholeBlocks b) :
    (b'.block b.nextBlockIn).data.length = b.blockSize := by
  have hsize := h.size b.nextBlockIn
  have hfill : ∀ pieces prop, (pieces.map List.length).sum ≤ b.blockSize →
      ((b.fill pieces prop).block b.nextBlockIn).data.length = b.blockSize := by
    intro pieces prop hle
    simp only [fill, modifyBlock, Function.update_self]
    rw [length_copyPieces (hsize ▸ hle), hsize]
  have hfill16 : ∀ store prop,
      ((b.fill16th store prop).block b.nextBlockIn).data =
        (store (b.block b.nextBlockIn).data).1 := by
    intro store prop
    by_cases hk : b.nextBlockIn16th = 0
    · simp [fill16th, modifyBlock, hk]
    · simp [fill16th, modifyBlock, hk]
  have hput : ∀ (data : List UInt8) prop, data.length ≤ b.blockSize →
      ((b.fill [data] prop).block b.nextBlockIn).data.length = b.blockSize :=
    fun data prop hle => hfill [data] prop (by rwa [List.map_singleton, List.sum_singleton])
  obtain rfl := write_eq hw
  cases call with
  | put data prop => exact hput data prop hin
  | putPscattered pv prop => exact hfill pv prop hin
  | putNowait data prop => exact hput data prop hin
  | putNowaitScattered data pv prop =>
    exact hfill _ prop (by rw [sum_length_gather hin.1]; exact hin.2)
  | put16thDpscattered zeroBadData pv prop =>
    rw [filled, hfill16, storeDpvecs_eq, ← hsize]
    apply length_storeAll_of_inBlock h.part_lt
    intro v hv
    rw [hsize]
    exact hin v hv
  | put16thDpscatteredLost pv prop =>
    rw [filled, hfill16, ← hsize]
    apply length_zeroDpvecs
    intro v hv
    rw [hsize]
    exact hin v hv

/-! ## What the consumers leave alone -/

theorem assembly_publish (b : CircBuffer) (p : Pending) (n : ℕ) :
    ((p.publish b).block n).assembly = (b.block n).assembly := by
  cases p with
  | whole nbi =>
    by_cases hn : n = nbi
    · simp [Pending.publish, publishWhole, modifyBlock, Block.assembly, hn]
    · simp [Pending.publish, publishWhole, modifyBlock, hn]
  | sixteenth nbi nbi16th =>
    by_cases hn : n = nbi
    · by_cases h15 : nbi16th = 15
      · simp [Pending.publish, publish16th, publishWhole, modifyBlock, Block.assembly, hn, h15]
      · simp [Pending.publish, publish16th, modifyBlock, Block.assembly, hn, h15]
    · by_cases h15 : nbi16th = 15
      · simp [Pending.publish, publish16th, publishWhole, modifyBlock, hn, h15]
      · simp [Pending.publish, publish16th, modifyBlock, hn, h15]
  | dropped => rfl

def CircAction.ofProducer : CircAction → Bool
  | .write _ => true
  | .publish => true
  | _ => false

/-- What a step of a consumer does not change: the stored data, the producer's position, and the
put that is under way. -/
structure ProducerSame (s t : CircSys) : Prop where
  assembly : ∀ n, (t.buf.block n).assembly = (s.buf.block n).assembly
  blockSize_eq : t.buf.blockSize = s.buf.blockSize
  nextBlockIn_eq : t.buf.nextBlockIn = s.buf.nextBlockIn
  nextBlockIn16th_eq : t.buf.nextBlockIn16th = s.buf.nextBlockIn16th
  puts_eq : t.buf.puts = s.buf.puts
  pending_eq : t.pending = s.pending

theorem ProducerSame.refl (s : CircSys) : ProducerSame s s :=
  ⟨fun _ => rfl, rfl, rfl, rfl, rfl, rfl⟩

theorem producerSame_step {s t : CircSys} {a : CircAction} {e : CircEvent}
    (hbook : Bookkeeping s.buf) (ha : a.ofProducer = false) (hst : s.step a = some (e, t)) :
    ProducerSame s t := by
  cases CircSys.step_moves hst with
  | drop | fill | publish => cases ha
  | idle => exact ProducerSame.refl s
  | join fast i hc hi => exact ⟨fun _ => rfl, rfl, rfl, rfl, rfl, rfl⟩
  | transient gps delta r hr =>
    obtain ⟨i, -, hadd⟩ := addTransientConsumer_eq hbook gps delta
    rw [hr] at hadd
    split at hadd
    · rw [Option.some.inj hadd]
      exact ProducerSame.refl s
    · split at hadd
      · rw [Option.some.inj hadd]
        exact ProducerSame.refl s
      · rw [Option.some.inj hadd]
        refine ⟨fun n => ?_, rfl, rfl, rfl, rfl, rfl⟩
        dsimp only
        split
        · rfl
        · rfl
  | leave i hi =>
    refine ⟨fun n => ?_, rfl, rfl, rfl, rfl, rfl⟩
    show (if n < s.buf.blocks then (s.buf.block n).clearConsumer i else s.buf.block n).assembly = _
    split
    · rfl
    · rfl
  | get16th i nb b' hi hn =>
    obtain ⟨_, _, rfl⟩ := get16th_eq_some hn
    exact ⟨fun _ => rfl, rfl, rfl, rfl, rfl, rfl⟩
  | unlock i hi =>
    refine ⟨fun n => ?_, rfl, rfl, rfl, rfl, rfl⟩
    by_cases hn : n = s.buf.nextBlockOut i
    · simp [CircBuffer.unlock, modifyBlock, Block.assembly, hn]
    · simp [CircBuffer.unlock, modifyBlock, hn]
  | unlock16th i hi =>
    refine ⟨fun n => ?_, rfl, rfl, rfl, rfl, rfl⟩
    by_cases hn : n = s.buf.nextBlockOut i
    · simp [CircBuffer.unlock16th, modifyBlock, Block.assembly, hn]
    · simp [CircBuffer.unlock16th, modifyBlock, hn]

theorem WholeBlocks.of_same {s t : CircSys} (h : WholeBlocks s.buf) (hsame : ProducerSame s t) :
    WholeBlocks t.buf where
  size n := by
    have hdata := congrArg Assembly.data (hsame.assembly n)
    rw [hsame.blockSize_eq, ← h.size n]
    exact congrArg List.length hdata
  part_lt := hsame.nextBlockIn16th_eq ▸ h.part_lt

theorem WholeBlocks.step {s t : CircSys} {a : CircAction} {e : CircEvent}
    (hbook : Bookkeeping s.buf) (h : WholeBlocks s.buf) (hst : s.step a = some (e, t)) :
    WholeBlocks t.buf := by
  by_cases ha : a.ofProducer = false
  · exact h.of_same (producerSame_step hbook ha hst)
  cases CircSys.step_moves hst with
  | drop call hp h16 => exact h
  | fill call b' hp hin hw he hf =>
    have hlength := PutCall.length_write hin hw h
    obtain ⟨_, hsize, _, h16, _⟩ := hf.frame
    refine ⟨fun n => ?_, h16 ▸ h.part_lt⟩
    rw [hsize]
    by_cases hn : n = s.buf.nextBlockIn
    · rw [hn, hlength]
    · rw [hf.block_of_ne hn, h.size n]
  | publish p hp =>
    refine ⟨fun n => ?_, ?_⟩
    · have hdata := congrArg Assembly.data (assembly_publish s.buf p n)
      have hsize : (p.publish s.buf).blockSize = s.buf.blockSize := by
        cases p with
        | whole nbi => rfl
        | sixteenth nbi nbi16th => exact (s.buf.publish16th_frame nbi nbi16th).2.1
        | dropped => rfl
      show ((p.publish s.buf).block n).assembly.data.length = (p.publish s.buf).blockSize
      rw [hdata, hsize]
      exact h.size n
    · cases p with
      | whole nbi => exact h.part_lt
      | sixteenth nbi nbi16th =>
        show (s.buf.publish16th nbi nbi16th).nextBlockIn16th < 16
        rw [(s.buf.publish16th_frame nbi nbi16th).2.2.2.2.1]
        exact Nat.mod_lt _ (by decide)
      | dropped => exact h.part_lt
  | idle => exact h
  | join | transient | leave | get16th | unlock | unlock16th => exact absurd rfl ha

theorem wholeBlocks_of_run {consumers blocks blockSize : ℕ} {blockPeriod : ℤ}
    (hc : consumers ≤ maxConsumers) (hb : 0 < blocks) {as : List CircAction} {tr : List CircEvent}
    {s : CircSys}
    (h : run CircSys.step (.start (bufferMalloc consumers blocks blockSize blockPeriod)) as =
      some (tr, s)) : Exclusive s ∧ WholeBlocks s.buf := by
  refine run_invariant (fun s : CircSys => Exclusive s ∧ WholeBlocks s.buf)
    (fun s a _ e t hs hst => ⟨hs.1.step hst, hs.2.step hs.1.book hst⟩) ⟨?_, ?_⟩ h
  · exact Exclusive.start (bookkeeping_bufferMalloc hc hb blockSize blockPeriod)
  · exact ⟨fun n => List.length_replicate, Nat.succ_pos 15⟩

/-! ## The sixteen calls -/

/-- The put that a step starts. -/
def CircAction.putCall : CircAction → Option PutCall
  | .write call => some call
  | _ => none

/-- The calls `done` have been made for block `n`, the last of them perhaps without its second
critical section. -/
structure Assembling (n puts : ℕ) (old : Assembly) (done : List Put16th) (s : CircSys) : Prop where
  exclusive : Exclusive s
  stored : (s.buf.block n).assembly = assemble puts old done
  src : ∀ p ∈ done, ∀ v ∈ p.pv, v.vecLen ≤ v.src.length
  waiting : s.pending = none → done.length < 16 →
    s.buf.nextBlockIn = n ∧ s.buf.nextBlockIn16th = done.length ∧ s.buf.puts = puts
  filling : ∀ p, s.pending = some p → ∃ k, done.length = k + 1 ∧ p = .sixteenth n k ∧
    s.buf.nextBlockIn = n ∧ s.buf.nextBlockIn16th = k ∧ s.buf.puts = puts

namespace Assembling

variable {n puts : ℕ} {old : Assembly} {done rest : List Put16th} {s t : CircSys}
  {a : CircAction} {e : CircEvent}

theorem step_consumer (h : Assembling n puts old done s) (ha : a.ofProducer = false)
    (hst : s.step a = some (e, t)) : Assembling n puts old done t := by
  have hsame := producerSame_step h.exclusive.book ha hst
  refine ⟨h.exclusive.step hst, (hsame.assembly n).trans h.stored, h.src, fun hp hlt => ?_,
    fun p hp => ?_⟩
  · rw [hsame.nextBlockIn_eq, hsame.nextBlockIn16th_eq, hsame.puts_eq]
    exact h.waiting (hsame.pending_eq ▸ hp) hlt
  · rw [hsame.nextBlockIn_eq, hsame.nextBlockIn16th_eq, hsame.puts_eq]
    exact h.filling p (hsame.pending_eq ▸ hp)

theorem step_publish (h : Assembling n puts old done s) (hlen : done.length ≤ 16)
    (hst : s.step .publish = some (e, t)) : Assembling n puts old done t := by
  have hex := h.exclusive.step hst
  simp only [CircSys.step, CircSys.publish] at hst
  split at hst
  · cases hst
  · rename_i p hp
    obtain ⟨k, hk, rfl, hin, h16, hputs⟩ := h.filling p hp
    cases hst
    refine ⟨hex, (assembly_publish s.buf (.sixteenth n k) n).trans h.stored, h.src, fun _ hlt => ?_,
      fun p' hp' => ?_⟩
    · -- the block is not finished, so only the number of the part moves
      have hne : k ≠ 15 := by omega
      have hmod : (k + 1) % 16 = done.length := by omega
      simp only [Pending.publish, publish16th, if_neg hne, modifyBlock]
      exact ⟨hin, by rw [h16, hmod], hputs⟩
    · cases hp'

theorem step_write (h : Assembling n puts old done s) {p : Put16th} (hlt : done.length < 16)
    (hst : s.step (.write p.call) = some (e, t)) : Assembling n puts old (done ++ [p]) t := by
  have hex := h.exclusive.step hst
  simp only [CircSys.step, CircSys.write] at hst
  split at hst
  · rename_i hguard
    obtain ⟨hidle, hinside⟩ := hguard
    obtain ⟨hin, h16, hputs⟩ := h.waiting hidle hlt
    split at hst
    · cases hst
    · rename_i pend b hw
      cases hst
      obtain ⟨_, rfl, rfl⟩ := waitAndFill16th_eq_some hw
      have hfill := assembly_fill16th s.buf p
      obtain ⟨_, _, hin', h16', _⟩ := (filled_fill16th s.buf
        (fun dst => storeDpvecs p.zeroBadData s.buf.nextBlockIn16th dst p.pv) p.prop).frame
      refine ⟨hex, ?_, fun q hq v hv => ?_, fun hp => ?_, fun pend hp => ?_⟩
      · rw [assemble_snoc, ← h.stored, ← h16, ← hputs, ← hin]
        exact hfill
      · rcases List.mem_append.mp hq with hq | hq
        · exact h.src q hq v hv
        · rw [List.mem_singleton.mp hq] at hv
          exact (hinside v hv).1
      · cases hp
      · obtain rfl := Option.some.inj hp
        exact ⟨done.length, List.length_append, by rw [hin, h16], hin'.trans hin, h16'.trans h16,
          hputs⟩
  · cases hst

theorem of_run {as : List CircAction} {tr : List CircEvent} (h : Assembling n puts old done s)
    (hrun : run CircSys.step s as = some (tr, t))
    (hputs : as.filterMap CircAction.putCall = rest.map Put16th.call)
    (hlen : (done ++ rest).length ≤ 16) : Assembling n puts old (done ++ rest) t := by
  induction as generalizing s tr done rest with
  | nil =>
    obtain ⟨-, rfl⟩ := Prod.mk.inj (Option.some.inj hrun)
    obtain rfl : rest = [] := List.map_eq_nil_iff.mp hputs.symm
    rw [List.append_nil]
    exact h
  | cons a as ih =>
    obtain ⟨e, u, es, hst, hrest, rfl⟩ := run_cons hrun
    have hdone : done.length ≤ 16 := by
      rw [List.length_append] at hlen
      omega
    cases ha : a.putCall with
    | some call =>
      obtain rfl : a = .write call := by
        cases a with
        | write call' => rw [Option.some.inj ha]
        | publish | addConsumer | addTransientConsumer | deleteConsumer | get | getNowait | get16th
        | unlock | unlock16th => cases ha
      rw [List.filterMap_cons_some ha] at hputs
      cases rest with
      | nil => cases hputs
      | cons p rest =>
        obtain ⟨rfl, hlater⟩ := List.cons.inj hputs
        rw [List.append_cons] at hlen ⊢
        refine ih (h.step_write ?_ hst) hrest hlater hlen
        rw [List.length_append, List.length_append, List.length_singleton] at hlen
        omega
    | none =>
      rw [List.filterMap_cons_none ha] at hputs
      by_cases hpub : a = .publish
      · subst hpub
        exact ih (h.step_publish hdone hst) hrest hputs hlen
      · have hcons : a.ofProducer = false := by
          cases a with
          | write call => cases ha
          | publish => exact absurd rfl hpub
          | addConsumer | addTransientConsumer | deleteConsumer | get | getNowait | get16th | unlock
          | unlock16th => rfl
        exact ih (h.step_consumer hcons hst) hrest hputs hlen

end Assembling

/-- Sixteen calls in a row for one block, with any steps of the consumers between them, from any
reachable state, leave in it what was put. -/
theorem block_assembled {consumers blocks blockSize : ℕ} {blockPeriod : ℤ}
    (hc : consumers ≤ maxConsumers) (hb : 0 < blocks) {before as : List CircAction}
    {tr tr' : List CircEvent} {s t : CircSys}
    (hreach : run CircSys.step (.start (bufferMalloc consumers blocks blockSize blockPeriod))
      before = some (tr, s))
    (hidle : s.pending = none) (hfirst : s.buf.nextBlockIn16th = 0) {layout : List Dest}
    (hapart : (layout.flatMap Dest.areas).Pairwise Apart)
    (hinside : ∀ a ∈ layout.flatMap Dest.areas, a.1 + a.2 ≤ s.buf.blockSize)
    {ps : List Put16th} (hlen : ps.length = 16)
    (hsame : ∀ p ∈ ps, p.pv.map PutDpvec.dest = layout)
    (hputs : as.filterMap CircAction.putCall = ps.map Put16th.call)
    (h : run CircSys.step s as = some (tr', t)) :
    Assembled s.buf.puts layout ps (s.buf.block s.buf.nextBlockIn).assembly
      (t.buf.block s.buf.nextBlockIn).assembly := by
  obtain ⟨hex, hwhole⟩ := wholeBlocks_of_run hc hb hreach
  have hstart : Assembling s.buf.nextBlockIn s.buf.puts (s.buf.block s.buf.nextBlockIn).assembly []
      s := by
    refine ⟨hex, rfl, fun p hp => ?_, fun _ _ => ⟨rfl, hfirst, rfl⟩, fun p hp => ?_⟩
    · cases hp
    · rw [hidle] at hp
      cases hp
  have hend := hstart.of_run h hputs (by rw [List.nil_append, hlen])
  rw [List.nil_append] at hend
  rw [hend.stored]
  have hlaid : Laid s.buf.blockSize layout ps := ⟨hsame, hapart, hinside, hend.src⟩
  have hsize : (s.buf.block s.buf.nextBlockIn).assembly.data.length = s.buf.blockSize :=
    hwhole.size s.buf.nextBlockIn
  generalize (s.buf.block s.buf.nextBlockIn).assembly = old at *
  exact hlaid.assembled hlen hsize

/-- A vector of two bytes at the start of the block, with its statuses behind its parts. -/
private def shortVector (bsw : ℕ) (status : BitVec 32) : PutDpvec where
  src := [1, 2]
  destVecIdx := 0
  vecLen := 2
  status := status
  destStatusIdx := 32
  bsw := bsw

/-- Sixteen calls with this vector, one of them for bad data, and a consumer that looks on. -/
private def shortPuts (bsw : ℕ) : List Put16th :=
  List.replicate 7 ⟨true, [shortVector bsw 0], some { gps := 5 }⟩ ++
    [⟨true, [shortVector bsw 4], none⟩] ++
      List.replicate 8 ⟨true, [shortVector bsw 0], some { gps := 5 }⟩

private def shortRun (bsw : ℕ) : List CircAction :=
  (shortPuts bsw).flatMap fun p => [.write p.call, .getNowait 0, .publish]

theorem block_assembled_shortVector :
    ∃ tr t, run CircSys.step (.start (bufferMalloc 1 2 100 1)) (shortRun 0) = some (tr, t) ∧
      Assembled 0 [⟨0, 2, 32⟩] (shortPuts 0) ((bufferMalloc 1 2 100 1).block 0).assembly
        (t.buf.block 0).assembly := by
  have hrun : (run CircSys.step (.start (bufferMalloc 1 2 100 1)) (shortRun 0)).isSome = true := by
    decide +kernel
  obtain ⟨⟨tr, t⟩, hr⟩ := Option.isSome_iff_exists.mp hrun
  exact ⟨tr, t, hr, block_assembled (by decide) (by decide)
    (run_nil CircSys.step (.start (bufferMalloc 1 2 100 1))) rfl rfl (by decide) (by decide)
    (by decide) (by decide) (by decide) hr⟩

/-- With groups of two bytes the finished block does not hold the source vectors. -/
theorem swapped_not_concatenation :
    ([⟨0, 2, 32⟩].flatMap Dest.areas).Pairwise Apart ∧
      (∀ a ∈ [⟨0, 2, 32⟩].flatMap Dest.areas, a.1 + a.2 ≤ (bufferMalloc 1 2 100 1).blockSize) ∧
      ∃ tr t, run CircSys.step (.start (bufferMalloc 1 2 100 1)) (shortRun 2) = some (tr, t) ∧
        (t.buf.block 0).data.take 2 = [2, 1] ∧
        slice (t.buf.block 0).data 0 32 ≠
          (shortPuts 2).flatMap fun p => p.pv.flatMap fun v =>
            if v.status ≠ 0 ∧ p.zeroBadData = true then [0, 0] else v.src := by
  have hrun : (run CircSys.step (.start (bufferMalloc 1 2 100 1)) (shortRun 2)).map (fun r =>
      (r.2.buf.block 0).data.take 32) = some
        ((List.replicate 7 [2, 1]).flatten ++ [0, 0] ++ (List.replicate 8 [2, 1]).flatten) := by
    decide +kernel
  obtain ⟨⟨tr, t⟩, hr, heq⟩ := Option.map_eq_some_iff.mp hrun
  have hslice : slice (t.buf.block 0).data 0 32 = (t.buf.block 0).data.take 32 := rfl
  refine ⟨by decide, by decide, tr, t, hr, ?_, ?_⟩
  · have htake : (t.buf.block 0).data.take 2 = ((t.buf.block 0).data.take 32).take 2 := by
      rw [List.take_take, Nat.min_eq_left (by decide)]
    rw [htake, heq]
    decide
  · rw [hslice, heq]
    decide

end AdvLigoRts.Daqd
