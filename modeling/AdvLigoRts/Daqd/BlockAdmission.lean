import AdvLigoRts.Daqd.ProducerShmem
import AdvLigoRts.Lib.Extent

/-!
# What `producer::frame_writer` does with a header

One turn of the main loop of `src/daqd/producer_shmem.cc`: where it uses the fields of the received
header to index a table or to copy bytes, in the order of the source, up to the call of `exit( 1 )`
if there is one. The values that it computes from the data are left out.
-/

namespace AdvLigoRts.Daqd

open PvLib

/-- A value of the header that indexes an array. -/
inductive HeaderUse
  /-- `dcuheader[ index ]`. -/
  | header (index : ℕ)
  /-- `dcu_recv_mask[ dcuId ]`. -/
  | recvMask (dcuId : ℕ)
  /-- `gds_tp_table[ 0 ][ dcuid ]`, where `dcuid` is an `int`. -/
  | tpTable (dcuid : ℤ)
  /-- `dcu_to_zmq_lookup[ dcuId ]` and the arrays beside it. -/
  | lookup (dcuId : ℕ)
  /-- Bytes of `dataBlock` that are copied. -/
  | source (x : Extent)
  /-- Where they go, from `dcu_move_addresses.start[ dcu ]` on. -/
  | dest (dcu : ℕ) (x : Extent)
deriving DecidableEq, Repr

/-- The members of `daqd` that say which DCUs are copied. -/
structure DcuConfig where
  cit40m : Bool
  /-- `dcuSize[ 0 ]`. -/
  dcuSize : ℕ → ℕ

def dcuIdEdcu : ℕ := 4

def dcuIdHepi1 : ℕ := 22

def DcuConfig.IsMyrinetDcu (cfg : DcuConfig) (dcuid : ℕ) : Prop :=
  if cfg.cit40m then dcuid = 11 ∨ dcuid = dcuIdHepi1
  else 5 ≤ dcuid ∧ dcuid ≤ 12 ∨ 17 ≤ dcuid ∧ dcuid ≤ dcuCount - 1

instance (cfg : DcuConfig) (dcuid : ℕ) : Decidable (cfg.IsMyrinetDcu dcuid) := by
  unfold DcuConfig.IsMyrinetDcu
  infer_instance

/-! ## Statistics and test point table -/

/-- A loop over `dcuheader[ 0 ]` to `dcuheader[ n - 1 ]`. -/
def forHeaders (n : ℕ) (uses : ℕ → List HeaderUse) : List HeaderUse := (List.range n).flatMap uses

/-- The loop that adds up the `tpCount`, in every sixteenth turn. -/
def tpCountUses (i : ℕ) (block : DaqMultiDcuData) : List HeaderUse :=
  if i % 16 = 0 then forHeaders block.header.dcuTotalModels fun k => [.header k] else []

/-- The loop that marks the DCUs as received. -/
def recvMaskUses (block : DaqMultiDcuData) : List HeaderUse :=
  forHeaders block.header.dcuTotalModels fun k =>
    [.header k, .recvMask (block.header.dcuheader k).dcuId.toNat]

/-- The uses for a block that has models in it: the time, the search for blocks without data, and
the copy of the test point lists in every sixteenth turn. -/
def timeAndTpUses (i : ℕ) (block : DaqMultiDcuData) : List HeaderUse :=
  let total := block.header.dcuTotalModels
  if total = 0 then []
  else
    [.header 0] ++ forHeaders total (fun k => [.header k]) ++
      if i % 16 = 0 then
        forHeaders total fun k =>
          [.header k, .tpTable (block.header.dcuheader k).dcuId.toInt32.toInt]
      else []

/-! ## Map of the DCUs -/

/-- `dcu_to_zmq_lookup` and `dcu_data_from_zmq`, the pointers as offsets in `dataBlock`. -/
structure ZmqMap where
  lookup : ℕ → Option ℕ
  data : ℕ → Option ℕ

/-- The arrays as they are filled at the start of a turn. -/
def ZmqMap.empty : ZmqMap := ⟨fun _ => none, fun _ => none⟩

/-- The assignments for one header, unless its DCU is too high. -/
def ZmqMap.enter (m : ZmqMap) (curDcuid curBlock curDcuZmqPtr : ℕ) : ZmqMap :=
  if dcuCount ≤ curDcuid then m
  else
    ⟨Function.update m.lookup curDcuid (some curBlock),
      Function.update m.data curDcuid (some curDcuZmqPtr)⟩

/-- The uses that go with them. -/
def enterUses (curDcuid curBlock : ℕ) : List HeaderUse :=
  if dcuCount ≤ curDcuid then [.header curBlock] else [.header curBlock, .lookup curDcuid]

/-- The loop over the next `n` headers; no map when `cur_dcu_zmq_ptr` runs past the data block. -/
def mapLoop (block : DaqMultiDcuData) :
    (n curBlock curDcuZmqPtr : ℕ) → ZmqMap → List HeaderUse × Option ZmqMap
  | 0, _, _, m => ([], some m)
  | n + 1, curBlock, curDcuZmqPtr, m =>
    let h := block.header.dcuheader curBlock
    let uses := enterUses h.dcuId.toNat curBlock
    let next := curDcuZmqPtr + h.blockSize
    if daqTransitDcDataBlockSize < next then (uses, none)
    else
      let rest := mapLoop block n (curBlock + 1) next (m.enter h.dcuId.toNat curBlock curDcuZmqPtr)
      (uses ++ rest.1, rest.2)

/-! ## Copy -/

/-- The bits of `max_tp_size`, an `int` that is given an `unsigned int`. -/
def maxTpSize (dataBlockSize : UInt32) : UInt32 := .ofNat (2 * daqDcuBlockSize) - dataBlockSize

/-- The bits of `tp_size`. Both sides of the comparison are `unsigned int`s. -/
def tpSize (h : DaqMsgHeader) : UInt32 :=
  if h.tpBlockSize ≤ maxTpSize h.dataBlockSize then h.tpBlockSize else maxTpSize h.dataBlockSize

/-- An `int` as the `size_t` that `memcpy` gets. -/
def memcpySize (n : UInt32) : ℕ := (n.toBitVec.signExtend 64).toNat

/-- The copies of the data and of the test points of DCU `j`. -/
def copyDcu (j : ℕ) (h : DaqMsgHeader) (ptr : ℕ) : List HeaderUse :=
  let dataSize := h.dataBlockSize.toNat
  [.source ⟨ptr, dataSize⟩, .dest j ⟨0, dataSize⟩,
    .source ⟨ptr + dataSize, memcpySize (tpSize h)⟩, .dest j ⟨dataSize, memcpySize (tpSize h)⟩]

/-- The uses for DCU `j`. -/
def dcuUses (cfg : DcuConfig) (block : DaqMultiDcuData) (m : ZmqMap) (j : ℕ) : List HeaderUse :=
  match m.lookup j, m.data j with
  | some k, some ptr =>
    if cfg.dcuSize j = 0 then []
    else if cfg.IsMyrinetDcu j then .header k :: copyDcu j (block.header.dcuheader k) ptr
    else []
  | _, _ => []

/-- The loop over the DCUs. -/
def copyUses (cfg : DcuConfig) (block : DaqMultiDcuData) (m : ZmqMap) : List HeaderUse :=
  (List.range' dcuIdEdcu (dcuCount - dcuIdEdcu)).flatMap (dcuUses cfg block m)

/-! ## The turn -/

/-- The turn of index `i`: the uses of the header, and whether it ends in `exit( 1 )`. -/
def frameWriterTurn (cfg : DcuConfig) (i prevGps prevFrac : ℕ) (block : DaqMultiDcuData) :
    List HeaderUse × Except ProducerExit Unit :=
  let total := block.header.dcuTotalModels
  let before := tpCountUses i block ++ recvMaskUses block ++ timeAndTpUses i block
  let gps := if 0 < total then gpsOf block else prevGps
  let frac := if 0 < total then fracOf block else prevFrac
  if total = 0 ∨ ¬Continues prevGps prevFrac gps frac then
    (before ++ forHeaders (min 10 total) (fun k => [.header k]),
      .error (.dropped gps frac prevGps prevFrac total (expectedGps prevGps prevFrac)
        (expectedCycle prevFrac)))
  else if daqTransitMaxDcu ≤ total then (before, .error (.tooManyDcus total))
  else
    match mapLoop block total 0 0 .empty with
    | (uses, none) => (before ++ uses, .error .overflowed)
    | (uses, some m) => (before ++ uses ++ copyUses cfg block m, .ok ())

end AdvLigoRts.Daqd
