import Mathlib.Data.List.Sort
import AdvLigoRts.Lib.PointRuns
import AdvLigoRts.Lib.ByteMem
import Mathlib.Data.Char
import Mathlib.Data.List.Lex

/-!
# Raw minute trends

`Nds::rawMinuteTrend` of `src/nds/rawminutetrend.cc` with `find_offs`, and `data_span` of
`src/nds/nds.hh`. A trend file is the list of its records. The image that is sent is made by writes
to a memory of zeros.
-/

namespace AdvLigoRts.Nds

open PvLib

/-! ## Files and requests -/

/-- A record of `RAW_TREND_REC_SIZE` bytes: its first word, and the byte at each offset. -/
structure RawTrendRec where
  gps : UInt32
  byte : ℕ → UInt8

/-- `Spec::DataTypeType`. -/
inductive DataType
  | undefined
  | int16
  | int32
  | int64
  | float32
  | double64
  | complex32
  | uint32
deriving DecidableEq, Repr

/-- The `mSignalBps` that `Spec::parse` sets for a type. -/
def DataType.bps : DataType → ℕ
  | .undefined => 0
  | .int16 => 2
  | .int32 | .float32 | .uint32 => 4
  | .int64 | .double64 | .complex32 => 8

structure Signal where
  name : List Char
  type : DataType
deriving DecidableEq, Repr

/-- `substr( 0, idx )` with the place of the first dot. -/
def Signal.fileName (s : Signal) : Option (List Char) :=
  if '.' ∈ s.name then some (s.name.takeWhile fun c => c != '.') else none

/-- What stands behind `strrchr( .., '.' )`. -/
def Signal.sfx (s : Signal) : List Char := (s.name.reverse.takeWhile fun c => c != '.').reverse

/-- `ch_offset`, which is set for five suffixes. -/
def chOffset (sfx : List Char) : Option ℕ :=
  if sfx = ['m', 'i', 'n'] then some 4
  else if sfx = ['m', 'a', 'x'] then some (4 + 8)
  else if sfx = ['n'] then some (4 + 8 + 8)
  else if sfx = ['r', 'm', 's'] then some (4 + 8 + 8 + 4)
  else if sfx = ['m', 'e', 'a', 'n'] then some (4 + 8 + 8 + 4 + 8)
  else none

/-- The trend files, by the names of their signals. -/
abbrev TrendFiles := List Char → Option (List RawTrendRec)

/-! ## Spans -/

/-- Records of a file without a gap. -/
structure DataSpan where
  offs : ℕ := 0
  gps : ℕ := 0
  length : ℕ := 0
deriving DecidableEq, Repr

def pointPeriod : ℕ := 60

def DataSpan.endGps (s : DataSpan) : ℕ := s.gps + s.length * pointPeriod

def DataSpan.extend (s t : DataSpan) : DataSpan :=
  let newLength := (t.endGps - s.gps) / pointPeriod
  if newLength > s.length then { s with length := newLength } else s

/-- The stamp that is read at record `k`. -/
def stampAt (recs : List RawTrendRec) (k : ℕ) : UInt32 := ((recs[k]?).map RawTrendRec.gps).getD 0

/-- `find_offs`, with a bound on the depth of the recursion. It does not return for no records. -/
def findOffs (gps : UInt32) (recs : List RawTrendRec) : (depth start structs : ℕ) → Option ℕ
  | 0, _, _ => none
  | depth + 1, start, structs =>
    let ssGps := stampAt recs (start + structs / 2)
    if structs = 1 then
      -- the sum is one of `unsigned int`s
      if gps < ssGps + 30 then some start else some (start + 1)
    else
      let first := if gps > ssGps then start + structs / 2 else start
      findOffs gps recs depth first ((structs + 1) / 2)

/-- Checking in a completed span, which is cut if it begins before the end of the last one. -/
def checkIn (dvec : List DataSpan) (ds : DataSpan) : List DataSpan :=
  let backEnd := (dvec.getLast?.map DataSpan.endGps).getD 0
  let diff := (backEnd - ds.gps) / 60 + 1
  let ds :=
    if backEnd > ds.gps then
      if ds.length ≤ diff then { ds with gps := 0 }
      else ⟨ds.offs + diff, ds.gps + diff * 60, ds.length - diff⟩
    else ds
  if ds.gps ≠ 0 then dvec ++ [ds] else dvec

/-- The scan of the records from number `k` on, with the spans checked in and the current one. -/
def scanSpans (endGps : UInt32) : List RawTrendRec → ℕ → List DataSpan → DataSpan → List DataSpan
  | [], _, dvec, ds => checkIn dvec ds
  | r :: rs, k, dvec, ds =>
    if r.gps ≥ endGps then checkIn dvec ds
    else if ds.gps = 0 then scanSpans endGps rs (k + 1) dvec ⟨k, r.gps.toNat, 1⟩
    else if r.gps.toNat ≠ ds.endGps then
      scanSpans endGps rs (k + 1) (checkIn dvec ds) ⟨k, r.gps.toNat, 1⟩
    else scanSpans endGps rs (k + 1) dvec { ds with length := ds.length + 1 }

def fileSpans (gps endGps : UInt32) (recs : List RawTrendRec) : Option (List DataSpan) :=
  (findOffs gps recs recs.length 0 recs.length).map fun offs =>
    if offs = recs.length then [] else scanSpans endGps (recs.drop offs) offs [] {}

/-- `file_set`, in its order. -/
def fileSet (names : List (List Char)) : List (List Char) :=
  names.dedup.insertionSort (· ≤ ·)

/-- `data_span_map`, for those of the files that exist and have data in the time. -/
def dataSpanMap (gps endGps : UInt32) (files : TrendFiles) :
    List (List Char) → Option (List (List Char × List DataSpan))
  | [] => some []
  | name :: names =>
    match files name with
    | none => dataSpanMap gps endGps files names
    | some recs =>
      match fileSpans gps endGps recs, dataSpanMap gps endGps files names with
      | some dvec, some rest => some (if dvec = [] then rest else (name, dvec) :: rest)
      | _, _ => none

/-! ## Union -/

/-- `summary_data_spans`: the lists of all files merged by their start times. -/
def summarySpans (spanMap : List (List Char × List DataSpan)) : List DataSpan :=
  spanMap.foldl (fun dsl p => List.merge dsl p.2 fun a b => decide (a.gps ≤ b.gps)) []

def uniteSpans : List DataSpan → List DataSpan → DataSpan → List DataSpan
  | [], united, cur => if cur.gps ≠ 0 then united ++ [cur] else united
  | p :: ps, united, cur =>
    if cur.gps = 0 then uniteSpans ps united p
    else if p.gps ≤ cur.endGps then uniteSpans ps united (cur.extend p)
    else uniteSpans ps (united ++ [cur]) p

/-- `united_data_spans`. -/
def unitedSpans (spanMap : List (List Char × List DataSpan)) : List DataSpan :=
  uniteSpans (summarySpans spanMap) [] {}

/-! ## Image -/

/-- `htonl`, and the bytes of its word in memory. -/
def netWord (n : ℕ) : List UInt8 :=
  [.ofNat (n / 2 ^ 24), .ofNat (n / 2 ^ 16), .ofNat (n / 2 ^ 8), .ofNat n]

def transmissionBlockSize (signals : List Signal) : ℕ := (signals.map fun s => s.type.bps).sum

def imageSize (tbs : ℕ) (united : List DataSpan) : ℕ :=
  (united.map DataSpan.length).sum * tbs + 5 * 4 * united.length

/-- `mapping_data_span`. -/
structure MappingSpan extends DataSpan where
  imageOffs : ℕ
deriving DecidableEq, Repr

def headerBytes (tbs : ℕ) (p : DataSpan) (seqNum : ℕ) : List UInt8 :=
  netWord (4 * 4 + p.length * tbs) ++ netWord (p.length * 60) ++ netWord p.gps ++ netWord 0 ++
    netWord seqNum

/-- The loop that fills the headers in: the writes, and the spans with their places. -/
def fillHeaders (tbs : ℕ) : List DataSpan → (offs seqNum : ℕ) → List Write × List MappingSpan
  | [], _, _ => ([], [])
  | p :: ps, offs, seqNum =>
    let rest := fillHeaders tbs ps (offs + 5 * 4 + p.length * tbs) (seqNum + 1)
    (⟨offs, headerBytes tbs p seqNum⟩ :: rest.1, ⟨p, offs + 5 * 4⟩ :: rest.2)

/-- What is kept of a signal of a file: `ch_bytes`, `ch_offset` and `ch_image_offset`. -/
structure Channel where
  bytes : ℕ
  offset : ℕ
  imageOffset : ℕ

/-- The entries of these arrays for signal `k`; none where `ch_offset` is not set. -/
def channelOf (signals : List Signal) (k : ℕ) : Option Channel :=
  match signals[k]? with
  | none => none
  | some s =>
    (chOffset s.sfx).map fun offset =>
      ⟨s.type.bps, offset, transmissionBlockSize (signals.take k)⟩

/-- The numbers of the signals of a file, in their order in `fname_channel_mmap`. -/
def channelNumbers (signals : List Signal) (name : List Char) : List ℕ :=
  (List.range signals.length).filter fun k => (signals[k]?).bind Signal.fileName = some name

/-- The arrays for the signals of a file. -/
def channels (signals : List Signal) : List ℕ → Option (List Channel)
  | [] => some []
  | k :: ks =>
    match channelOf signals k, channels signals ks with
    | some c, some cs => some (c :: cs)
    | _, _ => none

/-- The `n` bytes at `offset` of a record. -/
def RawTrendRec.field (r : RawTrendRec) (offset n : ℕ) : List UInt8 :=
  (List.range n).map fun j => r.byte (offset + j)

def byteswap (bytes : List UInt8) : List UInt8 :=
  if bytes.length = 2 ∨ bytes.length = 4 ∨ bytes.length = 8 then bytes.reverse else bytes

def copyPoints (recs : List RawTrendRec) (c : Channel) (d : DataSpan) (m : MappingSpan) :
    List Write :=
  (List.range d.length).filterMap fun p =>
    (recs[d.offs + p]?).map fun r =>
      ⟨m.imageOffs + c.imageOffset * m.length + c.bytes * ((d.gps - m.gps) / 60) + p * c.bytes,
        byteswap (r.field c.offset c.bytes)⟩

/-- The loop over the spans of a file. -/
def copySpans (recs : List RawTrendRec) (chans : List Channel) :
    List DataSpan → List MappingSpan → List Write
  | [], _ => []
  | d :: ds, ms =>
    match ms.dropWhile fun m => decide (d.gps > m.endGps) with
    | [] => []
    | m :: ms =>
      (chans.flatMap fun c => copyPoints recs c d m) ++ copySpans recs chans ds (m :: ms)

/-- The loop over `data_span_map`. -/
def copyFiles (files : TrendFiles) (signals : List Signal) (ms : List MappingSpan) :
    List (List Char × List DataSpan) → Option (List Write)
  | [] => some []
  | (name, dvec) :: rest =>
    match files name, channels signals (channelNumbers signals name),
      copyFiles files signals ms rest with
    | some recs, some chans, some copies => some (copySpans recs chans dvec ms ++ copies)
    | _, _, _ => none

def blockImage (size : ℕ) (writes : List Write) : List UInt8 :=
  bytesAt (applyWrites (fun _ => 0) writes) 0 size

/-! ## The request -/

/-- `rawMinuteTrend` behind the reconfiguration block: the value returned and the bytes given to
`write`, which writes the first `written` of them; `none` where the program does not return or
uses what is not set. -/
def rawMinuteTrend (files : TrendFiles) (signals : List Signal) (startGps endGps seqNum : ℕ)
    (written : List UInt8 → ℤ) : Option (Bool × List UInt8) :=
  let gps : UInt32 := .ofNat startGps
  let endGps : UInt32 := .ofNat endGps
  if signals.any fun s => s.fileName.isNone then some (false, [])
  else
    (dataSpanMap gps endGps files (fileSet (signals.filterMap Signal.fileName))).bind
      fun spanMap =>
        let united := unitedSpans spanMap
        let tbs := transmissionBlockSize signals
        let size := imageSize tbs united
        let headers := fillHeaders tbs united 0 seqNum
        if spanMap = [] ∨ size = 0 then some (true, [])
        else
          (copyFiles files signals headers.2 spanMap).map fun copies =>
            let image := blockImage size (headers.1 ++ copies)
            (decide (written image = size), image)

end AdvLigoRts.Nds
