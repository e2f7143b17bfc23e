import AdvLigoRts.Lib.IntervalRun
import AdvLigoRts.Lib.Machine

/-!
# The file map

`filesys_c` of `src/daqd/filesys.hh` and `filesys.cc` maps a GPS second to the directory and the
file that hold it. Files that follow each other without a gap share a range, ranges are kept in
blocks of ten, and the blocks of a directory form a list with the current block in front.
Directories are filled one after the other; on a change of the directory the one after it is
cleaned.

A `time_t` is an integer; the seconds of files that are written are GPS seconds, counted from 0.
Memory is never exhausted.
-/

namespace AdvLigoRts.Daqd

open PvLib

/-! ## Ranges -/

/-- An entry of `range_block::d`. -/
structure Range where
  fileSecs : ℤ
  minTime : ℤ
  maxTime : ℤ
deriving DecidableEq, Repr

/-- The range that `put( len, time )` assigns. -/
def Range.put (len time : ℤ) : Range := ⟨len, time, time + len⟩

/-- `range_block`: the last range that was put, and those before it. There is no block without
a range. -/
structure RangeBlock where
  older : List Range
  current : Range
deriving DecidableEq, Repr

namespace RangeBlock

def maxRangeBlocks : ℕ := 10

/-- `range_block( len, time )`. -/
def new (len time : ℤ) : RangeBlock := ⟨[], .put len time⟩

/-- `d`, as far as it is used. -/
def d (rb : RangeBlock) : List Range := rb.older ++ [rb.current]

def put (rb : RangeBlock) (len time : ℤ) : RangeBlock := ⟨rb.d, .put len time⟩

def isFull (rb : RangeBlock) : Bool := decide (maxRangeBlocks ≤ rb.d.length)

/-- `current_max_time_add( t )`. -/
def currentMaxTimeAdd (rb : RangeBlock) (t : ℤ) : RangeBlock :=
  { rb with current := { rb.current with maxTime := rb.current.maxTime + t } }

/-- `current_max_time_sub( t )`. -/
def currentMaxTimeSub (rb : RangeBlock) (t : ℤ) : RangeBlock :=
  { rb with current := { rb.current with maxTime := rb.current.maxTime - t } }

end RangeBlock

/-! ## The map -/

/-- An entry of `filesys_c::dir`; `blist` begins with its first block. -/
structure Dir where
  nfiles : ℤ := 0
  minTime : ℤ := 0
  maxTime : ℤ := 0
  blist : List RangeBlock := []
deriving DecidableEq, Repr

/-- All ranges of a directory, in the order in which `dir_number` looks at them. -/
def Dir.ranges (d : Dir) : List Range := d.blist.flatMap RangeBlock.d

/-- `filesys_c`. -/
structure Filesys where
  minTime : ℤ := 0
  maxTime : ℤ := 0
  dir : ℕ → Dir := fun _ => {}
  numDirs : ℕ
  curDir : ℕ := 0
  /-- `cur_update_dir`, with `none` for `-1`. -/
  curUpdateDir : Option ℕ := none
  filesPerDir : ℤ := 3600

namespace Filesys

/-- The loops of `dir_number` over the blocks of a directory and their ranges: `*tr` and
`*fsecs`. -/
def findRange (t : ℤ) : List Range → Option (ℤ × ℤ)
  | [] => none
  | r :: rs =>
    if r.minTime ≤ t ∧ r.maxTime > t then
      some (r.minTime + (t - r.minTime).tdiv r.fileSecs * r.fileSecs, r.fileSecs)
    else findRange t rs

/-- The loop of `dir_number` over the directories, for `i` more of them: the directory, `*tr`
and `*fsecs`. -/
def dirLoop (s : Filesys) (t : ℤ) : ℕ → ℕ → Option (ℕ × ℤ × ℤ)
  | 0, _ => none
  | i + 1, fdir =>
    if (s.dir fdir).minTime ≤ t ∧ (s.dir fdir).maxTime > t then
      -- no other directory is tried after the first one that spans `t`
      (findRange t (s.dir fdir).ranges).map fun (tr, fsecs) => (fdir, tr, fsecs)
    else dirLoop s t i ((fdir + 1) % s.numDirs)

/-- `dir_number`, with `none` for a return value of `-1`. -/
def dirNumber (s : Filesys) (t : ℤ) : Option (ℕ × ℤ × ℤ) × Filesys :=
  match s.dirLoop t s.numDirs s.curDir with
  | none => (none, s)
  | some (fdir, tr, fsecs) => (some (fdir, tr, fsecs), { s with curDir := fdir })

/-- The directory that `getDirFileNames` and `dir_fname` return. -/
def dnum (s : Filesys) : ℕ :=
  match s.curUpdateDir with
  | none => 0
  | some cur =>
    if (s.dir cur).nfiles ≥ s.filesPerDir then
      if 0 < s.numDirs then (cur + 1) % s.numDirs else cur + 1
    else cur

/-! ## `_update_dir` -/

/-- The first update of an object sets the minimum times, if they are not set. -/
def firstUpdate (s : Filesys) (gps : ℤ) (dnum : ℕ) : Filesys :=
  match s.curUpdateDir with
  | some _ => s
  | none =>
    let dir := if (s.dir dnum).minTime = 0 then
      Function.update s.dir dnum { s.dir dnum with minTime := gps } else s.dir
    { s with
      curUpdateDir := some dnum
      dir
      minTime := if s.minTime = 0 then gps else s.minTime }

/-- The directory that is cleaned when a file goes to directory `dnum`, if any is. -/
def cleaned (s : Filesys) (dnum : ℕ) : Option ℕ :=
  if 1 < s.numDirs ∧ s.curUpdateDir ≠ some dnum then some ((dnum + 1) % s.numDirs) else none

/-- The switch to directory `dnum`, which cleans the one after it. -/
def switchDir (s : Filesys) (gps : ℤ) (dnum : ℕ) : Filesys :=
  match s.cleaned dnum with
  | none => s
  | some next =>
    let dir := Function.update s.dir dnum { s.dir dnum with minTime := gps }
    let dir := Function.update dir next {}
    let nextNext := (dnum + 2) % s.numDirs
    { s with
      curUpdateDir := some dnum
      dir
      minTime := if (dir nextNext).minTime ≠ 0 then (dir nextNext).minTime else s.minTime }

/-- The blocks of a directory with one more file in its current range, or in a new one. -/
def addFile (blist : List RangeBlock) (gps period : ℤ) : List RangeBlock :=
  match blist with
  | [] => [.new period gps]
  | cur :: rest =>
    if cur.current.maxTime = gps then cur.currentMaxTimeAdd cur.current.fileSecs :: rest
    else if cur.isFull then .new period gps :: cur :: rest
    else cur.put period gps :: rest

def updateDir (s : Filesys) (gps period : ℤ) (dnum : ℕ) : Filesys :=
  -- the current block is taken before anything is cleaned
  let blist := (s.dir dnum).blist
  let s := (s.firstUpdate gps dnum).switchDir gps dnum
  let d := s.dir dnum
  { s with
    dir := Function.update s.dir dnum
      { d with
        blist := addFile blist gps period
        nfiles := d.nfiles + 1
        maxTime := gps + period }
    maxTime := gps + period }

end Filesys

/-! ## Runs -/

/-- A file that was recorded: its first second and its directory. -/
structure RecordedFile where
  gps : ℤ
  dir : ℕ
deriving DecidableEq, Repr

/-- What may be asked of the map. -/
inductive FilesysAction where
  /-- A frame file that begins at `gps` is written: `dir_fname`, then `update_dir`. -/
  | write (gps : ℕ)
  /-- `dir_number( t, .. )`. -/
  | query (t : ℤ)
deriving DecidableEq, Repr

inductive FilesysEvent where
  /-- The file was recorded, and directory `cleaned` was cleaned before that. -/
  | wrote (file : RecordedFile) (cleaned : Option ℕ)
  | answered (answer : Option (ℕ × ℤ × ℤ))
deriving DecidableEq, Repr

namespace Filesys

/-- The map as it is constructed, with `num_dirs` and `files_per_dir` set. -/
def start (numDirs : ℕ) (filesPerDir : ℤ) : Filesys := { numDirs, filesPerDir }

/-- One call, where `secs` is the length of the file that begins at a second. -/
def step (secs : ℤ → ℤ) (s : Filesys) : FilesysAction → Option (FilesysEvent × Filesys)
  | .write gps =>
    let dnum := s.dnum
    some (.wrote ⟨gps, dnum⟩ ((s.firstUpdate gps dnum).cleaned dnum),
      s.updateDir gps (secs gps) dnum)
  | .query t =>
    let (answer, s) := s.dirNumber t
    some (.answered answer, s)

end Filesys

def recordEvent (files : List RecordedFile) : FilesysEvent → List RecordedFile
  | .wrote file cleaned => files.filter (fun f => some f.dir ≠ cleaned) ++ [file]
  | .answered _ => files

/-- The files that a trace records, without those of directories cleaned since. -/
def recordedFiles (tr : List FilesysEvent) : List RecordedFile := tr.foldl recordEvent []

end AdvLigoRts.Daqd
