import Mathlib.Data.List.Sort
import AdvLigoRts.Lib.TextStream
import AdvLigoRts.Daqd.Filesys

/-!
# Scanning the directories

`filesys_c::scan` rebuilds the file map from the names of the files in the directories. A
directory is what `readdir_r` returns of it, in any order, or nothing where it cannot be opened.
Names are texts of characters; the numbers in them are those of type `int`.
-/

namespace AdvLigoRts.Daqd

open PvLib

/-- What names are made of and taken apart with: `prefix`, `suffix` and `period` of
`filesys_c`. -/
structure FileAttrs where
  prx : List Char
  sfx : List Char
  period : ℤ
deriving DecidableEq, Repr

/-- `timestamp_time`: the first second of a file and its length. -/
structure TimestampTime where
  gps : ℤ
  dt : ℤ
deriving DecidableEq, Repr

namespace FileAttrs

/-- `( int )t`. -/
def toInt (t : ℤ) : ℤ := t.bmod (2 ^ 32)

/-- The name of a file in its directory, as `_filename_dir` and `getDirFileNames` print it. -/
def fileName (a : FileAttrs) (f : TimestampTime) : List Char :=
  if f.dt ≠ 1 then a.prx ++ printInt (toInt f.gps) ++ '-' :: printInt f.dt ++ a.sfx
  else a.prx ++ printInt (toInt f.gps) ++ a.sfx

def validFname (a : FileAttrs) (fname : List Char) : Bool :=
  decide (3 ≤ fname.length) && a.prx.isPrefixOf fname

/-- `ftosecs`: `sscanf` with `"%d-%d"`. -/
def ftosecs (a : FileAttrs) (filename : List Char) : TimestampTime :=
  match takeInt filename with
  | none => ⟨-1, 0⟩
  | some (times, '-' :: rest) =>
    match takeInt rest with
    | some (framedt, _) => ⟨times, framedt⟩
    | none => ⟨times, a.period⟩
  | some (times, _) => ⟨times, a.period⟩

end FileAttrs

def maxTstamps : ℕ := 10000

/-- The loop over the entries of a directory: `tstamps`, `dir_nfiles` and
`dir_not_full_flag`. -/
structure Tstamps where
  tstamps : List TimestampTime := []
  dirNfiles : ℕ := 0
  dirNotFullFlag : Bool := true

def Tstamps.entry (a : FileAttrs) (s : Tstamps) (cfile : List Char) : Tstamps :=
  if a.validFname cfile then
    if s.dirNotFullFlag then
      let tst := a.ftosecs (cfile.drop a.prx.length)
      if 0 < tst.gps then
        let s := { s with dirNfiles := s.dirNfiles + 1 }
        if s.tstamps.length < maxTstamps then { s with tstamps := s.tstamps ++ [tst] }
        else { s with dirNotFullFlag := false }
      else s
    else { s with dirNfiles := s.dirNfiles + 1 }
  else s

/-- All entries. -/
def readTstamps (a : FileAttrs) (names : List (List Char)) : Tstamps :=
  names.foldl (Tstamps.entry a) {}

namespace Filesys

/-- The adjustment of the last file in a range of more than one: its length is what
`frame_length_secs` says, which is the period of the map. -/
def adjustLast (period : ℤ) (cur : RangeBlock) : RangeBlock :=
  if cur.current.maxTime > cur.current.minTime + cur.current.fileSecs then
    if period ≤ 0 then cur else cur.currentMaxTimeSub (cur.current.fileSecs - period)
  else cur

/-- The loop that sets the data ranges, for one file; with it goes `dir_min`. -/
def scanFile (period : ℤ) (s : List RangeBlock × ℤ) (f : TimestampTime) : List RangeBlock × ℤ :=
  match s.1 with
  | [] => if f.dt ≤ 0 then s else ([.new f.dt f.gps], f.gps)
  | cur :: rest =>
    if cur.current.maxTime = f.gps then
      (cur.currentMaxTimeAdd cur.current.fileSecs :: rest, s.2)
    else
      let cur := adjustLast period cur
      if f.dt ≤ 0 then (cur :: rest, s.2)
      else if cur.isFull then (.new f.dt f.gps :: cur :: rest, s.2)
      else (cur.put f.dt f.gps :: rest, s.2)

/-- The ranges of the sorted files of a directory, and `dir_min`. -/
def scanFiles (period : ℤ) (tstamps : List TimestampTime) : List RangeBlock × ℤ :=
  match tstamps.foldl (scanFile period) ([], 0) with
  | ([], dirMin) => ([], dirMin)
  | (cur :: rest, dirMin) => (adjustLast period cur :: rest, dirMin)

/-- `qsort` with `timestamp_time_compare`. -/
def sortTstamps (tstamps : List TimestampTime) : List TimestampTime :=
  tstamps.mergeSort fun i j => decide (i.gps ≤ j.gps)

/-- One directory, whose ranges have been deleted. -/
def scanDir (a : FileAttrs) (d : Dir) (entries : Option (List (List Char))) : Dir :=
  match entries with
  | none => d
  | some names =>
    let s := readTstamps a names
    -- the times of a directory without files are left as they are
    if s.tstamps = [] then d
    else
      match scanFiles a.period (sortTstamps s.tstamps) with
      | ([], _) => {}
      | (cur :: rest, dirMin) =>
        { nfiles := s.dirNfiles
          minTime := dirMin
          maxTime := cur.current.maxTime
          blist := cur :: rest }

/-- The global times, from the directories that have ranges: `global_min`, `global_max` and
`global_max_dir`. -/
def globalTimes (dir : ℕ → Dir) (n : ℕ) : Option ℤ × ℤ × Option ℕ :=
  (List.range n).foldl (fun (globalMin, globalMax, globalMaxDir) i =>
    let d := dir i
    if d.blist = [] then (globalMin, globalMax, globalMaxDir)
    else
      (some (match globalMin with
        | some m => if d.minTime < m then d.minTime else m
        | none => d.minTime),
        if d.maxTime > globalMax then d.maxTime else globalMax,
        if d.maxTime > globalMax then some i else globalMaxDir)) (none, 0, none)

def scan (a : FileAttrs) (disk : ℕ → Option (List (List Char))) (s : Filesys) : Filesys :=
  let dir := fun i =>
    let d := { s.dir i with blist := [] }
    if i < s.numDirs then scanDir a d (disk i) else d
  let (globalMin, globalMax, globalMaxDir) := globalTimes dir s.numDirs
  { s with
    dir
    minTime := globalMin.getD 0
    maxTime := globalMax
    curUpdateDir := globalMaxDir }

end Filesys

end AdvLigoRts.Daqd
