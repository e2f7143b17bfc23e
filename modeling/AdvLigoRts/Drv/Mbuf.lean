import AdvLigoRts.Lib.Ledger
import AdvLigoRts.Lib.SlotTable
import Mathlib.Algebra.Order.Ring.Int

/-!
# The shared memory driver

`mbuf.c` keeps up to `MAX_AREAS` memory areas, each under a tag. Files of `/dev/mbuf` and kernel
modules allocate an area by name, which makes it or counts one more user of it, and release it
by name. A file keeps in `private_data` a pointer to the tag it allocated last; that is what
`mmap` maps and what `close` releases.
-/

namespace AdvLigoRts.Drv

open PvLib PvLib.SlotTable

def maxAreas : ℕ := 64

def mbufNameLen : ℕ := 32

def pageSize : ℕ := 4096

def einval : ℤ := 22

def efault : ℤ := 14

/-- A string of at most `MBUF_NAME_LEN` characters, without the NUL at its end. -/
structure Tag where
  chars : List Char
  length_le : chars.length ≤ mbufNameLen
deriving DecidableEq

def Tag.none : Tag := ⟨[], Nat.zero_le _⟩

/-- The entries of the arrays `kmalloc_area`, `mtag`, `usage_cnt` and `kmalloc_area_size` for
one slot. -/
structure Area where
  kmallocArea : ℕ
  mtag : Tag
  usageCnt : ℕ
  kmallocAreaSize : ℕ
deriving DecidableEq

/-- The slot as it is before the first allocation and after the last release. -/
def Area.free : Area := ⟨0, .none, 0, 0⟩

/-- The areas of the driver and its open files. -/
structure Mbuf where
  area : Fin maxAreas → Area
  /-- The files that are open. What `private_data` points to, if it is not 0, is the tag of a
  slot. -/
  privateData : ℕ → Option (Option (Fin maxAreas))

namespace Mbuf

/-- The driver when it is loaded. -/
def init : Mbuf := ⟨fun _ => .free, fun _ => none⟩

/-- `if (file) file->private_data = …`. -/
def setPrivateData (m : Mbuf) (file : Option ℕ) (p : Option (Fin maxAreas)) : Mbuf :=
  match file with
  | none => m
  | some f => { m with privateData := Function.update m.privateData f (some p) }

def setArea (m : Mbuf) (i : Fin maxAreas) (a : Area) : Mbuf :=
  { m with area := Function.update m.area i a }

/-- The first slot for which `strcmp` finds its tag equal to the name. -/
def findTag (m : Mbuf) (name : Tag) : Option (Fin maxAreas) :=
  lookup (fun i => (m.area i).mtag) name

/-- The first slot without an area. -/
def findFree (m : Mbuf) : Option (Fin maxAreas) :=
  lookup (fun i => (m.area i).kmallocArea) 0

/-- `usage_cnt[i]++`. -/
def usageUp (m : Mbuf) (i : Fin maxAreas) : Mbuf :=
  m.setArea i { m.area i with usageCnt := ((m.area i).usageCnt + 1) % 2 ^ 32 }

/-- `usage_cnt[i]--`, which wraps at 0. -/
def usageDown (m : Mbuf) (i : Fin maxAreas) : Mbuf :=
  m.setArea i { m.area i with
    usageCnt := if (m.area i).usageCnt = 0 then 2 ^ 32 - 1 else (m.area i).usageCnt - 1 }

def mbufReleaseArea (m : Mbuf) (name : Tag) (file : Option ℕ) : Mbuf × ℤ :=
  match m.findTag name with
  | none => (m, -1)
  | some i =>
    let m := m.usageDown i
    if (m.area i).usageCnt ≤ 0 then
      ((m.setPrivateData file none).setArea i .free, 0)
    else (m, 0)

/-- What both allocating functions do with a free slot. -/
def newArea (m : Mbuf) (name : Tag) (size : ℤ) (page : Fin (2 ^ 52)) :
    Mbuf × Option (Fin maxAreas) :=
  match m.findFree with
  | none => (m, none)
  | some i =>
    let kmallocArea := page.val * pageSize
    if kmallocArea = 0 then (m, none)
    else (m.setArea i ⟨kmallocArea, name, 1, (size % 2 ^ 32).toNat⟩, some i)

/-- A successful allocation sets the pointer of the file. -/
def pointTo (file : Option ℕ) : Mbuf × Option (Fin maxAreas) → Mbuf × Option (Fin maxAreas)
  | (m, none) => (m, none)
  | (m, some i) => (m.setPrivateData file (some i), some i)

/-- `mbuf_allocate_area`. Returns the slot, or `none` for −1. -/
def mbufAllocateArea (m : Mbuf) (name : Tag) (size : ℤ) (file : Option ℕ) (page : Fin (2 ^ 52)) :
    Mbuf × Option (Fin maxAreas) :=
  match m.findTag name with
  | some i => pointTo file (m.usageUp i, some i)
  | none => pointTo file (m.newArea name size page)

/-- `_mbuf_allocate_area_safe`. -/
def allocateAreaSafe (m : Mbuf) (name : Tag) (size : ℤ) (page : Fin (2 ^ 52)) :
    Mbuf × Option (Fin maxAreas) :=
  match m.findTag name with
  | some i =>
    -- the comparison is one of unsigned numbers
    if (m.area i).kmallocAreaSize < (size % 2 ^ 32).toNat then (m, none)
    else (m.usageUp i, some i)
  | none => m.newArea name size page

def mbufAllocateAreaSafe (m : Mbuf) (name : Tag) (size : ℤ) (file : Option ℕ)
    (page : Fin (2 ^ 52)) : Mbuf × Option (Fin maxAreas) :=
  if size ≤ 0 then (m, none) else pointTo file (m.allocateAreaSafe name size page)

/-! ## The methods of the character device -/

/-- The file method `release`, on the last close. The file is gone then. -/
def mbufRelease (m : Mbuf) (f : ℕ) : Mbuf :=
  let m :=
    match m.privateData f with
    | some (some p) => (m.mbufReleaseArea (m.area p).mtag (some f)).1
    | _ => m
  { m with privateData := Function.update m.privateData f none }

/-- The range of user addresses that is to be mapped, and the offset in pages. -/
structure Vma where
  vmStart : ℕ
  vmEnd : ℕ
  vmPgoff : ℕ
  lt : vmStart < vmEnd
  start_dvd : pageSize ∣ vmStart
  end_dvd : pageSize ∣ vmEnd
  end_lt : vmEnd < 2 ^ 63

def Vma.length (vma : Vma) : ℕ := vma.vmEnd - vma.vmStart

/-- `rvmmap`: an error, or the first of the kernel addresses whose pages it maps; there are
`memsize` of them. -/
def rvmmap (mem memsize : ℕ) (vma : Vma) : Except ℤ ℕ :=
  if vma.vmPgoff > (2 ^ 64 - 1) / pageSize then .error (-efault)
  else
    let offset := vma.vmPgoff * pageSize
    let size := vma.vmEnd - vma.vmStart
    if (size + offset) % 2 ^ 64 > memsize then .error (-efault)
    else
      let pos := (mem + offset) % 2 ^ 64
      if pos % pageSize ≠ 0 ∨ vma.vmStart % pageSize ≠ 0 ∨ size % pageSize ≠ 0 then
        .error (-efault)
      else .ok pos

def mmapKmem (m : Mbuf) (i : Fin maxAreas) (vma : Vma) : Except ℤ ℕ :=
  if (m.area i).kmallocAreaSize < vma.length then .error (-einval)
  else rvmmap (m.area i).kmallocArea vma.length vma

def mbufMmap (m : Mbuf) (f : ℕ) (vma : Vma) : Except ℤ ℕ :=
  match m.privateData f with
  | some (some p) =>
    match m.findTag (m.area p).mtag with
    | some i => m.mmapKmem i vma
    | none => .error (-einval)
  | _ => .error (-einval)

/-- The size of a request, made a multiple of the page size and passed as an `int`. -/
def requestSize (size : Fin (2 ^ 64)) : ℤ :=
  let mod := size.val % pageSize
  let size := if mod ≠ 0 then (size.val + (pageSize - mod)) % 2 ^ 64 else size.val
  (size : ℤ).bmod (2 ^ 32)

/-- `mbuf_ioctl` with `IOCTL_MBUF_DEALLOCATE`. -/
def ioctlDeallocate (m : Mbuf) (f : ℕ) (name : Tag) : Mbuf × ℤ :=
  match m.mbufReleaseArea name (some f) with
  | (m, res) => if res ≥ 0 then (m, 0) else (m, -einval)

end Mbuf

/-! ## Runs -/

/-- Those who hold areas. -/
inductive Holder where
  | file (f : ℕ)
  | module (k : ℕ)
deriving DecidableEq

/-- The calls of the driver. -/
inductive MbufEvent where
  | opens (f : ℕ)
  | allocates (f : ℕ) (name : Tag) (size : Fin (2 ^ 64)) (page : Fin (2 ^ 52))
  | deallocates (f : ℕ) (name : Tag)
  | mmaps (f : ℕ) (vma : Mbuf.Vma)
  | closes (f : ℕ)
  | moduleAllocates (k : ℕ) (name : Tag) (size : ℤ) (page : Fin (2 ^ 52))
  | moduleAllocatesSafe (k : ℕ) (name : Tag) (size : ℤ) (page : Fin (2 ^ 52))
  | moduleReleases (k : ℕ) (name : Tag)

/-- The driver with what was done so far: all successful allocations, and those of them that
their holder did not release, the newest first. -/
structure MbufRun where
  mbuf : Mbuf
  allocated : List (Holder × Fin maxAreas)
  ledger : List (Holder × Fin maxAreas)

namespace MbufRun

def init : MbufRun := ⟨.init, [], []⟩

/-- The result of a call that allocates. -/
def took (w : MbufRun) (h : Holder) (r : Mbuf × Option (Fin maxAreas)) : MbufRun :=
  match r with
  | (m, some i) => ⟨m, (h, i) :: w.allocated, (h, i) :: w.ledger⟩
  | (m, none) => ⟨m, w.allocated, w.ledger⟩

/-- The result of a call that releases a name. -/
def gaveBack (w : MbufRun) (h : Holder) (name : Tag) (m : Mbuf) : MbufRun :=
  match w.mbuf.findTag name with
  | some i => ⟨m, w.allocated, w.ledger.erase (h, i)⟩
  | none => ⟨m, w.allocated, w.ledger⟩

def isOpen (w : MbufRun) (f : ℕ) : Bool := (w.mbuf.privateData f).isSome

/-- One call. Only a file that is not open can be opened, and only an open one used. -/
def step (w : MbufRun) : MbufEvent → MbufRun
  | .opens f =>
    if w.isOpen f then w
    else
      { w with
        mbuf := { w.mbuf with privateData := Function.update w.mbuf.privateData f (some none) } }
  | .allocates f name size page =>
    if w.isOpen f then
      w.took (.file f) (w.mbuf.mbufAllocateArea name (Mbuf.requestSize size) (some f) page)
    else w
  | .deallocates f name =>
    if w.isOpen f then w.gaveBack (.file f) name (w.mbuf.ioctlDeallocate f name).1 else w
  | .mmaps _ _ => w
  | .closes f =>
    if w.isOpen f then ⟨w.mbuf.mbufRelease f, w.allocated, Ledger.leave w.ledger (.file f)⟩ else w
  | .moduleAllocates k name size page =>
    w.took (.module k) (w.mbuf.mbufAllocateArea name size none page)
  | .moduleAllocatesSafe k name size page =>
    w.took (.module k) (w.mbuf.mbufAllocateAreaSafe name size none page)
  | .moduleReleases k name =>
    w.gaveBack (.module k) name (w.mbuf.mbufReleaseArea name none).1

end MbufRun

end AdvLigoRts.Drv
