import AdvLigoRts.Lib.TextStream
import Mathlib.Algebra.Order.Ring.Int

/-!
# Numbers for signals between models

`procIpc` of `IPCx.pm` runs once in every build of a model. It reads the IPC parameter file line
by line, looks up every IPCx part of the model, and appends an entry for each sender that is not
there yet, with the next number of its network. What was appended stays when the build fails.
-/

namespace AdvLigoRts.Rcg

open PvLib

/-! ## Patterns -/

/-- `\w`. -/
def isWord (c : Char) : Bool := c.isAlphanum || c == '_'

/-- `[\w\:\-\_]`. -/
def isNameChar (c : Char) : Bool := isWord c || c == ':' || c == '-'

/-- What follows `key` at the start of the line. -/
def after (key line : List Char) : Option (List Char) :=
  if key.isPrefixOf line then some (line.drop key.length) else none

/-- `^key=([…]+)`, for the characters of a class. -/
def field (key : List Char) (p : Char → Bool) (line : List Char) : Option (List Char) :=
  match after key line with
  | none => none
  | some rest => if rest.takeWhile p = [] then none else some (rest.takeWhile p)

/-- `^\[([\w\:\-\_]+)\]`. -/
def header (line : List Char) : Option (List Char) :=
  match line with
  | '[' :: rest =>
    let name := rest.takeWhile isNameChar
    if name ≠ [] ∧ (rest.dropWhile isNameChar).head? = some ']' then some name else none
  | _ => none

/-- `^[A-Z]\d\:`. -/
def ifoAt (s : List Char) : Bool :=
  match s with
  | a :: d :: ':' :: _ => a.isUpper && d.isDigit
  | _ => false

/-- `^\w+([A-Z]\d\:.+)`, with as many characters before the group as possible. -/
def behindWord (name : List Char) : Option (List Char) :=
  ((List.range (name.takeWhile isWord).length).reverse.map fun k => name.drop (k + 1)).find?
    fun s => ifoAt s && 3 < s.length

/-! ## The parameter file -/

/-- `die`, by the message. -/
inductive IpcxError where
  | noCardNumber
  | dataBeforeName
  | typeNotRecognized
  | dataMissing
  | typeMismatch
  | inputCount
  | senderOutputs
  | modelMismatch
  | mechanismNotRecognized
  | numberTooLarge
  | receiversNotFound
deriving DecidableEq, Repr

/-- A row of `ipcxData`. -/
structure IpcxData where
  name : List Char
  type : Option (List Char)
  rate : Option ℕ
  host : Option (List Char)
  num : Option ℕ
  model : Option (List Char)
deriving DecidableEq

/-- The state of the loop over the lines. `data` has the newest row first. -/
structure ParamState where
  skip : Bool
  data : List IpcxData
  typeIndex : Fin 4
  ipcxMaxNum : Fin 4 → ℤ

def ParamState.start : ParamState := ⟨false, [], 0, fun _ => -999⟩

/-- An assignment to the last row. There is none before the first name. -/
def ParamState.setData (s : ParamState) (f : IpcxData → IpcxData) : Except IpcxError ParamState :=
  match s.data with
  | [] => .error .dataBeforeName
  | d :: ds => .ok { s with data := f d :: ds }

def number (digits : List Char) : ℕ := Nat.ofDigitChars 10 digits 0

/-- The index of the network, by the first characters of its name. -/
def typeIndex (typeString : List Char) : Option (Fin 4) :=
  if "SHME".toList.isPrefixOf typeString then some 0
  else if "RFM0".toList.isPrefixOf typeString then some 1
  else if "RFM1".toList.isPrefixOf typeString then some 2
  else if "PCIE".toList.isPrefixOf typeString then some 3
  else none

/-- The body of the loop for a line of an entry. -/
def dataLine (targetHost : List Char) (s : ParamState) (value : List Char) :
    Except IpcxError ParamState :=
  if let some typeString := field "ipcType=".toList isWord value then do
    let s ← s.setData fun d => { d with type := some ('I' :: typeString.take 4) }
    match typeIndex typeString with
    | some t => return { s with typeIndex := t }
    | none => throw .typeNotRecognized
  else if let some digits := field "ipcRate=".toList Char.isDigit value then
    s.setData fun d => { d with rate := some (number digits) }
  else if let some host := field "ipcHost=".toList (fun _ => true) value then
    s.setData fun d => { d with host := some host }
  else if let some digits := field "ipcNum=".toList Char.isDigit value then do
    let s ← s.setData fun d => { d with num := some (number digits) }
    let t := s.typeIndex
    if (number digits : ℤ) > s.ipcxMaxNum t ∧
        (0 < t ∨ (s.data.head?.bind IpcxData.host).getD [] = targetHost) then
      return { s with ipcxMaxNum := Function.update s.ipcxMaxNum t (number digits : ℤ) }
    else return s
  else if let some model := field "ipcModel=".toList (fun _ => true) value then
    s.setData fun d => { d with model := some model }
  else return s

/-- The body of the loop over the lines. -/
def paramLine (targetHost : List Char) (s : ParamState) (value : List Char) :
    Except IpcxError ParamState :=
  if ['#'].isPrefixOf value ∨ "desc=".toList.isPrefixOf value then return s
  else if value = [] ∨ value.any isSpace then return s
  else if "[default]".toList.isPrefixOf value then return { s with skip := true }
  else
    match header value with
    | some name =>
      return { s with skip := false, data := ⟨name, none, none, none, none, none⟩ :: s.data }
    | none => if s.skip then return s else dataLine targetHost s value

/-- The file as `procIpc` reads it: the rows in the order of the file, and the largest number of
each network, or −1. -/
def readParams (targetHost file : List Char) :
    Except IpcxError (List IpcxData × (Fin 4 → ℤ)) := do
  let s ← (getlines file).foldlM (paramLine targetHost) .start
  return (s.data.reverse, fun t => if s.ipcxMaxNum t = -999 then -1 else s.ipcxMaxNum t)

/-! ## The parts of a model -/

/-- An IPCx part. `ground` says that its input is a ground, which makes it a receiver. -/
structure IpcxPart where
  name : List Char
  blockTag : List Char
  card : Option Char
  ground : Bool
  inCnt : ℕ
  outCnt : ℕ

/-- A build of a model. -/
structure Build where
  parts : List IpcxPart
  targetHost : List Char
  skeleton : List Char
  rate : ℕ
  ipcrate : ℕ
  forceShm : Bool
  theTime : List Char
  theTime_line : '\n' ∉ theTime

/-- What a part is given: columns 2 to 5 of `ipcxParts`. -/
structure Assigned where
  rate : ℕ
  host : List Char
  num : ℕ
  model : List Char
deriving DecidableEq

/-- The net type of a part, as in `ipcxParts`. -/
def partType (b : Build) (p : IpcxPart) : Except IpcxError (List Char) :=
  let blockTag := if b.forceShm then "cdsIPCx_SHMEM".toList else p.blockTag
  let commMech := (blockTag.drop 8).take 4
  if commMech = "RFM".toList then
    match p.card with
    | some d => .ok ('I' :: commMech ++ [d])
    | none => .error .noCardNumber
  else .ok ('I' :: commMech)

/-- The signal of a part, `ipcxPartComp`. It is empty if the name has no site and number. -/
def partComp (name : List Char) : List Char :=
  if ifoAt name then name else (behindWord name).getD []

/-- A row of `ipcxData` is not for a part on this host. -/
def otherHost (targetHost type : List Char) (d : IpcxData) : Bool :=
  type = "ISHME".toList ∧ d.host.getD [] ≠ targetHost

def checkFound (b : Build) (p : IpcxPart) (type : List Char) (d : IpcxData) :
    Except IpcxError Assigned :=
  match d.rate, d.host, d.num, d.model with
  | some rate, some host, some num, some model =>
    if d.type ≠ some type then .error .typeMismatch
    else if p.inCnt ≠ 1 then .error .inputCount
    else if p.ground then .ok ⟨rate, host, num, model⟩
    else if p.outCnt ≠ 0 then .error .senderOutputs
    else if type ≠ "ISHME".toList ∧ model ≠ b.skeleton then .error .modelMismatch
    else .ok ⟨rate, host, num, model⟩
  | _, _, _, _ => .error .dataMissing

/-- The loop over `ipcxData` for one part. -/
def findPart (b : Build) (p : IpcxPart) (type : List Char) :
    List IpcxData → Except IpcxError (Option Assigned)
  | [] => if ¬p.ground ∧ p.outCnt ≠ 0 then .error .senderOutputs else .ok none
  | d :: ds =>
    if partComp p.name ≠ d.name then findPart b p type ds
    else if otherHost b.targetHost type d then findPart b p type ds
    else (checkFound b p type d).map some

/-- A row of `ipcxParts`: the part, its net type and what it was given. -/
structure PartRow where
  part : IpcxPart
  type : List Char
  assigned : Option Assigned

/-- The loop over the parts. -/
def findParts (b : Build) (data : List IpcxData) :
    List (IpcxPart × List Char) → Except IpcxError (List PartRow)
  | [] => .ok []
  | (p, type) :: ps => do
    let a ← findPart b p type data
    let rows ← findParts b data ps
    return ⟨p, type, a⟩ :: rows

/-! ## New senders -/

def ipcxType (t : Fin 4) : List Char :=
  match t with
  | 0 => "SHMEM".toList
  | 1 => "RFM0".toList
  | 2 => "RFM1".toList
  | 3 => "PCIE".toList

/-- `MAX_IPC`, the number of blocks in memory. -/
def maxIpc : ℕ := 1024

def maxIpcRfm : ℕ := 1024

/-- The limit for a network. -/
def ipcLimit (t : Fin 4) : ℕ := if t = 1 then maxIpcRfm else maxIpc

/-- An entry that a build adds to the file. -/
structure NewEntry where
  name : List Char
  type : Fin 4
  rate : ℕ
  host : List Char
  model : List Char
  num : ℕ
  theTime : List Char

def NewEntry.lines (e : NewEntry) : List (List Char) :=
  ['[' :: e.name ++ [']'],
    "ipcType=".toList ++ ipcxType e.type,
    "ipcRate=".toList ++ Nat.toDigits 10 e.rate,
    "ipcHost=".toList ++ e.host,
    "ipcModel=".toList ++ e.model,
    "ipcNum=".toList ++ Nat.toDigits 10 e.num,
    "desc=Automatically generated by IPCx.pm on ".toList ++ e.theTime,
    []]

def NewEntry.print (e : NewEntry) : List Char := e.lines.flatMap fun l => l ++ ['\n']

def newTypeIndex (b : Build) (type : List Char) : Option (Fin 4) :=
  if b.forceShm then some 0
  else (List.finRange 4).find? fun k => (type.drop 1).take 4 = (ipcxType k).take 4

def ipcxRate (b : Build) : ℕ := 983040 / b.rate

def newEntry (b : Build) (p : IpcxPart) (t : Fin 4) (num : ℕ) : NewEntry where
  name := (behindWord p.name).getD p.name
  type := t
  rate := if b.ipcrate > 0 then b.ipcrate else ipcxRate b
  host := b.targetHost
  model := b.skeleton
  num := num
  theTime := b.theTime

/-- The loop that adds the senders that were not found. The file has what was printed before a
`die`. -/
def addSenders (b : Build) : List PartRow → (Fin 4 → ℤ) → List Char →
    List Char × Except IpcxError (List (Option Assigned))
  | [], _, file => (file, .ok [])
  | r :: rs, ipcxMaxNum, file =>
    if r.assigned.isSome ∨ r.part.ground then
      let (file, result) := addSenders b rs ipcxMaxNum file
      (file, result.map (r.assigned :: ·))
    else
      match newTypeIndex b r.type with
      | none => (file, .error .mechanismNotRecognized)
      | some t =>
        let num := ipcxMaxNum t + 1
        if num > ipcLimit t then (file, .error .numberTooLarge)
        else
          let (file, result) := addSenders b rs (Function.update ipcxMaxNum t num)
            (file ++ (newEntry b r.part t num.toNat).print)
          (file, result.map (some ⟨ipcxRate b, b.targetHost, num.toNat, b.skeleton⟩ :: ·))

/-- Receivers without a number end the build. -/
def checkReceivers : List (Option Assigned) → Except IpcxError (List Assigned)
  | [] => .ok []
  | none :: _ => .error .receiversNotFound
  | some a :: rest => (checkReceivers rest).map (a :: ·)

/-- The parts of the model with their net types. -/
def typedParts (b : Build) : List IpcxPart → Except IpcxError (List (IpcxPart × List Char))
  | [] => .ok []
  | p :: ps => do
    let type ← partType b p
    let rest ← typedParts b ps
    return (p, type) :: rest

/-- What is read and looked up before the file is opened for output. -/
def lookUp (b : Build) (file : List Char) : Except IpcxError (List PartRow × (Fin 4 → ℤ)) := do
  let parts ← typedParts b b.parts
  let (data, ipcxMaxNum) ← readParams b.targetHost file
  let rows ← findParts b data parts
  return (rows, ipcxMaxNum)

/-- `procIpc`: the file after the build, and what the parts are given if the build did not fail. -/
def procIpc (b : Build) (file : List Char) : List Char × Except IpcxError (List Assigned) :=
  if b.parts.isEmpty then (file, .ok [])
  else
    match lookUp b file with
    | .error e => (file, .error e)
    | .ok (rows, ipcxMaxNum) =>
      match addSenders b rows ipcxMaxNum file with
      | (file, .error e) => (file, .error e)
      | (file, .ok assigned) => (file, checkReceivers assigned)

/-! ## The entries of a network -/

def NewEntry.On (e : NewEntry) (targetHost : List Char) : Prop := 0 < e.type ∨ e.host = targetHost

instance (e : NewEntry) (targetHost : List Char) : Decidable (e.On targetHost) :=
  inferInstanceAs (Decidable (_ ∨ _))

/-- Two entries are of one network. -/
def NewEntry.SameNet (e e' : NewEntry) : Prop := e.type = e'.type ∧ (e.type = 0 → e.host = e'.host)

/-- An entry of another signal, or of another network. -/
def Build.Fresh (b : Build) (p : IpcxPart × Fin 4) (e : NewEntry) : Prop :=
  e.type = p.2 → (p.2 = 0 → e.host = b.targetHost) → e.name ≠ partComp p.1.name

end AdvLigoRts.Rcg
