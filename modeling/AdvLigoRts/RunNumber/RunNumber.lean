import AdvLigoRts.Lib.Machine
import AdvLigoRts.Lib.TextStream
import Mathlib.Algebra.Group.Int.Defs

/-!
# The run number server

`run_number::get_number` (run_number.hh) on the `file_backing_store` of run_number.cc, behind
`connection::process_request` of run_number_server.hh. The database file is its text: every
save appends a line `number hash timestamp`, the hash in hexadecimal, and a starting server
takes its state from the last line it can read.

A save may reach the file, throw, or be lost: the stream's error flags are never looked at,
so that a failed open or a short write goes unnoticed.
-/

namespace AdvLigoRts.RunNumber

open PvLib

abbrev Hash := List UInt8

/-- The state of the server, as in its file. -/
@[ext]
structure RunNumberState where
  value : ℤ := 0
  hash : Hash := []
deriving DecidableEq, Repr

/-! ## The hexadecimal form of a hash -/

def hexCharToNibble (ch : Char) : ℕ :=
  if '0' ≤ ch ∧ ch ≤ '9' then ch.toNat - '0'.toNat
  else if 'a' ≤ ch ∧ ch ≤ 'f' then ch.toNat - 'a'.toNat
  else if 'A' ≤ ch ∧ ch ≤ 'F' then ch.toNat - 'A'.toNat
  else 0

def hexToBinStr : List Char → Hash
  | hi :: lo :: input =>
    UInt8.ofNat ((hexCharToNibble hi <<< 4) ||| (hexCharToNibble lo &&& 0xf)) :: hexToBinStr input
  | _ => []

/-- The table `lookup` of `save_state`. -/
def lookup (i : ℕ) : Char :=
  ['0', '1', '2', '3', '4', '5', '6', '7', '8', '9', 'a', 'b', 'c', 'd', 'e', 'f'].getD i '0'

/-- The `hex_val` of `save_state`. -/
def binStrToHex (hash : Hash) : List Char :=
  hash.flatMap fun b => [lookup (b.toNat / 16 % 16), lookup (b.toNat % 16)]

/-! ## `file_backing_store` -/

/-- The text `strftime` makes of the time, or the seconds it falls back to: one line. -/
structure TimeStamp where
  text : List Char
  one_line : '\n' ∉ text

/-- The body of the loop of `get_state`. -/
def readLine (results : RunNumberState) (buffer : List Char) : RunNumberState :=
  match takeInt buffer with
  | none => results
  | some (value, rest) =>
    if -2 ^ 31 ≤ value ∧ value < 2 ^ 31 then
      match takeWord rest with
      | none => results
      | some (tmp, _) => { value := value, hash := hexToBinStr tmp }
    else results

/-- `file_backing_store::get_state`, from the text of the file. -/
def getState (file : List Char) : RunNumberState := (getlines file).foldl readLine {}

/-- The line that `file_backing_store::save_state` writes, without its newline. -/
def stateLine (state : RunNumberState) (timeStamp : TimeStamp) : List Char :=
  printInt state.value ++ ' ' :: binStrToHex state.hash ++ ' ' :: timeStamp.text

/-- `file_backing_store::save_state`, when all that it writes reaches the file. -/
def saveState (file : List Char) (save : RunNumberState × TimeStamp) : List Char :=
  file ++ stateLine save.1 save.2 ++ ['\n']

/-- A state that can be saved: an `int` and a hash that is not empty. -/
def Savable (state : RunNumberState) : Prop :=
  (-2 ^ 31 ≤ state.value ∧ state.value < 2 ^ 31) ∧ state.hash ≠ []

instance (state : RunNumberState) : Decidable (Savable state) :=
  inferInstanceAs (Decidable (_ ∧ _))

/-- The last of the saved states; before the first save, the number is 0 and there is no hash. -/
def lastSaved (history : List (RunNumberState × TimeStamp)) : RunNumberState :=
  (history.getLast?.map Prod.fst).getD {}

theorem lastSaved_append (history : List (RunNumberState × TimeStamp)) (state : RunNumberState)
    (ts : TimeStamp) : lastSaved (history ++ [(state, ts)]) = state := by
  simp [lastSaved]

/-- What becomes of a call of `save_state`. -/
inductive SaveOutcome
  | saved (timeStamp : TimeStamp)
  | throws
  /-- Only the first `written` characters reach the file, and nobody is told. -/
  | lost (timeStamp : TimeStamp) (written : ℕ)

/-! ## The server -/

/-- `daqd_run_number_req_v1_t`. -/
structure Request where
  version : ℤ
  hashSize : ℤ
  hash : Hash
  hash_size : hash.length = 64

/-- The database file and the `_state` of the server that runs on it. -/
structure Server where
  file : List Char
  state : RunNumberState

inductive Event
  /-- A request with `hash` is answered; `saved` tells whether its state reached the file. -/
  | answered (hash : Hash) (number : ℤ) (saved : Bool)
  /-- A malformed request is answered with 0. -/
  | invalid
  | threw (hash : Hash)
  | restarted
deriving DecidableEq, Repr

inductive Act
  | request (req : Request) (outcome : SaveOutcome)
  | restart

/-- An `int` that is one more, with two's complement where it overflows. -/
def succInt (value : ℤ) : ℤ := (value + 1 + 2 ^ 31) % 2 ^ 32 - 2 ^ 31

namespace Server

/-- The constructor of `run_number` on the file. -/
def start (file : List Char) : Server where
  file := file
  state := getState file

def getNumber (s : Server) (hash : Hash) (outcome : SaveOutcome) : Event × Server :=
  if hash ≠ s.state.hash then
    let newState : RunNumberState := { value := succInt s.state.value, hash := hash }
    match outcome with
    | .saved ts =>
      (.answered hash newState.value true,
        { file := s.file ++ stateLine newState ts ++ ['\n'], state := newState })
    | .throws => (.threw hash, s)
    | .lost ts written =>
      (.answered hash newState.value false,
        { file := s.file ++ (stateLine newState ts ++ ['\n']).take written, state := newState })
  else (.answered hash s.state.value false, s)

/-- `connection::process_request`, and the restart of the server on its file. -/
def step (s : Server) : Act → Option (Event × Server)
  | .request req outcome =>
    if req.version = 1 ∧ 0 < req.hashSize ∧ req.hashSize ≤ 64 then
      some (s.getNumber (req.hash.take req.hashSize.toNat) outcome)
    else some (.invalid, s)
  | .restart => some (.restarted, start s.file)

end Server

/-- The numbers of a history identify configurations: an answer is the number before it when the
hash is the one last saved, and one more otherwise. -/
def Identifies (number : ℤ) (hash : Hash) : List Event → Prop
  | [] => True
  | .answered h n saved :: tr =>
    n = (if h = hash then number else number + 1) ∧ number ≤ n ∧
      Identifies n (if saved then h else hash) tr
  | .threw _ :: tr => Identifies number hash tr
  | .invalid :: tr => Identifies number hash tr
  | .restarted :: tr => Identifies number hash tr

instance decidableIdentifies (number : ℤ) (hash : Hash) :
    (tr : List Event) → Decidable (Identifies number hash tr)
  | [] => .isTrue trivial
  | .answered h n saved :: tr =>
    have := decidableIdentifies n (if saved then h else hash) tr
    inferInstanceAs (Decidable (_ ∧ _ ∧ _))
  | .threw _ :: tr => decidableIdentifies number hash tr
  | .invalid :: tr => decidableIdentifies number hash tr
  | .restarted :: tr => decidableIdentifies number hash tr

/-- The hexadecimal form of the hash has decimal digits only. -/
def DecimalHex (hash : Hash) : Prop := ∀ b ∈ hash, b.toNat / 16 ≤ 9 ∧ b.toNat % 16 ≤ 9

instance (hash : Hash) : Decidable (DecimalHex hash) :=
  inferInstanceAs (Decidable (∀ b ∈ hash, _ ∧ _))

/-- When the server does what it should: a number that has to be raised can be, its save is not
lost unnoticed, and at a restart the hash in memory has no hexadecimal letter. -/
def Ok (s : Server) : Act → Prop
  | .request req outcome =>
    req.version = 1 ∧ 0 < req.hashSize ∧ req.hashSize ≤ 64 →
    req.hash.take req.hashSize.toNat ≠ s.state.hash →
      s.state.value < 2 ^ 31 - 1 ∧
      match outcome with
      | .lost _ _ => False
      | _ => True
  | .restart => DecimalHex s.state.hash

instance decidableOk (s : Server) : (act : Act) → Decidable (Ok s act)
  | .request _ (.saved _) => inferInstanceAs (Decidable (_ → _ → _ ∧ True))
  | .request _ .throws => inferInstanceAs (Decidable (_ → _ → _ ∧ True))
  | .request _ (.lost _ _) => inferInstanceAs (Decidable (_ → _ → _ ∧ False))
  | .restart => inferInstanceAs (Decidable (DecimalHex _))

end AdvLigoRts.RunNumber
