import ServerlessHarness.Library.Scan
import ServerlessHarness.Library.Trim

/-!
# Reading the head of a request

Under `stickyBySession` the supervisor reads a connection until the bytes contain the end of the
header block, and takes the session id from that block. `readHead` is driven by the events of its
socket and its timer; once it has resolved, its listeners are gone.
-/

set_option autoImplicit false

namespace ServerlessHarness.Supervisor.Head

open Library

/-- CRLFCRLF.
SRCLINE: head.ts:22 -/
def terminator : List UInt8 := [13, 10, 13, 10]

/-- `buf.indexOf(TERMINATOR)`. -/
def indexOfTerminator (buf : List UInt8) : Option ℕ :=
  (firstMatch (strip terminator) buf).map fun found => found.1.length

/-- SRCLINE: head.ts:27-30 -/
def headerBlockEnd (buf : List UInt8) : Option ℕ :=
  (indexOfTerminator buf).map fun i => i + terminator.length

/-! ## The session id -/

/-- `text.split('\r\n')` -/
def splitLines : List Char → List (List Char)
  | [] => [[]]
  | '\r' :: '\n' :: text => [] :: splitLines text
  | c :: text =>
    match splitLines text with
    | [] => [[c]]
    | line :: lines => (c :: line) :: lines

/-- `toLowerCase` of a Latin-1 character. -/
def latinLower (c : Char) : Char :=
  let n := c.toNat
  if (65 ≤ n && n ≤ 90) || (0xC0 ≤ n && n ≤ 0xDE && n ≠ 0xD7) then Char.ofNat (n + 32) else c

/-- The value of a line whose name is that of the session header.
SRCLINE: head.ts:40-44 -/
def sessionValue (line : List Char) : Option (List Char) :=
  if ':' ∉ line then none
  else if (trimEnds (isWhiteSpace ·.toNat) (line.takeWhile (· ≠ ':'))).map latinLower =
      "x-sh-session-id".toList then
    some (trimEnds (isWhiteSpace ·.toNat) (line.dropWhile (· ≠ ':')).tail)
  else none

/-- SRCLINE: head.ts:36-47 -/
def sessionIdFromHead (head : List UInt8) : Option String :=
  let block := match headerBlockEnd head with
    | none => head
    | some stop => head.take stop
  match (splitLines (block.map fun b => Char.ofNat b.toNat)).tail.findSome? sessionValue with
  | none => none
  | some value => if value.isEmpty then none else some (String.ofList value)

/-! ## Reading -/

/-- SRCLINE: head.ts:50 -/
inductive HeadOutcome where
  | complete
  | cap
  | timeout
  | closed
deriving DecidableEq, Repr

/-- SRCLINE: head.ts:52-64 -/
structure HeadRead where
  bytes : List UInt8
  complete : Bool
  outcome : HeadOutcome
deriving DecidableEq, Repr

inductive SocketEvent where
  | data (chunk : List UInt8)
  | ended
  | errored
  | timer
deriving DecidableEq, Repr

/-- The variables of a call of `readHead`; `resolved` is every value with which its promise was
resolved.
SRCLINE: head.ts:81-83, 106 -/
structure Reader where
  chunks : List (List UInt8)
  total : ℕ
  settled : Bool
  carry : List UInt8
  listening : Bool
  resolved : List HeadRead
deriving DecidableEq, Repr

def Reader.start : Reader := ⟨[], 0, false, [], true, []⟩

/-- SRCLINE: head.ts:85-99 -/
def Reader.finish (r : Reader) (outcome : HeadOutcome) : Reader :=
  if r.settled then r
  else
    { r with
      settled := true
      listening := false
      resolved := r.resolved ++ [⟨r.chunks.flatten, outcome = .complete, outcome⟩] }

/-- SRCLINE: head.ts:108-136 -/
def Reader.onData (maxBytes : ℤ) (r : Reader) (chunk : List UInt8) : Reader :=
  let r := { r with chunks := r.chunks ++ [chunk], total := r.total + chunk.length }
  let probe := if r.carry.length = 0 then chunk else r.carry ++ chunk
  if (indexOfTerminator probe).isSome then r.finish .complete
  else
    let r := { r with carry := probe.rtake (terminator.length - 1) }
    if maxBytes ≤ r.total then r.finish .cap else r

/-- SRCLINE: head.ts:137-149 -/
def Reader.onEvent (maxBytes : ℤ) (r : Reader) (e : SocketEvent) : Reader :=
  if r.listening then
    match e with
    | .data chunk => r.onData maxBytes chunk
    | .ended => r.finish .closed
    | .errored => r.finish .closed
    | .timer => r.finish .timeout
  else r

/-- A call of `readHead` after some events.
SRCLINE: head.ts:73-151 -/
def readHead (maxBytes : ℤ) (events : List SocketEvent) : Reader :=
  events.foldl (Reader.onEvent maxBytes) .start

end ServerlessHarness.Supervisor.Head
