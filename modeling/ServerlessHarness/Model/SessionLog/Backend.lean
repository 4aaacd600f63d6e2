import ServerlessHarness.Library.Stream
import ServerlessHarness.Library.Transition

/-!
# Appending to a session's log

`RedisSessionBackend.append`: `INCR` on the session's counter gives the position, `XADD`
writes the entry under the id `<position>-0`. The two commands are separate, so appends of
one session can interleave between them. `logSystem` is every interleaving of any number of
append calls on one session; each command is executed once, or is lost on the way to the
server, and the reply to an executed one can be lost as well.
-/

set_option autoImplicit false

namespace ServerlessHarness.SessionLog

open Library

variable {E : Type}

/-- SRCLINE: entry.ts:8-15 -/
structure StoredEntry (E : Type) where
  position : Nat
  sessionId : String
  piType : String
  entry : E
  contentSha256 : String
  timestamp : Int
deriving DecidableEq, Repr

/-- `digest` is the SHA-256, in hexadecimal, of the entry's JSON text.
SRCLINE: entry.ts:17-33 -/
def makeStoredEntry (digest : E → String) (position : Nat) (sessionId piType : String) (entry : E)
    (timestamp : Int) : StoredEntry E where
  position := position
  sessionId := sessionId
  piType := piType
  entry := entry
  contentSha256 := digest entry
  timestamp := timestamp

/-- The fields of an entry of the session's stream. -/
structure Fields (E : Type) where
  position : Nat
  timestamp : Int
  piType : String
  entry : E
  contentSha256 : String
deriving DecidableEq, Repr

/-- The id and the fields under which an entry is added.
SRCLINE: redis-backend.ts:116-122 -/
def StoredEntry.row (st : StoredEntry E) : StreamId × Fields E :=
  (.mk st.position 0, ⟨st.position, st.timestamp, st.piType, st.entry, st.contentSha256⟩)

/-- What the server holds for one session: the counter at `session:<sid>:seq` and the stream
at `session:<sid>`. -/
structure Log (E : Type) where
  seq : Nat
  stream : Stream (Fields E)

/-- How far an append got: its `INCR` or its `XADD` is on the way, or it is over. `added` and
`rejected` are the server's answers to the `XADD`, and `replied` says whether the answer
arrived; `lost` is an append one of whose commands never reached the server, or whose `INCR`
was executed and never answered. -/
inductive AppendPc (E : Type) where
  | incr
  | xadd (stored : StoredEntry E)
  | added (stored : StoredEntry E) (replied : Bool)
  | rejected (stored : StoredEntry E)
  | lost
deriving DecidableEq, Repr

/-- A call of `append`. -/
structure AppendCall (E : Type) where
  entry : E
  piType : String
  pc : AppendPc E
deriving DecidableEq, Repr

/-- What happens to a command: the server executes it and the client hears of it, at the time
`now`, or does not, or the command is lost. -/
inductive Fate where
  | executed (replied : Bool) (now : Int)
  | dropped
deriving DecidableEq, Repr

/-- One command of `append`.
SRCLINE: redis-backend.ts:101-124 -/
def appendStep (digest : E → String) (sid : String) (log : Log E) (c : AppendCall E) (fate : Fate) :
    Option (Log E × AppendPc E) :=
  match c.pc, fate with
  | .incr, .executed replied now =>
    let position := log.seq + 1
    let stored := makeStoredEntry digest position sid c.piType c.entry now
    some ({ log with seq := position }, if replied then .xadd stored else .lost)
  | .xadd stored, .executed replied _ =>
    match log.stream.xadd stored.row.1 stored.row.2 with
    | some stream => some ({ log with stream := stream }, .added stored replied)
    | none => some (log, .rejected stored)
  | .incr, .dropped => some (log, .lost)
  | .xadd _, .dropped => some (log, .lost)
  | _, _ => none

/-! ## Concurrent appends on one session -/

/-- A session's log and the append calls made on it. -/
structure LogSys (E : Type) where
  log : Log E
  calls : List (AppendCall E)

/-- A new call, or a command of the call with index `i`. -/
inductive LogAction (E : Type) where
  | call (entry : E) (piType : String)
  | command (i : Nat) (fate : Fate)
deriving DecidableEq, Repr

/-- One step of the appends on one session. -/
def logStep (digest : E → String) (sid : String) (s : LogSys E) : LogAction E → Option (LogSys E)
  | .call entry piType => some { s with calls := s.calls ++ [⟨entry, piType, .incr⟩] }
  | .command i fate =>
    match s.calls[i]? with
    | none => none
    | some c =>
      (appendStep digest sid s.log c fate).map fun r => ⟨r.1, s.calls.set i { c with pc := r.2 }⟩

/-- A session that was never written to. -/
def LogSys.empty : LogSys E := ⟨⟨0, .empty⟩, []⟩

/-- Every interleaving of append calls on the session `sid`. -/
def logSystem (digest : E → String) (sid : String) : TransitionSystem (LogSys E) :=
  .ofStep (· = LogSys.empty) (logStep digest sid)

theorem exists_reachable_of_log (digest : E → String) (sid : String) (as : List (LogAction E))
    (P : LogSys E → Bool) (h : (runActions (logStep digest sid) .empty as).map P = some true) :
    ∃ s, Reachable (logSystem digest sid) s ∧ P s = true := by
  refine exists_reachable_of_runActions ?_ as P h
  rfl

/-- A step keeps to a single writer: an `INCR` is executed only while no other append is
between its `INCR` and its `XADD`. -/
def SingleWriter (s t : LogSys E) : Prop :=
  t.log.seq ≠ s.log.seq → ∀ c ∈ s.calls, ∀ stored, c.pc ≠ .xadd stored

/-- The runs in which one writer at a time appends, as the backend asks of its callers.
SRCLINE: redis-backend.ts:10-13 -/
def singleWriterSystem (digest : E → String) (sid : String) : TransitionSystem (LogSys E) :=
  (logSystem digest sid).restrict SingleWriter

end ServerlessHarness.SessionLog
