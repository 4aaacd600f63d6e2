import ServerlessHarness.Model.SessionLog.Backend

/-!
# The write-behind buffer

`BufferedRedisBackend`: `append` puts the entry on a chain of promises and returns; the chain
runs one `RedisSessionBackend.append` after the other. A rejection is caught and kept in
`lastError`, and the chain goes on. `flush` waits for the chain as it is when it is called,
then throws `lastError` and clears it, or returns.

A rejection is observed when its `catch` handler runs, which is the step `settle`; the
continuation of a `flush` is a later step, so that other callers can run in between.
-/

set_option autoImplicit false

namespace ServerlessHarness.SessionLog

open Library

variable {E ε : Type}

/-- What the buffer gets from outside: the digest and the discriminant of an entry, whether
an error counts as true in a condition, and the session. -/
structure Params (E ε : Type) where
  digest : E → String
  typeOf : E → String
  truthy : ε → Bool
  sid : String

/-- An append on the chain whose promise has settled, with the error it was rejected with. -/
structure Settled (E ε : Type) where
  call : AppendCall E
  error : Option ε
deriving DecidableEq, Repr

/-- How far a call of `flush` got. It waits for the first `n` appends; `threw` keeps the error
and how many appends had settled. -/
inductive FlushPc (ε : Type) where
  | awaiting (n : Nat)
  | returned (n : Nat)
  | threw (n settled : Nat) (error : ε)
deriving DecidableEq, Repr

/-- The buffer of one session: the settled part of its chain, the append that runs, the
entries that wait for it, `lastError`, and the calls of `flush`.
SRCLINE: buffered-redis-backend.ts:12-16 -/
structure Buffered (E ε : Type) where
  log : Log E
  settled : List (Settled E ε)
  running : Option (AppendCall E)
  waiting : List E
  lastError : Option ε
  flushes : List (FlushPc ε)

/-- What can happen next: a call of `append` or `flush`, or the chain's next append starts, has
a command executed or lost, or settles; or a `flush` continues. -/
inductive BufferedAction (E ε : Type) where
  | append (entry : E)
  | start
  | command (fate : Fate)
  | settle (error : ε)
  | flush
  | resume (j : Nat)
deriving DecidableEq, Repr

/-- The number of entries appended so far. -/
def Buffered.length (s : Buffered E ε) : Nat :=
  s.settled.length + s.running.toList.length + s.waiting.length

/-- The promise of the running append settles. It is fulfilled when the `XADD` was answered
with its id, and rejected with `error` otherwise.
SRCLINE: buffered-redis-backend.ts:20-24 -/
def Buffered.settle (s : Buffered E ε) (c : AppendCall E) (error : ε) : Option (Buffered E ε) :=
  match c.pc with
  | .incr | .xadd _ => none
  | .added _ true => some { s with settled := s.settled ++ [⟨c, none⟩], running := none }
  | .added _ false | .rejected _ | .lost =>
    some { s with
      settled := s.settled ++ [⟨c, some error⟩]
      running := none
      lastError := some error }

/-- A `flush` that waited for `n` appends continues.
SRCLINE: buffered-redis-backend.ts:28-35 -/
def Buffered.resume (truthy : ε → Bool) (s : Buffered E ε) (j n : Nat) : Buffered E ε :=
  match s.lastError.filter truthy with
  | some error =>
    { s with
      lastError := none
      flushes := s.flushes.set j (.threw n s.settled.length error) }
  | none => { s with flushes := s.flushes.set j (.returned n) }

/-- One step of the buffer. -/
def bufferedStep (P : Params E ε) (s : Buffered E ε) : BufferedAction E ε → Option (Buffered E ε)
  | .append entry => some { s with waiting := s.waiting ++ [entry] }
  | .start =>
    match s.running, s.waiting with
    | none, entry :: rest =>
      some { s with running := some ⟨entry, P.typeOf entry, .incr⟩, waiting := rest }
    | _, _ => none
  | .command fate =>
    s.running.bind fun c => (appendStep P.digest P.sid s.log c fate).map fun r =>
      { s with log := r.1, running := some { c with pc := r.2 } }
  | .settle error => s.running.bind fun c => s.settle c error
  | .flush => some { s with flushes := s.flushes ++ [.awaiting s.length] }
  | .resume j =>
    match s.flushes[j]? with
    | some (.awaiting n) => if n ≤ s.settled.length then some (s.resume P.truthy j n) else none
    | _ => none

/-- A buffer on a session that was never written to. -/
def Buffered.empty : Buffered E ε := ⟨⟨0, .empty⟩, [], none, [], none, []⟩

/-- Every run of one buffer. -/
def bufferedSystem (P : Params E ε) : TransitionSystem (Buffered E ε) :=
  .ofStep (· = Buffered.empty) (bufferedStep P)

/-- The runs of one buffer whose actions all meet `G`. -/
def guardedBuffer (P : Params E ε) (G : Buffered E ε → BufferedAction E ε → Bool) :
    TransitionSystem (Buffered E ε) :=
  .ofStep (· = Buffered.empty) (guarded G (bufferedStep P))

theorem exists_reachable_of_buffered (P : Params E ε) (as : List (BufferedAction E ε))
    (Q : Buffered E ε → Bool) (h : (runActions (bufferedStep P) .empty as).map Q = some true) :
    ∃ s, Reachable (bufferedSystem P) s ∧ Q s = true := by
  refine exists_reachable_of_runActions ?_ as Q h
  rfl

theorem exists_reachable_of_guarded (P : Params E ε)
    (G : Buffered E ε → BufferedAction E ε → Bool) (as : List (BufferedAction E ε))
    (Q : Buffered E ε → Bool)
    (h : (runActions (guarded G (bufferedStep P)) .empty as).map Q = some true) :
    ∃ s, Reachable (guardedBuffer P G) s ∧ Q s = true := by
  refine exists_reachable_of_runActions ?_ as Q h
  rfl

/-! ## What is durable -/

/-- The record under which an append is in the log. -/
def AppendPc.durable : AppendPc E → Option (StoredEntry E)
  | .added st _ => some st
  | _ => none

/-- The appended entries in order, each with its record in the log. -/
def Buffered.records (s : Buffered E ε) : List (E × Option (StoredEntry E)) :=
  (s.settled.map Settled.call ++ s.running.toList).map (fun c => (c.entry, c.pc.durable)) ++
    s.waiting.map fun e => (e, none)

/-- The entries in the order of their `append` calls. -/
def Buffered.appended (s : Buffered E ε) : List E := s.records.map Prod.fst

/-- The entries in the session's stream. -/
def Buffered.durable (s : Buffered E ε) : List E := s.log.stream.entries.map fun e => e.2.entry

/-- Whether the entry of the append with index `i` is durable. -/
def Buffered.isDurable (s : Buffered E ε) (i : Nat) : Bool := (s.records[i]?.bind Prod.snd).isSome

end ServerlessHarness.SessionLog
