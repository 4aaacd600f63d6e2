import ServerlessHarness.Library.Transition
import ServerlessHarness.Model.RemoteWorker.Cache
import ServerlessHarness.Model.RemoteWorker.Runner

/-!
# The session loop of the worker

`Serve` runs one connection with several goroutines: the receive loop, which decides the fate of
each exec; a pool, each member of which runs one exec at a time; a heartbeat; and a sender, the
only one that writes to the stream. They share the registry of execs in flight, the queue of the
pool and the outbound channel. A step is what one goroutine does between two operations on
something shared. The cache outlives the connections.

A message is a pointer to an `Exec`: it has an identity, which is its number among those received
on the connection. `received` records what became of each, `lost` that a frame for it was given up,
`origin` for which message a frame was queued, and `discarded` the frames that the sender drained
after a failure: the code reads none of these.
-/

set_option autoImplicit false

namespace ServerlessHarness.RemoteWorker

open Library Protocol

/-- SRCLINE: loop.go:20 -/
def queueCap : ℕ := 64

/-- SRCLINE: loop.go:39 -/
def terminalReserve : ℕ := queueCap / 4

/-- SRCLINE: loop.go:41 -/
def defaultConcurrency : ℕ := 4

/-- SRCLINE: loop.go:54-61 -/
structure Config where
  sandboxId : String
  capabilities : List String
  maxConcurrent : Int

/-- SRCLINE: loop.go:98-106 -/
def Config.concurrency (cfg : Config) : ℕ :=
  if cfg.maxConcurrent ≤ 0 then defaultConcurrency else cfg.maxConcurrent.toNat

/-! ## State -/

structure Message where
  number : ℕ
  exec : Exec
deriving DecidableEq

/-- SRCLINE: loop.go:78-81 -/
structure OutFrame where
  frame : Frame
  reserved : Bool
  origin : Option ℕ
deriving DecidableEq

/-- The exec that a slot was made for, of which the source keeps the fingerprint only, and whether
its context was cancelled.
SRCLINE: loop.go:110-118 -/
structure Slot (Digest : Type) where
  fp : Digest
  cancelled : Bool
  message : Message

/-- Where `enqueue` is: at the attempt to get a chunk slot, waiting for one, at the attempt to send
on the channel with a slot held, or waiting for that.
SRCLINE: loop.go:357-386 -/
inductive Stage where
  | acquire
  | waitSlot
  | push
  | waitPush
deriving DecidableEq

/-- A call of `Run` that goes on: the calls of the sink to come, the result to come, and
`frameSink.dropped`. -/
structure Running where
  calls : List SinkCall
  result : RunResult
  dropped : ℕ

/-- What a member of the pool does when its frame is queued or given up. -/
inductive After where
  | run (r : Running)
  | finish

/-- SRCLINE: loop.go:440-455, 681-736 -/
inductive PoolPc where
  | idle
  | dequeued (m : Message)
  | admitted (m : Message) (slot : ℕ)
  | running (m : Message) (r : Running)
  | enqueueing (m : Message) (stage : Stage) (frame : Frame) (after : After)
  | finishing (m : Message)
  | exited

/-- SRCLINE: loop.go:418-431 -/
inductive BeatPc where
  | waiting
  | enqueueing (stage : Stage)
  | exited
deriving DecidableEq

/-- SRCLINE: loop.go:320-343 -/
inductive SenderPc where
  | ready
  | taken (out : OutFrame)
  | holding (out : OutFrame)
  | exited
deriving DecidableEq

/-- The receive loop, and the rest of `Serve` after it: before `cancelConn`, before the queue is
closed, at `wg.Wait`, at `wgSender.Wait`.
SRCLINE: loop.go:457-498 -/
inductive RecvPc where
  | reading
  | replying (m : Message) (frame : Frame)
  | admitting (m : Message)
  | stopping
  | cancelled
  | waiting
  | draining
  | returned
deriving DecidableEq

/-- What became of an exec: coalesced into the one with this number, refused as a collision,
answered from the cache (with the exec that the entry was put for), admitted, refused as the queue
was full, not run as its context was done, or run. -/
inductive Fate where
  | coalesced (other : ℕ)
  | collided
  | replayed (source : Exec) (frame : Frame)
  | admitted
  | refused
  | skipped
  | ran (run : Run)
deriving DecidableEq

structure Received where
  exec : Exec
  fate : Fate
  lost : Bool
deriving DecidableEq

/-- One connection. `done` is whether `connCtx` is done, and `chunkSlots` how many elements the
channel of that name has. -/
structure Conn (Digest : Type) where
  done : Bool
  chunkSlots : ℕ
  outbound : List OutFrame
  sender : SenderPc
  failed : Bool
  sent : List OutFrame
  discarded : List OutFrame
  queue : List Message
  slots : List (Slot Digest)
  inflight : OrderedMap ℕ ℕ
  recv : RecvPc
  pool : List PoolPc
  beat : BeatPc
  received : List Received

/-- SRCLINE: loop.go:92-96 -/
structure Session (Digest : Type) where
  cache : Cache Digest
  conn : Conn Digest

section Steps

variable {Digest : Type}

/-- The start of `Serve`, after `Hello` went out.
SRCLINE: loop.go:285-317, 433-455 -/
def Conn.fresh (cfg : Config) : Conn Digest where
  done := false
  chunkSlots := 0
  outbound := []
  sender := .ready
  failed := false
  sent := [⟨.hello ⟨cfg.sandboxId, [], cfg.capabilities, cfg.concurrency⟩, true, none⟩]
  discarded := []
  queue := []
  slots := []
  inflight := .empty
  recv := .reading
  pool := List.replicate cfg.concurrency .idle
  beat := .waiting
  received := []

/-- No connection yet. -/
def Conn.absent : Conn Digest where
  done := true
  chunkSlots := 0
  outbound := []
  sender := .exited
  failed := false
  sent := []
  discarded := []
  queue := []
  slots := []
  inflight := .empty
  recv := .returned
  pool := []
  beat := .exited
  received := []

/-- SRCLINE: loop.go:98-106 -/
def Session.new : Session Digest := ⟨newCache cacheSize, .absent⟩

/-! ## Sending -/

/-- There is room in the outbound channel. -/
def Conn.room (c : Conn Digest) : Bool := c.outbound.length < queueCap + terminalReserve

def Conn.push (c : Conn Digest) (out : OutFrame) : Conn Digest :=
  { c with outbound := c.outbound ++ [out] }

/-- One step of `enqueue`; no stage is left when the frame is queued.
SRCLINE: loop.go:357-386 -/
def Conn.enqueue (c : Conn Digest) (out : OutFrame) : Stage → Option (Conn Digest × Option Stage)
  | .acquire =>
    if c.chunkSlots < queueCap then some ({ c with chunkSlots := c.chunkSlots + 1 }, some .push)
    else some (c, some .waitSlot)
  | .waitSlot =>
    if c.chunkSlots < queueCap then some ({ c with chunkSlots := c.chunkSlots + 1 }, some .push)
    else none
  | .push => if c.room then some (c.push out, none) else some (c, some .waitPush)
  | .waitPush => if c.room then some (c.push out, none) else none

/-- `connCtx` is done while `enqueue` waits.
SRCLINE: loop.go:364-367, 381-385 -/
def Conn.giveUp (c : Conn Digest) : Stage → Option (Conn Digest)
  | .waitSlot => if c.done then some c else none
  | .waitPush => if c.done then some { c with chunkSlots := c.chunkSlots - 1 } else none
  | .acquire => none
  | .push => none

/-- SRCLINE: loop.go:320-343 -/
def Conn.sendStep (c : Conn Digest) (ok : Bool) : Option (Conn Digest) :=
  match c.sender with
  | .ready =>
    match c.outbound with
    | out :: rest => some { c with outbound := rest, sender := .taken out }
    | [] => if c.recv = .draining then some { c with sender := .exited } else none
  | .taken out =>
    some { c with
      chunkSlots := if out.reserved then c.chunkSlots else c.chunkSlots - 1
      sender := .holding out }
  | .holding out =>
    if c.failed then some { c with discarded := c.discarded ++ [out], sender := .ready }
    else if ok then some { c with sent := c.sent ++ [out], sender := .ready }
    else some { c with
      discarded := c.discarded ++ [out], failed := true, done := true, sender := .ready }
  | .exited => none

/-! ## The heartbeat -/

def heartbeatFrame : OutFrame := ⟨.heartbeat, false, none⟩

/-- SRCLINE: loop.go:419-431 -/
def Conn.beatStep (c : Conn Digest) : Option (Conn Digest) :=
  match c.beat with
  | .waiting => some { c with beat := .enqueueing .acquire }
  | .enqueueing stage => (c.enqueue heartbeatFrame stage).map fun r =>
      { r.1 with beat := r.2.elim .waiting .enqueueing }
  | .exited => none

/-- The heartbeat sees that `connCtx` is done. -/
def Conn.beatDone (c : Conn Digest) : Option (Conn Digest) :=
  match c.beat with
  | .waiting => if c.done then some { c with beat := .exited } else none
  | .enqueueing stage => (c.giveUp stage).map fun c' => { c' with beat := .waiting }
  | .exited => none

/-! ## The registry -/

/-- The slot in flight under a request id.
SRCLINE: loop.go:186-190 -/
def Conn.slotFor (c : Conn Digest) (reqId : ℕ) : Option (Slot Digest) :=
  (c.inflight.get reqId).bind fun i => c.slots[i]?

def Conn.cancelSlot (c : Conn Digest) (reqId : ℕ) : Conn Digest :=
  (c.inflight.get reqId).elim c fun i =>
    { c with slots := c.slots.modify i fun slot => { slot with cancelled := true } }

/-- SRCLINE: loop.go:153-159 -/
def Conn.abort (c : Conn Digest) (reqId : ℕ) : Conn Digest := c.cancelSlot reqId

/-- SRCLINE: loop.go:164-171 -/
def Conn.finish (c : Conn Digest) (reqId : ℕ) : Conn Digest :=
  { c.cancelSlot reqId with inflight := c.inflight.erase reqId }

/-- SRCLINE: loop.go:177-181 -/
def Conn.remove (c : Conn Digest) (reqId : ℕ) : Conn Digest :=
  { c with inflight := c.inflight.erase reqId }

/-! ## The receive loop -/

def Conn.record (c : Conn Digest) (e : Exec) (fate : Fate) : Conn Digest :=
  { c with received := c.received ++ [⟨e, fate, false⟩] }

def Conn.note (c : Conn Digest) (n : ℕ) (fate : Fate) : Conn Digest :=
  { c with received := c.received.modify n fun r => { r with fate := fate } }

def Conn.lose (c : Conn Digest) (n : ℕ) : Conn Digest :=
  { c with received := c.received.modify n fun r => { r with lost := true } }

/-- SRCLINE: loop.go:579 -/
def collisionText : String :=
  "req_id collision: a different command is already in flight for this id"

/-- SRCLINE: loop.go:621 -/
def busyText : String := "busy: queue full"

/-- SRCLINE: loop.go:229-239 -/
inductive ClaimOutcome (Digest : Type) where
  | admitted
  | coalesced (slot : Slot Digest)
  | collision
  | cacheHit (entry : Entry Digest)

section Accept

variable [DecidableEq Digest] (sha256 : List UInt8 → Digest)

/-- The decision of `accept`, and the cache after it.
SRCLINE: loop.go:525-554 -/
def Session.claim (s : Session Digest) (e : Exec) : ClaimOutcome Digest × Cache Digest :=
  match s.conn.slotFor e.reqId with
  | some running =>
    (if running.fp = fingerprint sha256 e then .coalesced running else .collision, s.cache)
  | none =>
    match s.cache.lookup e.reqId (fingerprint sha256 e) with
    | (.hit entry, cache) => (.cacheHit entry, cache)
    | (.miss, cache) => (.admitted, cache)
    | (.collision, cache) => (.admitted, cache)

/-- The registry after the decision, and what the receive loop goes on with.
SRCLINE: loop.go:213-221, 556-598 -/
def Conn.decided (c : Conn Digest) (e : Exec) : ClaimOutcome Digest → Conn Digest
  | .coalesced slot => c.record e (.coalesced slot.message.number)
  | .collision =>
    { c.record e .collided with
      recv := .replying ⟨c.received.length, e⟩ (errFrame e.reqId collisionText) }
  | .cacheHit entry =>
    { c.record e (.replayed entry.exec entry.frame) with
      recv := .replying ⟨c.received.length, e⟩ entry.frame }
  | .admitted =>
    { c.record e .admitted with
      slots := c.slots ++ [⟨fingerprint sha256 e, false, ⟨c.received.length, e⟩⟩]
      inflight := c.inflight.set e.reqId c.slots.length
      recv := .admitting ⟨c.received.length, e⟩ }

/-- An exec is received.
SRCLINE: loop.go:480-488, 510-598 -/
def Session.accept (s : Session Digest) (e : Exec) : Session Digest :=
  ⟨(s.claim sha256 e).2, s.conn.decided sha256 e (s.claim sha256 e).1⟩

end Accept

/-- What `accept` does after its decision: `trySend`, or the queue of the pool.
SRCLINE: loop.go:405-415, 556-598, 603-626 -/
def Conn.replyStep (c : Conn Digest) : Option (Conn Digest) :=
  match c.recv with
  | .replying m frame =>
    if c.room then some { c.push ⟨frame, true, some m.number⟩ with recv := .reading }
    else some { c.lose m.number with recv := .stopping }
  | .admitting m =>
    if c.queue.length < queueCap then some { c with queue := c.queue ++ [m], recv := .reading }
    else some
      { (c.remove m.exec.reqId).note m.number .refused with
        recv := .replying m (errFrame m.exec.reqId busyText) }
  | .reading => none
  | .stopping => none
  | .cancelled => none
  | .waiting => none
  | .draining => none
  | .returned => none

/-- `Serve` after the receive loop.
SRCLINE: loop.go:457-467 -/
def Conn.serveStep (c : Conn Digest) : Option (Conn Digest) :=
  match c.recv with
  | .stopping => some { c with done := true, recv := .cancelled }
  | .cancelled => some { c with recv := .waiting }
  | .waiting =>
    if (c.pool.all fun pc => match pc with
        | .exited => true
        | .idle => false
        | .dequeued _ => false
        | .admitted _ _ => false
        | .running _ _ => false
        | .enqueueing _ _ _ _ => false
        | .finishing _ => false) ∧ c.beat = .exited then
      some { c with recv := .draining }
    else none
  | .draining => if c.sender = .exited then some { c with recv := .returned } else none
  | .reading => none
  | .replying _ _ => none
  | .admitting _ => none
  | .returned => none

/-- The queue of the pool is closed. -/
def RecvPc.closed : RecvPc → Bool
  | reading => false
  | replying _ _ => false
  | admitting _ => false
  | stopping => false
  | cancelled => false
  | waiting => true
  | draining => true
  | returned => true

/-! ## The pool -/

def Conn.setPool (c : Conn Digest) (w : ℕ) (pc : PoolPc) : Conn Digest :=
  { c with pool := c.pool.set w pc }

/-- `ctx.Err() != nil` for the context of a slot. -/
def Conn.ctxDone (c : Conn Digest) (i : ℕ) : Bool := c.done || (c.slots[i]?).any Slot.cancelled

/-- The terminal frame of an exec that was run, and whether it is cached.
SRCLINE: loop.go:702-726 -/
def conclude (e : Exec) (result : RunResult) (dropped : ℕ) : Frame × Bool :=
  match result with
  | .exited code => (endFrame e.reqId code (0 < dropped), 0 ≤ code)
  | .timeout => (errFrame e.reqId ("timeout:" ++ toString e.timeoutS), true)
  | .aborted => (endFrame e.reqId (-1) (0 < dropped), false)
  | .failed message => (errFrame e.reqId message, false)

def After.pc (m : Message) : After → PoolPc
  | run r => .running m r
  | finish => .finishing m

section Pool

variable (sha256 : List UInt8 → Digest)

/-- `Run` returned.
SRCLINE: loop.go:702-736 -/
def Session.concludeStep (s : Session Digest) (w : ℕ) (m : Message) (r : Running) :
    Session Digest :=
  let (frame, cacheable) := conclude m.exec r.result r.dropped
  ⟨if cacheable then
      s.cache.put m.exec.reqId ⟨fingerprint sha256 m.exec, frame, m.exec⟩
    else s.cache,
    s.conn.setPool w (.enqueueing m .acquire frame .finish)⟩

/-- A member of the pool goes on.
SRCLINE: loop.go:440-455, 642-676, 681-736 -/
def Session.poolStep (s : Session Digest) (w : ℕ) : PoolPc → Option (Session Digest)
  | .idle =>
    match s.conn.queue with
    | m :: rest => some { s with conn := { s.conn with queue := rest }.setPool w (.dequeued m) }
    | [] => if s.conn.recv.closed then some { s with conn := s.conn.setPool w .exited } else none
  | .dequeued m =>
    match s.conn.inflight.get m.exec.reqId with
    | none => some { s with conn := s.conn.setPool w .idle }
    | some i => some { s with conn := s.conn.setPool w (.admitted m i) }
  | .admitted m i =>
    if s.conn.ctxDone i then
      some { s with
        conn := (s.conn.note m.number .skipped).setPool w
          (.enqueueing m .acquire (endFrame m.exec.reqId (-1) false) .finish) }
    else none
  | .running m r =>
    match r.calls with
    | .chunk stream data :: rest =>
      some { s with
        conn := s.conn.setPool w
          (.enqueueing m .acquire (.chunk ⟨m.exec.reqId, data, stream⟩)
            (.run { r with calls := rest })) }
    | .dropped stream n :: rest =>
      some { s with
        conn := s.conn.setPool w
          (.running m { r with calls := rest, dropped :=
            r.dropped + (SinkCall.dropped stream n).cut }) }
    | [] => some (s.concludeStep sha256 w m r)
  | .enqueueing m stage frame after =>
    (s.conn.enqueue ⟨frame, false, some m.number⟩ stage).map fun r =>
      { s with
        conn := r.1.setPool w
          (r.2.elim (after.pc m) fun stage => .enqueueing m stage frame after) }
  | .finishing m => some { s with conn := (s.conn.finish m.exec.reqId).setPool w .idle }
  | .exited => none

end Pool

/-- `Run` is called.
SRCLINE: loop.go:682-698 -/
def Conn.startStep (c : Conn Digest) (w : ℕ) (run : Run) : PoolPc → Option (Conn Digest)
  | .admitted m i =>
    if c.ctxDone i then none
    else some ((c.note m.number (.ran run)).setPool w (.running m ⟨run.calls, run.result, 0⟩))
  | .idle => none
  | .dequeued _ => none
  | .running _ _ => none
  | .enqueueing _ _ _ _ => none
  | .finishing _ => none
  | .exited => none

/-- A member of the pool sees in `enqueue` that `connCtx` is done. -/
def Conn.giveUpStep (c : Conn Digest) (w : ℕ) : PoolPc → Option (Conn Digest)
  | .enqueueing m stage _ after =>
    (c.giveUp stage).map fun c' => (c'.lose m.number).setPool w (after.pc m)
  | .idle => none
  | .dequeued _ => none
  | .admitted _ _ => none
  | .running _ _ => none
  | .finishing _ => none
  | .exited => none

end Steps

/-! ## Runs -/

inductive Action where
  | connect
  | cancel
  | exec (e : Exec)
  | abort (reqId : ℕ)
  | recvError
  | reply
  | serve
  | pool (w : ℕ)
  | start (w : ℕ) (run : Run)
  | giveUp (w : ℕ)
  | beat
  | beatDone
  | send (ok : Bool)

section Runs

variable {Digest : Type} [DecidableEq Digest] (sha256 : List UInt8 → Digest) (cfg : Config)

def sessionStep (s : Session Digest) : Action → Option (Session Digest)
  | .connect => if s.conn.recv = .returned then some { s with conn := .fresh cfg } else none
  | .cancel => some { s with conn := { s.conn with done := true } }
  | .exec e => if s.conn.recv = .reading then some (s.accept sha256 e) else none
  | .abort reqId =>
    if s.conn.recv = .reading then some { s with conn := s.conn.abort reqId } else none
  | .recvError =>
    if s.conn.recv = .reading then some { s with conn := { s.conn with recv := .stopping } }
    else none
  | .reply => s.conn.replyStep.map fun c => { s with conn := c }
  | .serve => s.conn.serveStep.map fun c => { s with conn := c }
  | .pool w => (s.conn.pool[w]?).bind (s.poolStep sha256 w)
  | .start w run =>
    ((s.conn.pool[w]?).bind (s.conn.startStep w run)).map fun c => { s with conn := c }
  | .giveUp w => ((s.conn.pool[w]?).bind (s.conn.giveUpStep w)).map fun c => { s with conn := c }
  | .beat => s.conn.beatStep.map fun c => { s with conn := c }
  | .beatDone => s.conn.beatDone.map fun c => { s with conn := c }
  | .send ok => (s.conn.sendStep ok).map fun c => { s with conn := c }

/-- The runs of one worker, over all its connections. -/
def sessionSystem : TransitionSystem (Session Digest) :=
  .ofStep (· = Session.new) (sessionStep sha256 cfg)

theorem exists_session_state (as : List Action) (P : Session Digest → Bool)
    (h : (runActions (sessionStep sha256 cfg) Session.new as).map P = some true) :
    ∃ s, Reachable (sessionSystem sha256 cfg) s ∧ P s = true := by
  refine exists_reachable_of_runActions ?_ as P h
  rfl

end Runs

end ServerlessHarness.RemoteWorker
