import ServerlessHarness.Library.Transition
import ServerlessHarness.Model.Supervisor.Slots

/-!
# The supervisor, its workers and their connections

The supervisor accepts connections, decides on admission, reads the head of the request where its
policy needs it, and hands the socket to a worker over the worker's channel (`handOff`). It
estimates each worker's turns in flight: one more for every socket it hands off, replaced by what
the worker reports. A worker reports its count when it takes a socket, when a turn starts or ends
and when a socket closes. Messages of both directions are queued in their channel; a process can
die or lose its channel at any time. The synchronous code between two events is one step.

The slots are those of `Pool` without the bookkeeping of refusals (`World.pool`). Metrics, log
lines, the delay of a restart and the text of a refusal are left out.
-/

set_option autoImplicit false

namespace ServerlessHarness.Supervisor

open Library

/-- SRCLINE: supervisor/config.ts:4-13 -/
structure Config where
  policy : RoutingPolicy
  turnsPerWorker : ℕ
deriving Repr

/-- SRCLINE: supervisor/pool.ts:14 -/
inductive ToWorker where
  | conn (c : ℕ)
  | drain
deriving DecidableEq, Repr

/-- SRCLINE: supervisor/pool.ts:21-32 -/
inductive FromWorker where
  | ready
  | load (inFlight : ℕ)
  | draining
deriving DecidableEq, Repr

/-- A forked process with the slot the supervisor keeps for it: the estimate, its flags and the
state of its channel on one side, the turn counter on the other. A later process in the same place
has a slot of its own.
SRCLINE: supervisor/pool.ts:91-111, worker.ts:53-75 -/
structure Worker where
  id : ℕ
  inFlight : ℕ
  healthy : Bool
  drained : Bool
  connected : Bool
  exited : Bool
  alive : Bool
  booted : Bool
  draining : Bool
  turns : ℕ
  inbox : List ToWorker
  outbox : List FromWorker
deriving DecidableEq, Repr

/-- SRCLINE: supervisor/pool.ts:330-344 -/
def Worker.forked (id : ℕ) : Worker :=
  ⟨id, 0, false, false, true, false, true, false, false, 0, [], []⟩

/-- A request on a connection: whether it is a turn, and whether its bytes were sent before the
connection was handed off. -/
structure Request where
  turn : Bool
  early : Bool
deriving DecidableEq, Repr

/-- Where a connection is: its head is read, it is in the channel of a worker, the worker serves it,
its socket is closed there, or the supervisor refused or dropped it. -/
inductive Place where
  | reading
  | handed (worker : ℕ)
  | served (worker : ℕ)
  | shut (worker : ℕ)
  | gone
deriving DecidableEq, Repr

/-- A connection with the requests that were sent and not yet read by its worker, and the turns that
started on it and did not end. -/
structure Conn where
  place : Place
  unread : List Request
  running : ℕ
deriving DecidableEq, Repr

inductive Event where
  | handedOff (conn target : ℕ) (tried : List ℕ)
  | drained
deriving DecidableEq, Repr

/-- `table` is `slots`: the process that stands in each place. `resolved` is what the calls of
`awaitIdle` returned. -/
structure World where
  table : List ℕ
  workers : List Worker
  conns : List Conn
  pins : Pins
  accepting : Bool
  shuttingDown : Bool
  restarts : List ℕ
  waiters : List ℕ
  resolved : List (ℕ × Bool)
  calls : ℕ
  log : List Event

/-! ## The pool -/

/-- The slot of a process, without the bookkeeping of refusals. -/
def Worker.slot (wk : Worker) : Slot := ⟨wk.inFlight, wk.healthy, wk.drained, wk.connected, none⟩

/-- What the pool knows of its workers. -/
def World.pool (w : World) : Pool :=
  { Pool.empty with
    table := w.table
    slots := w.workers.map Worker.slot
    shuttingDown := w.shuttingDown }

def World.views (w : World) : List WorkerView := w.pool.views

def World.onWorker (w : World) (k : ℕ) (f : Worker → Worker) : World :=
  { w with workers := w.workers.modify k f }

def World.onConn (w : World) (c : ℕ) (f : Conn → Conn) : World :=
  { w with conns := w.conns.modify c f }

/-- The process in a place, if a socket can be sent to it. -/
def World.sendable (w : World) (target : ℕ) : Option ℕ := w.pool.target target

/-- The socket is sent, and the estimate counts it at once.
SRCLINE: supervisor/pool.ts:217-220 -/
def World.sendConn (w : World) (c target k : ℕ) (tried : List ℕ) : World :=
  let sent := w.onWorker k fun wk =>
    { wk with inFlight := wk.inFlight + 1, inbox := wk.inbox ++ [.conn c] }
  let placed := sent.onConn c fun conn => { conn with place := .handed k }
  { placed with log := w.log ++ [.handedOff c target tried] }

/-- SRCLINE: admission.ts:46-74 -/
def World.refuse (w : World) (c : ℕ) : World :=
  w.onConn c fun conn => { conn with place := .gone }

/-- The attempts of `handOff` with what they do to the connection: `throws` says which sends throw,
`tried` is what was tried before. The fuel is that of `Pool.handOff`.
SRCLINE: supervisor/pool.ts:196-249 -/
def World.handOff (w : World) (c : ℕ) :
    (fuel : ℕ) → (throws : List Bool) → (tried : List ℕ) → (target : ℕ) → World
  | 0, _, _, _ => w.refuse c
  | fuel + 1, throws, tried, target =>
    match w.sendable target, throws.headD false with
    | some k, false => w.sendConn c target k tried
    | _, _ =>
      match pickLeastLoaded (w.views.filter fun v => v.id ∉ target :: tried) with
      | some next => w.handOff c fuel throws.tail (target :: tried) next
      | none => w.refuse c

/-- SRCLINE: supervisor/pool.ts:273-275 -/
def World.allIdle (w : World) : Bool :=
  w.table.all fun k => (w.workers[k]?).all fun wk => wk.inFlight = 0

/-- SRCLINE: supervisor/pool.ts:277-280 -/
def World.notifyIfIdle (w : World) : World :=
  if w.allIdle then
    { w with waiters := [], resolved := w.resolved ++ w.waiters.map fun i => (i, true) }
  else w

/-- SRCLINE: supervisor/pool.ts:290-304 -/
def World.awaitIdle (w : World) : World :=
  if w.allIdle then { w with resolved := w.resolved ++ [(w.calls, true)], calls := w.calls + 1 }
  else { w with waiters := w.waiters ++ [w.calls], calls := w.calls + 1 }

/-- The deadline of a call.
SRCLINE: supervisor/pool.ts:297-300 -/
def World.timeOut (w : World) (i : ℕ) : Option World :=
  if i ∈ w.waiters then
    some { w with waiters := w.waiters.filter (· ≠ i), resolved := w.resolved ++ [(i, false)] }
  else none

/-- What `drainAll` does to one slot.
SRCLINE: supervisor/pool.ts:308-324 -/
def Worker.drainSlot (wk : Worker) : Worker :=
  if wk.drained then wk
  else { wk with drained := true, inbox := if wk.connected then wk.inbox ++ [.drain] else wk.inbox }

/-- SRCLINE: supervisor/pool.ts:306-325 -/
def World.drainAll (w : World) : World :=
  { w with
    shuttingDown := true
    workers := w.table.foldl (fun workers k => workers.modify k Worker.drainSlot) w.workers
    log := w.log ++ [.drained] }

/-- The first two steps of the shutdown, which run without a pause.
SRCLINE: supervisor/main.ts:165-184 -/
def World.close (w : World) : World := { w.drainAll with accepting := false }

/-- SRCLINE: supervisor/pool.ts:327-345 -/
def World.spawn (w : World) (id : ℕ) : World :=
  { w with
    table := w.table.set id w.workers.length
    workers := w.workers ++ [.forked id] }

/-- The handlers of a worker's messages.
SRCLINE: supervisor/pool.ts:367-410, 440-467 -/
def World.onMessage (w : World) (k : ℕ) : FromWorker → World
  | .ready => w.onWorker k fun wk => if wk.drained then wk else { wk with healthy := true }
  | .draining => w.onWorker k fun wk => { wk with healthy := false }
  | .load inFlight =>
    (w.onWorker k fun wk => { wk with inFlight }).notifyIfIdle

/-- The handler of the exit of a process; the place is filled again later, unless the pool is
shutting down.
SRCLINE: supervisor/pool.ts:412-437 -/
def World.onExit (w : World) (k id : ℕ) : World :=
  let told := (w.onWorker k fun wk =>
    { wk with exited := true, healthy := false, inFlight := 0 }).notifyIfIdle
  if w.shuttingDown then told else { told with restarts := told.restarts ++ [id] }

/-! ## Routing a connection -/

/-- How the reading of a head ends; the session id is `undefined` for an incomplete head.
SRCLINE: head.ts:49-64, supervisor/main.ts:107-136 -/
inductive HeadRead where
  | closed
  | read (sessionId : Option String)
deriving DecidableEq, Repr

/-- The rest of `route`, after admission and the reading of the head.
SRCLINE: supervisor/main.ts:138-145 -/
def World.routeTo (cfg : Config) (w : World) (c : ℕ) (sessionId : Option String)
    (throws : List Bool) : World :=
  let (chosen, pins) := cfg.policy.pick w.pins w.views sessionId
  match chosen with
  | none => { w with pins }.refuse c
  | some target => { w with pins }.handOff c (w.table.length + 2) throws [] target

/-- A connection on which some requests were sent already.
SRCLINE: supervisor/main.ts:97-110 -/
def World.connect (cfg : Config) (w : World) (requests : List Bool) (throws : List Bool) : World :=
  let conn : Conn := ⟨.reading, requests.map fun turn => ⟨turn, true⟩, 0⟩
  let w₁ := { w with conns := w.conns ++ [conn] }
  if isSaturated w.views cfg.turnsPerWorker then w₁.refuse w.conns.length
  else if cfg.policy.needsHead then w₁
  else w₁.routeTo cfg w.conns.length none throws

/-! ## The worker -/

def Worker.report (wk : Worker) : Worker := { wk with outbox := wk.outbox ++ [.load wk.turns] }

/-- The worker takes the socket that came with a message; it can get lost on the way (`handle`). -/
def Conn.arrive (k : ℕ) (handle : Bool) (conn : Conn) : Conn :=
  if conn.place = .handed k then { conn with place := if handle then .served k else .gone }
  else conn

/-- The process takes the next message of its channel.
SRCLINE: worker.ts:129-196, 302-313 -/
def World.receive (w : World) (k : ℕ) (handle : Bool) : Option World :=
  (w.workers[k]?).bind fun wk =>
    if wk.alive && wk.booted then
      match wk.inbox with
      | [] => none
      | .conn c :: inbox =>
        let told := w.onWorker k fun wk => { wk with inbox }.report
        some (told.onConn c (Conn.arrive k handle))
      | .drain :: inbox =>
        some (w.onWorker k fun wk =>
          if wk.draining then { wk with inbox }
          else { wk with inbox, draining := true, outbox := wk.outbox ++ [.draining] })
    else none

/-- The process that serves a connection, if it is alive. -/
def World.server (w : World) (k : ℕ) : Option Worker :=
  (w.workers[k]?).filter Worker.alive

/-- The parser of a connection's worker reaches the next request; only a turn is counted.
SRCLINE: worker.ts:62-64, 116-122 -/
def World.parse (w : World) (c : ℕ) : Option World :=
  (w.conns[c]?).bind fun conn =>
    match conn.place, conn.unread with
    | .served k, r :: unread =>
      (w.server k).bind fun _ =>
        if r.turn then
          some ((w.onWorker k fun wk => { wk with turns := wk.turns + 1 }.report).onConn c
            fun conn => { conn with unread, running := conn.running + 1 })
        else some (w.onConn c fun conn => { conn with unread })
    | _, _ => none

/-- The worker whose turns a connection may carry. -/
def Place.worker : Place → Option ℕ
  | .handed k => some k
  | .served k => some k
  | .shut k => some k
  | .reading => none
  | .gone => none

/-- A turn's response is closed.
SRCLINE: worker.ts:65-73 -/
def World.endTurn (w : World) (c : ℕ) : Option World :=
  (w.conns[c]?).bind fun conn =>
    conn.place.worker.bind fun k =>
      (w.server k).bind fun _ =>
        if 0 < conn.running then
          some ((w.onWorker k fun wk => { wk with turns := wk.turns - 1 }.report).onConn c
            fun conn => { conn with running := conn.running - 1 })
        else none

/-- A served socket closes; the responses on it are closed later.
SRCLINE: worker.ts:181 -/
def World.closeConn (w : World) (c : ℕ) : Option World :=
  (w.conns[c]?).bind fun conn =>
    match conn.place with
    | .served k =>
      (w.server k).bind fun _ =>
        some ((w.onWorker k Worker.report).onConn c fun conn =>
          { conn with place := .shut k, unread := [] })
    | _ => none

/-! ## The system -/

inductive Action where
  | connect (requests throws : List Bool)
  | send (c : ℕ) (turn : Bool)
  | headRead (c : ℕ) (outcome : HeadRead) (throws : List Bool)
  | boot (k : ℕ)
  | receive (k : ℕ) (handle : Bool)
  | parse (c : ℕ)
  | endTurn (c : ℕ)
  | closeConn (c : ℕ)
  | message (k : ℕ)
  | die (k : ℕ)
  | disconnect (k : ℕ)
  | exit (k : ℕ)
  | restart (id : ℕ)
  | close
  | awaitIdle
  | timeOut (i : ℕ)
deriving DecidableEq, Repr

/-- A request arrives on a connection that is not gone. -/
def World.sendRequest (w : World) (c : ℕ) (turn : Bool) : Option World :=
  (w.conns[c]?).bind fun conn =>
    match conn.place with
    | .reading =>
      some (w.onConn c fun conn => { conn with unread := conn.unread ++ [⟨turn, true⟩] })
    | .handed _ =>
      some (w.onConn c fun conn => { conn with unread := conn.unread ++ [⟨turn, false⟩] })
    | .served _ =>
      some (w.onConn c fun conn => { conn with unread := conn.unread ++ [⟨turn, false⟩] })
    | _ => none

/-- SRCLINE: supervisor/main.ts:110-148 -/
def World.finishRead (cfg : Config) (w : World) (c : ℕ) (throws : List Bool) :
    HeadRead → Option World
  | .closed =>
    if (w.conns[c]?).any fun conn => conn.place = .reading then some (w.refuse c) else none
  | .read sessionId =>
    if (w.conns[c]?).any fun conn => conn.place = .reading then
      some (w.routeTo cfg c sessionId throws)
    else none

def step (cfg : Config) (w : World) : Action → Option World
  | .connect requests throws =>
    if w.accepting then some (w.connect cfg requests throws) else none
  | .send c turn => w.sendRequest c turn
  | .headRead c outcome throws => w.finishRead cfg c throws outcome
  | .boot k =>
    (w.server k).bind fun wk =>
      if wk.booted then none
      else some (w.onWorker k fun wk =>
        { wk with booted := true, outbox := wk.outbox ++ [.ready] })
  | .receive k handle => w.receive k handle
  | .parse c => w.parse c
  | .endTurn c => w.endTurn c
  | .closeConn c => w.closeConn c
  | .message k =>
    (w.workers[k]?).bind fun wk =>
      match wk.outbox with
      | [] => none
      | m :: outbox => some ((w.onWorker k fun wk => { wk with outbox }).onMessage k m)
  | .die k => (w.server k).map fun _ => w.onWorker k fun wk => { wk with alive := false }
  | .disconnect k => some (w.onWorker k fun wk => { wk with connected := false })
  | .exit k =>
    (w.workers[k]?).bind fun wk =>
      if wk.alive || wk.exited then none else some (w.onExit k wk.id)
  | .restart id =>
    if id ∈ w.restarts then
      let fired := { w with restarts := w.restarts.erase id }
      some (if w.shuttingDown then fired else fired.spawn id)
    else none
  | .close => some w.close
  | .awaitIdle => some w.awaitIdle
  | .timeOut i => w.timeOut i

/-- The pool once its constructor has forked the workers. -/
def World.start (workers : ℕ) : World where
  table := List.range workers
  workers := (List.range workers).map Worker.forked
  conns := []
  pins := .empty
  accepting := true
  shuttingDown := false
  restarts := []
  waiters := []
  resolved := []
  calls := 0
  log := []

def World.initial (w : World) : Prop := ∃ workers, w = World.start workers

def supervisor (cfg : Config) : TransitionSystem World := .ofStep World.initial (step cfg)

end ServerlessHarness.Supervisor
