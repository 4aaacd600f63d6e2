import ServerlessHarness.Library.ConsumerGroup
import ServerlessHarness.Library.Transition
import ServerlessHarness.Model.LeafJob.Leaf

/-!
# Leaf-job processes on the work queue

A leaf-job process is a client of one Redis server: it sends a command, waits for the reply
and goes on. `Server.exec` is the server's side of each command, `Pc.command` the command a
process sends where it stands, and `Pc.receive` what it does with the reply: the start-up
reaper and the collection of idle consumers (`main`), then the drain loop over `processOne`.

`queueSystem` is every interleaving of any number of processes with distinct consumer ids, of
enqueued envelopes and of the server's clock. A process can stop at any point, can wait
arbitrarily long between two commands, and any command of it can fail. The group exists from
the start: `ensureGroup` creates it at id `0`, and no later call changes it.
-/

set_option autoImplicit false

namespace ServerlessHarness.LeafJob

open Library

/-! ## The server -/

/-- The Redis server: its clock, the stream `leaf-queue` with the group `leaf-workers`, and,
as a history, the ids acknowledged and the result records written. -/
structure Server where
  now : ℕ
  queue : GroupStream String String
  acked : List StreamId
  results : List (String × LeafResultRecord)

/-- The commands of `RedisWorkQueue` and of the result store. -/
inductive Command where
  | xgroupCreate
  | xadd (envelope : String)
  | xautoclaim (consumer : String) (minIdle : ℕ)
  | xreadgroup (consumer : String)
  | xclaim (consumer : String) (minIdle : ℕ) (justId : Bool) (id : StreamId)
  | xack (id : StreamId)
  | xpendingRange (count : ℕ)
  | xpendingEntry (id : StreamId)
  | xinfoConsumers
  | xgroupDelConsumer (consumer : String)
  | set (key : String) (record : LeafResultRecord)

/-- What the server replies; `waiting` is a blocked read. -/
inductive Reply where
  | ok
  | message (m : Option (StreamId × String))
  | waiting (since : ℕ)
  | rows (rows : List (StreamId × ℕ × ℕ))
  | count (n : Option ℕ)
  | consumers (info : List (String × ℕ × ℕ))

/-- The server executes a command.
SRCLINE: queue.ts:87-217 -/
def Server.exec (srv : Server) : Command → Server × Reply
  | .xgroupCreate => (srv, .ok)
  | .xadd envelope => ({ srv with queue := srv.queue.xadd srv.now envelope }, .ok)
  | .xautoclaim consumer minIdle =>
    let r := srv.queue.xautoclaim consumer minIdle srv.now
    ({ srv with queue := r.2 }, .message (r.1.bind srv.queue.stream.lookup))
  | .xreadgroup consumer =>
    let r := srv.queue.xreadgroup consumer srv.now
    ({ srv with queue := r.2 }, if r.1.isSome then .message r.1 else .waiting srv.now)
  | .xclaim consumer minIdle justId id =>
    let r := srv.queue.xclaim consumer minIdle srv.now justId id
    ({ srv with queue := r.2 }, .message (if r.1 then srv.queue.stream.lookup id else none))
  | .xack id => ({ srv with queue := srv.queue.xack id, acked := srv.acked ++ [id] }, .ok)
  | .xpendingRange count => (srv, .rows (srv.queue.xpendingRange count srv.now))
  | .xpendingEntry id => (srv, .count (srv.queue.xpendingEntry id))
  | .xinfoConsumers => (srv, .consumers (srv.queue.xinfoConsumers srv.now))
  | .xgroupDelConsumer consumer => ({ srv with queue := srv.queue.delConsumer consumer }, .ok)
  | .set key record => ({ srv with results := srv.results ++ [(key, record)] }, .ok)

/-! ## A process -/

/-- The constants of `main` and the defaults of `processOne`. -/
structure JobConfig where
  maxAttempts : ℕ
  minIdleMs : ℕ
  blockMs : ℕ
  reapMaxAttempts : ℕ
  reapMinIdleMs : ℕ
  reapBatch : ℕ
  consumerGcIdleMs : ℕ

/-- SRCLINE: leaf-job.ts:11-13 -/
def leafJobConfig : JobConfig where
  maxAttempts := 3
  minIdleMs := 90000
  blockMs := 5000
  reapMaxAttempts := 3
  reapMinIdleMs := 90000
  reapBatch := 100
  consumerGcIdleMs := 300000

/-- An entry the reaper took out of the queue; `none` is an envelope that did not parse. -/
structure DeadLetter where
  entryId : StreamId
  envelope : Option Json

/-- Where a process stands: the command it sends next, and what it holds meanwhile. -/
inductive Pc where
  | ensureGroup
  | reapPending
  | reapClaim (id : StreamId) (ids : List StreamId) (dead : List DeadLetter)
  | reapAck (id : StreamId) (envelope : Option Json) (ids : List StreamId) (dead : List DeadLetter)
  | reapWrite (env : Json) (sid : String) (dead : List DeadLetter)
  | gcInfo
  | gcDelete (name : String) (names : List String)
  | claimAuto
  | claimCount (id : StreamId) (env : Json)
  | claimRead
  | blocked (deadline : ℕ)
  | running (id : StreamId) (env : Json) (sid : String)
  | write (id : StreamId) (env : Json) (sid : String) (result : LeafResult) (acks : Bool)
  | ack (id : StreamId)
  | deleteConsumer
  | exited (code : ℕ)
  | crashed

/-- The process is over. -/
def Pc.stopped : Pc → Bool
  | .exited _ => true
  | .crashed => true
  | _ => false

/-- The record written for an entry given up on. -/
def deadLetterResult : LeafResult := .failed .error none

/-- The loop over the dead letters that writes their records; an envelope that is not an
object, or that has no session id, is passed over.
SRCLINE: leaf-job.ts:37-57 -/
def writeNext (host : Host) : List DeadLetter → Pc
  | [] => .gcInfo
  | d :: ds =>
    match d.envelope with
    | none => writeNext host ds
    | some env =>
      if env.isObject then
        match leafSessionId host env with
        | some sid => .reapWrite env sid ds
        | none => writeNext host ds
      else writeNext host ds

/-- The reaper's loop over the entries it will claim.
SRCLINE: queue.ts:192-216 -/
def reapNext (host : Host) : List StreamId → List DeadLetter → Pc
  | [], dead => writeNext host dead
  | id :: ids, dead => .reapClaim id ids dead

/-- The rows that are idle for long enough and were delivered too often.
SRCLINE: queue.ts:193-196 -/
def reapable (cfg : JobConfig) (rows : List (StreamId × ℕ × ℕ)) : List StreamId :=
  (rows.filter fun r => cfg.reapMinIdleMs ≤ r.2.1 && cfg.reapMaxAttempts < r.2.2).map Prod.fst

/-- The loop of `gcIdleConsumers` over the consumers it will delete.
SRCLINE: queue.ts:167-172 -/
def gcNext : List String → Pc
  | [] => .claimAuto
  | name :: names => .gcDelete name names

/-- The consumers without pending rows that are idle for long enough.
SRCLINE: queue.ts:168 -/
def idleConsumers (cfg : JobConfig) (info : List (String × ℕ × ℕ)) : List String :=
  (info.filter fun c => c.2.1 = 0 && cfg.consumerGcIdleMs ≤ c.2.2).map Prod.fst

/-- `processOne` with a claimed entry.
SRCLINE: leaf-job-runner.ts:56-75 -/
def processClaimed (host : Host) (cfg : JobConfig) (id : StreamId) (env : Json)
    (deliveryCount : ℕ) : Pc :=
  match leafSessionId host env with
  | none => .exited 1
  | some sid =>
    if cfg.maxAttempts < deliveryCount then .write id env sid deadLetterResult true
    else .running id env sid

/-- `processOne` after `runLeaf`; on a retry `main` exits.
SRCLINE: leaf-job-runner.ts:80-88, leaf-job.ts:81-86 -/
def afterRun (id : StreamId) (env : Json) (sid : String) (result : LeafResult) : Pc :=
  let outcome := classifyOutcome result
  if outcome.retryable then .exited 1 else .write id env sid result outcome.ack

/-- The command a process sends where it stands. `ts` is the time for a record.
SRCLINE: leaf-job.ts:26-90, queue.ts:102-217 -/
def Pc.command (cfg : JobConfig) (consumerId ts : String) : Pc → Option Command
  | .ensureGroup => some .xgroupCreate
  | .reapPending => some (.xpendingRange cfg.reapBatch)
  | .reapClaim id _ _ => some (.xclaim consumerId cfg.reapMinIdleMs false id)
  | .reapAck id _ _ _ => some (.xack id)
  | .reapWrite env sid _ =>
    some (.set (resultKey sid) (toResultRecord deadLetterResult (env.get "sessionId") ts))
  | .gcInfo => some .xinfoConsumers
  | .gcDelete name _ => some (.xgroupDelConsumer name)
  | .claimAuto => some (.xautoclaim consumerId cfg.minIdleMs)
  | .claimCount id _ => some (.xpendingEntry id)
  | .claimRead => some (.xreadgroup consumerId)
  | .blocked _ => some (.xreadgroup consumerId)
  | .running _ _ _ => none
  | .write _ env sid result _ =>
    some (.set (resultKey sid) (toResultRecord result (env.get "sessionId") ts))
  | .ack id => some (.xack id)
  | .deleteConsumer => some (.xgroupDelConsumer consumerId)
  | .exited _ => none
  | .crashed => none

/-- What a process does with the reply; an envelope that does not parse ends a process that
claimed it, and not the reaper.
SRCLINE: leaf-job.ts:26-93, queue.ts:102-217 -/
def Pc.receive (host : Host) (cfg : JobConfig) : Pc → Reply → Option Pc
  | .ensureGroup, .ok => some .reapPending
  | .reapPending, .rows rows => some (reapNext host (reapable cfg rows) [])
  | .reapClaim _ ids dead, .message none => some (reapNext host ids dead)
  | .reapClaim id ids dead, .message (some m) => some (.reapAck id (host.parse m.2) ids dead)
  | .reapAck id envelope ids dead, .ok => some (reapNext host ids (dead ++ [⟨id, envelope⟩]))
  | .reapWrite _ _ dead, .ok => some (writeNext host dead)
  | .gcInfo, .consumers info => some (gcNext (idleConsumers cfg info))
  | .gcDelete _ names, .ok => some (gcNext names)
  | .claimAuto, .message none => some .claimRead
  | .claimAuto, .message (some m) =>
    match host.parse m.2 with
    | none => some (.exited 1)
    | some env => some (.claimCount m.1 env)
  | .claimCount id env, .count n => some (processClaimed host cfg id env (n.getD 1))
  | .claimRead, .waiting since => some (.blocked (since + cfg.blockMs))
  | .claimRead, .message (some m) => some (delivered m)
  | .blocked _, .message (some m) => some (delivered m)
  | .write id _ _ _ acks, .ok => some (if acks then .ack id else .exited 1)
  | .ack _, .ok => some .claimAuto
  | .deleteConsumer, .ok => some (.exited 0)
  | _, _ => none
where
  delivered (m : StreamId × String) : Pc :=
    match host.parse m.2 with
    | none => .exited 1
    | some env => processClaimed host cfg m.1 env 1

/-- What a process does when its command, or the leaf run, throws: only the reaper's record
writes are caught.
SRCLINE: leaf-job.ts:51-53, 96-104 -/
def Pc.fail (host : Host) : Pc → Option Pc
  | .reapWrite _ _ dead => some (writeNext host dead)
  | .exited _ => none
  | .crashed => none
  | _ => some (.exited 1)

/-- A leaf-job process; `touches` are the heartbeats sent and not yet executed. A heartbeat that
is still under way when its process stops is one that was executed before. -/
structure Worker where
  consumerId : String
  pc : Pc
  touches : List StreamId

/-- What a process can do: have its next command executed and go on with the reply, see a
command or the leaf run fail, give up a blocked read, send a heartbeat, have one executed, get
the result of the leaf run, and crash. -/
inductive WorkerAction where
  | command (ts : String)
  | error
  | timeout
  | beat
  | touch (id : StreamId)
  | finish (result : LeafResult)
  | crash

/-- A blocked read is served when there is an entry to read. -/
def Pc.ready (srv : Server) : Pc → Bool
  | .blocked _ => srv.queue.unread.isSome
  | _ => true

/-- One step of a process.
SRCLINE: leaf-job.ts:19-104, leaf-job-runner.ts:31-94 -/
def workerStep (host : Host) (cfg : JobConfig) (srv : Server) (w : Worker) :
    WorkerAction → Option (Server × Worker)
  | .command ts =>
    if w.pc.ready srv then
      (w.pc.command cfg w.consumerId ts).bind fun c =>
        (w.pc.receive host cfg (srv.exec c).2).map fun pc => ((srv.exec c).1, { w with pc := pc })
    else none
  | .error => (w.pc.fail host).map fun pc => (srv, { w with pc := pc })
  | .timeout =>
    match w.pc with
    | .blocked deadline =>
      if deadline ≤ srv.now then some (srv, { w with pc := .deleteConsumer }) else none
    | _ => none
  | .beat =>
    match w.pc with
    | .running id _ _ => some (srv, { w with touches := w.touches ++ [id] })
    | _ => none
  | .touch id =>
    if w.pc.stopped = false ∧ id ∈ w.touches then
      some ((srv.exec (.xclaim w.consumerId 0 true id)).1,
        { w with touches := w.touches.erase id })
    else none
  | .finish result =>
    match w.pc with
    | .running id env sid => some (srv, { w with pc := afterRun id env sid result })
    | _ => none
  | .crash => if w.pc.stopped then none else some (srv, { w with pc := .crashed })

/-! ## Any number of processes -/

/-- The server and the processes started so far. -/
structure Sys where
  srv : Server
  workers : List Worker

/-- Time passes, an envelope is enqueued, a process starts, or a process takes a step. -/
inductive Action where
  | tick (ms : ℕ)
  | enqueue (envelope : String)
  | spawn (consumerId : String)
  | worker (i : ℕ) (a : WorkerAction)

/-- One step of the system. -/
def queueStep (host : Host) (cfg : JobConfig) (s : Sys) : Action → Option Sys
  | .tick ms => some { s with srv := { s.srv with now := s.srv.now + ms } }
  | .enqueue envelope => some { s with srv := (s.srv.exec (.xadd envelope)).1 }
  | .spawn consumerId =>
    if consumerId ∈ s.workers.map Worker.consumerId then none
    else some { s with workers := s.workers ++ [⟨consumerId, .ensureGroup, []⟩] }
  | .worker i a =>
    match s.workers[i]? with
    | none => none
    | some w => (workerStep host cfg s.srv w a).map fun r => ⟨r.1, s.workers.set i r.2⟩

/-- An empty queue and no process. -/
def Sys.empty : Sys := ⟨⟨0, .empty, [], []⟩, []⟩

/-- Every interleaving of leaf-job processes on one queue. -/
def queueSystem (host : Host) (cfg : JobConfig) : TransitionSystem Sys :=
  .ofStep (· = Sys.empty) (queueStep host cfg)

/-- The runs whose actions all meet `G`. -/
def guardedSystem (host : Host) (cfg : JobConfig) (G : Sys → Action → Bool) :
    TransitionSystem Sys :=
  .ofStep (· = Sys.empty) (guarded G (queueStep host cfg))

theorem exists_reachable_of_actions (host : Host) (cfg : JobConfig) (G : Sys → Action → Bool)
    (as : List Action) (P : Sys → Bool)
    (h : (runActions (guarded G (queueStep host cfg)) .empty as).map P = some true) :
    ∃ s, Reachable (guardedSystem host cfg G) s ∧ P s = true := by
  refine exists_reachable_of_runActions ?_ as P h
  rfl

end ServerlessHarness.LeafJob
