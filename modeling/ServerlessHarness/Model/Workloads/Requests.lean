import ServerlessHarness.Library.OrderedMap
import ServerlessHarness.Library.Transition

/-!
# Workloads

A workload is a named pool of sandboxes that the Context Service manages; the server keeps a record
of each, with the subject that created it. Creating, reading and deleting a workload are a read of
the stored record, a call of the Context Service and a write of the whole record. Requests of any
subjects interleave between these steps; what the Context Service answers is an input. A run reads
the record once and takes the pool from it.
-/

set_option autoImplicit false

namespace ServerlessHarness.Workloads

open Library

/-! ## Records -/

/-- SRCLINE: context-service.ts:19-25 -/
structure Workspace where
  size : Option String
  accessMode : Option String
  storageClass : Option String
  claimName : Option String
  readOnly : Option Bool
deriving DecidableEq, Repr

/-- SRCLINE: context-service.ts:13-32 -/
structure WorkloadRecord where
  workloadId : String
  status : String
  replicas : ℕ
  readyReplicas : ℕ
  sandboxSelector : String
  workspace : Workspace
  owner : Option String
deriving DecidableEq, Repr

/-- SRCLINE: context-service.ts:34-41 -/
structure ContextPool where
  name : String
  status : String
  replicas : ℕ
  readyReplicas : ℕ
  sandboxSelector : String
  workspace : Workspace
deriving DecidableEq, Repr

/-- SRCLINE: context-service.ts:69-78 -/
def workload (pool : ContextPool) : WorkloadRecord :=
  ⟨pool.name, pool.status, pool.replicas, pool.readyReplicas, pool.sandboxSelector, pool.workspace,
    none⟩

/-- SRCLINE: knative-server/server.ts:417-420 -/
def withOwner (record : WorkloadRecord) (subject : Option String) : WorkloadRecord :=
  { record with owner := subject }

/-- SRCLINE: knative-server/server.ts:454-455 -/
def ownedBy (record : WorkloadRecord) (subject : Option String) : Bool := record.owner = subject

/-- SRCLINE: knative-server/server.ts:465-466 -/
def mayDelete (record : WorkloadRecord) (subject : Option String) : Bool :=
  record.owner = none || ownedBy record subject

/-- A record whose workload was deleted. -/
def WorkloadRecord.deleted (record : WorkloadRecord) : Bool := record.status = "deleted"

/-- SRCLINE: knative-server/server.ts:473-478 -/
def sameWorkload (record : WorkloadRecord) (workloadId : String) : Option WorkloadRecord :=
  if record.workloadId ≠ workloadId then none else some record

/-! ## Requests -/

/-- SRCLINE: knative-server/server.ts:436-445, 512-605 -/
inductive Reply where
  | created (record : WorkloadRecord)
  | found (record : WorkloadRecord)
  | noContent
  | contextServiceNotConfigured
  | workloadNameInvalid
  | claimNameNotAllowed
  | workloadNameTaken
  | workloadNotFound
  | contextServiceError
deriving DecidableEq, Repr

/-- The deployment: whether a Context Service is configured, and whether the tenancy is `multi`. -/
structure Config where
  contextService : Bool
  multiTenant : Bool
deriving DecidableEq, Repr

def alphanumeric (c : Char) : Bool := c.isLower || c.isDigit

/-- `/^[a-z0-9](?:[-a-z0-9]*[a-z0-9])?$/`, and at most 50 characters.
SRCLINE: knative-server/server.ts:50, 524 -/
def validName (name : String) : Bool :=
  decide (name.length ≤ 50) && name.toList.all (fun c => alphanumeric c || c = '-') &&
    name.toList.head?.any alphanumeric && name.toList.getLast?.any alphanumeric

inductive Op where
  | create
  | get
  | delete
deriving DecidableEq, Repr

/-- A request of an authenticated subject, or of none; `claimName` is the claim a creation names. -/
structure Request where
  op : Op
  subject : Option String
  id : String
  claimName : Option String
deriving DecidableEq, Repr

/-- The refusals before the store is read.
SRCLINE: knative-server/server.ts:515-540, 569, 592 -/
def refusedEarly (cfg : Config) (r : Request) : Option Reply :=
  if !cfg.contextService then some .contextServiceNotConfigured
  else
    match r.op with
    | .create =>
      if !validName r.id then some .workloadNameInvalid
      else if r.claimName.isSome && (r.subject.isSome || cfg.multiTenant) then
        some .claimNameNotAllowed
      else none
    | _ => none

/-- The refusals that depend on the stored record.
SRCLINE: knative-server/server.ts:546-549, 571-574, 594-597 -/
def refusedFor (op : Op) (subject : Option String) (stored : Option WorkloadRecord) :
    Option Reply :=
  match op, stored with
  | .create, none => none
  | .create, some record =>
    if !record.deleted && !ownedBy record subject then some .workloadNameTaken else none
  | .get, none => some .workloadNotFound
  | .get, some record => if !ownedBy record subject then some .workloadNotFound else none
  | .delete, none => some .workloadNotFound
  | .delete, some record =>
    if record.deleted || !mayDelete record subject then some .workloadNotFound else none

/-- The record to be saved, from what was read and what the Context Service answered; a deletion
keeps the record it read.
SRCLINE: knative-server/server.ts:551-554, 577, 600 -/
def toSave (op : Op) (subject : Option String) (id : String) (read : Option WorkloadRecord)
    (pool : ContextPool) : Option WorkloadRecord :=
  match op with
  | .delete => read.map fun record => { record with status := "deleted", readyReplicas := 0 }
  | _ => (sameWorkload (workload pool) id).map fun record => withOwner record subject

/-- SRCLINE: knative-server/server.ts:556, 579, 601 -/
def replyTo (op : Op) (record : WorkloadRecord) : Reply :=
  match op with
  | .create => .created record
  | .get => .found record
  | .delete => .noContent

/-- A request between two of its awaited calls. -/
inductive Task where
  | looking (op : Op) (subject : Option String) (id : String)
  | calling (op : Op) (subject : Option String) (id : String) (read : Option WorkloadRecord)
  | saving (op : Op) (subject : Option String) (read : Option WorkloadRecord)
      (record : WorkloadRecord)
  | done (reply : Reply)
deriving DecidableEq, Repr

/-! ## The system -/

inductive Event where
  | saved (op : Op) (subject : Option String) (id : String)
  | ran (subject : Option String) (id sandboxSelector : String)
deriving DecidableEq, Repr

structure World where
  store : OrderedMap String WorkloadRecord
  tasks : List Task
  log : List Event

inductive Action where
  | request (r : Request)
  | find (i : ℕ)
  | answer (i : ℕ) (pool : Option ContextPool)
  | save (i : ℕ) (ok : Bool)
  | run (subject : Option String) (id : String)
deriving DecidableEq, Repr

def World.setTask (w : World) (i : ℕ) (t : Task) : World := { w with tasks := w.tasks.set i t }

/-- A request that passed the early checks, or the reply to it. -/
def begin (cfg : Config) (r : Request) : Task :=
  match refusedEarly cfg r with
  | some reply => .done reply
  | none => .looking r.op r.subject r.id

/-- `findWorkload`, and the checks on what it found.
SRCLINE: knative-server/server.ts:426-434, 545, 570, 593 -/
def findTask (w : World) : Task → Option Task
  | .looking op subject id =>
    match refusedFor op subject (w.store.get id) with
    | some reply => some (.done reply)
    | none => some (.calling op subject id (w.store.get id))
  | _ => none

/-- The Context Service answers; `none` is a failure. -/
def answerTask (pool : Option ContextPool) : Task → Option Task
  | .calling op subject id read =>
    match pool.bind (toSave op subject id read) with
    | some record => some (.saving op subject read record)
    | none => some (.done .contextServiceError)
  | _ => none

/-- SRCLINE: knative-server/server.ts:422-424 -/
def World.saveWorkload (w : World) (i : ℕ) (ok : Bool) : Task → Option World
  | .saving op subject _ record =>
    if ok then
      some { w.setTask i (.done (replyTo op record)) with
        store := w.store.set record.workloadId record
        log := w.log ++ [.saved op subject record.workloadId] }
    else some (w.setTask i (.done .contextServiceError))
  | _ => none

/-- A run is given the pool of a live workload of its own subject; without one it is answered
`workload_not_found`.
SRCLINE: knative-server/server.ts:485-497 -/
def resolveRunWorkload (w : World) (subject : Option String) (id : String) : Option String :=
  match w.store.get id with
  | some record =>
    if record.deleted || !ownedBy record subject then none else some record.sandboxSelector
  | none => none

def step (cfg : Config) (w : World) : Action → Option World
  | .request r => some { w with tasks := w.tasks ++ [begin cfg r] }
  | .find i => (w.tasks[i]?).bind fun t => (findTask w t).map (w.setTask i)
  | .answer i pool => (w.tasks[i]?).bind fun t => (answerTask pool t).map (w.setTask i)
  | .save i ok => (w.tasks[i]?).bind (w.saveWorkload i ok)
  | .run subject id =>
    match resolveRunWorkload w subject id with
    | some selector => some { w with log := w.log ++ [.ran subject id selector] }
    | none => some w

/-- Any records, and no request yet. -/
def World.initial (w : World) : Prop := w.tasks = [] ∧ w.log = []

/-- The creation of `id` that a task is in the middle of. -/
def Task.creates : Task → Option String
  | .looking .create _ id => some id
  | .calling .create _ id _ => some id
  | .saving .create _ _ record => some record.workloadId
  | _ => none

/-- No two creations of one name overlap: one is requested only when no other is under way. -/
def createsApart (w : World) : Action → Bool
  | .request r => r.op ≠ .create || w.tasks.all fun t => t.creates ≠ some r.id
  | _ => true

/-- The runs in which no two creations of one name overlap. -/
def workloads (cfg : Config) : TransitionSystem World :=
  .ofStep World.initial (guarded createsApart (step cfg))

end ServerlessHarness.Workloads
