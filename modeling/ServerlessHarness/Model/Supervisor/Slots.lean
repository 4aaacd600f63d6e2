import ServerlessHarness.Model.Supervisor.Routing

/-!
# The slots of the worker pool and their estimates

`WorkerPool` with the bookkeeping of refusals, driven by any sequence of events: forks, exits, lost
channels, messages, hand-offs and refusals, in any order. The handlers of a process keep the slot
that was made for it, also after another process took its place: `slots` holds every slot ever
made, and `table` says which one stands in each place now.

Back-off delays, telemetry, idle waiters and log lines are left out.
-/

set_option autoImplicit false

namespace ServerlessHarness.Supervisor

/-- SRCLINE: supervisor/pool.ts:91-111 -/
structure Slot where
  inFlight : ℕ
  healthy : Bool
  drained : Bool
  connected : Bool
  refusalEstimate : Option ℕ
deriving DecidableEq, Repr

/-- SRCLINE: supervisor/pool.ts:330-344 -/
def Slot.fresh : Slot := ⟨0, false, false, true, none⟩

/-- SRCLINE: supervisor/pool.ts:79-87 -/
structure Tally where
  restarts : ℕ
  handoffRetries : ℕ
  handoffFailures : ℕ
  overAdmission : ℕ
  spuriousRefusals : ℕ
deriving DecidableEq, Repr

/-- What a worker sends. `stats` carries telemetry; `unrecognised` is a message without a finite
`inFlight`.
SRCLINE: supervisor/pool.ts:21-32, 405-409 -/
inductive Message where
  | ready
  | draining
  | stats
  | load (inFlight : ℕ)
  | unrecognised
deriving DecidableEq, Repr

/-- What happens to the slots, the sockets and the refusals. -/
inductive PoolEvent where
  | spawned (k : ℕ)
  | exited (k : ℕ)
  | loaded (k inFlight : ℕ)
  | attempted (target : ℕ)
  | threw (k : ℕ)
  | delivered (k : ℕ)
  | noted
  | refused
deriving DecidableEq, Repr

structure Pool where
  table : List ℕ
  slots : List Slot
  shuttingDown : Bool
  refusalCounted : Bool
  tally : Tally
  log : List PoolEvent
deriving DecidableEq, Repr

def Pool.empty : Pool := ⟨[], [], false, true, ⟨0, 0, 0, 0, 0⟩, []⟩

def Pool.onSlot (p : Pool) (k : ℕ) (f : Slot → Slot) : Pool :=
  { p with slots := p.slots.modify k f }

def Pool.note (p : Pool) (e : PoolEvent) : Pool := { p with log := p.log ++ [e] }

/-- SRCLINE: supervisor/pool.ts:156-158 -/
def Pool.views (p : Pool) : List WorkerView :=
  p.table.zipIdx.filterMap fun e => (p.slots[e.1]?).map fun s => ⟨e.2, s.inFlight, s.healthy⟩

/-- SRCLINE: supervisor/pool.ts:266-270 -/
def Pool.noteRefusal (p : Pool) : Pool :=
  { p.note .noted with
    refusalCounted := false
    slots := p.table.foldl
      (fun slots k => slots.modify k fun s =>
        { s with refusalEstimate := some s.inFlight }) p.slots }

/-! ## Hand-off -/

/-- The slot to which the socket may be sent.
SRCLINE: supervisor/pool.ts:201-206 -/
def Pool.target (p : Pool) (target : ℕ) : Option ℕ :=
  (p.table[target]?).filter fun k => (p.slots[k]?).any fun s => s.healthy && s.connected

/-- SRCLINE: supervisor/pool.ts:217-220 -/
def Pool.deliver (p : Pool) (k : ℕ) : Pool :=
  (p.onSlot k fun s => { s with inFlight := s.inFlight + 1 }).note (.delivered k)

/-- SRCLINE: supervisor/pool.ts:226-227 -/
def Pool.retry (p : Pool) : Pool :=
  { p with tally := { p.tally with handoffRetries := p.tally.handoffRetries + 1 } }

/-- After the loop: no worker took the socket.
SRCLINE: supervisor/pool.ts:244-248 -/
def Pool.giveUp (p : Pool) : Pool :=
  let failed := { p with tally := { p.tally with handoffFailures := p.tally.handoffFailures + 1 } }
  failed.noteRefusal.note .refused

/-- The loop of `handOff`, with at most `fuel` looks at its condition; `none` if that is too few.
`throws i` says whether a send in attempt `i` throws.
SRCLINE: supervisor/pool.ts:199-248 -/
def Pool.handOffLoop (throws : ℕ → Bool) :
    (fuel : ℕ) → Pool → (tried : List ℕ) → (target : Option ℕ) → Option (Pool × Option ℕ)
  | 0, _, _, _ => none
  | _ + 1, p, _, none => some (p.giveUp, none)
  | fuel + 1, p, tried, some target =>
    let tries := p.note (.attempted target)
    let next := pickLeastLoaded (p.views.filter fun v => v.id ∉ target :: tried)
    match p.target target with
    | some k =>
      if throws tried.length then
        handOffLoop throws fuel (tries.note (.threw k)).retry (target :: tried) next
      else some (tries.deliver k, some target)
    | none => handOffLoop throws fuel tries.retry (target :: tried) next

/-- Every place can be tried once, and the preferred one need not be a place.
SRCLINE: supervisor/pool.ts:196-249 -/
def Pool.handOff (p : Pool) (preferred : ℕ) (throws : ℕ → Bool) : Option (Pool × Option ℕ) :=
  p.handOffLoop throws (p.table.length + 2) [] (some preferred)

/-! ## Events -/

/-- The constructor and the restarts fork a process for a place.
SRCLINE: supervisor/pool.ts:145, 327-345 -/
def Pool.spawn (p : Pool) (id : ℕ) : Pool :=
  if id ≤ p.table.length then
    { p.note (.spawned p.slots.length) with
      table := if id < p.table.length then p.table.set id p.slots.length else p.table ++
        [p.slots.length]
      slots := p.slots ++ [.fresh] }
  else p

/-- SRCLINE: supervisor/pool.ts:440-467 -/
def Pool.reconcile (p : Pool) (k : ℕ) (slot : Slot) (actual : ℕ) : Pool :=
  let told := (p.onSlot k fun s => { s with inFlight := actual, refusalEstimate := none }).note
    (.loaded k actual)
  let overAdmission := if slot.inFlight < actual then
    p.tally.overAdmission + 1 else p.tally.overAdmission
  let spurious := (slot.refusalEstimate.any fun atRefusal => actual < atRefusal) &&
    !p.refusalCounted
  { told with
    refusalCounted := p.refusalCounted || spurious
    tally := { p.tally with
      overAdmission
      spuriousRefusals := p.tally.spuriousRefusals + if spurious then 1 else 0 } }

/-- The handler of the messages of slot `k`.
SRCLINE: supervisor/pool.ts:367-410 -/
def Pool.onMessage (p : Pool) (k : ℕ) : Message → Pool
  | .ready => p.onSlot k fun s => if s.drained then s else { s with healthy := true }
  | .draining => p.onSlot k fun s => { s with healthy := false }
  | .stats => p
  | .load inFlight =>
    match p.slots[k]? with
    | some slot => p.reconcile k slot inFlight
    | none => p
  | .unrecognised => p

/-- SRCLINE: supervisor/pool.ts:412-437 -/
def Pool.onExit (p : Pool) (k : ℕ) : Pool :=
  let told := (p.onSlot k fun s => { s with healthy := false, inFlight := 0 }).note (.exited k)
  if p.shuttingDown then told
  else { told with tally := { p.tally with restarts := p.tally.restarts + 1 } }

/-- SRCLINE: supervisor/pool.ts:306-325 -/
def Pool.drainAll (p : Pool) : Pool :=
  { p with
    shuttingDown := true
    slots := p.table.foldl (fun slots k => slots.modify k fun s =>
      { s with drained := true }) p.slots }

inductive PoolAction where
  | spawn (id : ℕ)
  | message (k : ℕ) (m : Message)
  | exit (k : ℕ)
  | disconnect (k : ℕ)
  | handOff (preferred : ℕ) (throws : ℕ → Bool)
  | noteRefusal
  | drainAll

def Pool.step (p : Pool) : PoolAction → Pool
  | .spawn id => p.spawn id
  | .message k m => p.onMessage k m
  | .exit k => p.onExit k
  | .disconnect k => p.onSlot k fun s => { s with connected := false }
  | .handOff preferred throws =>
    match p.handOff preferred throws with
    | some (p', _) => p'
    | none => p
  | .noteRefusal => p.noteRefusal
  | .drainAll => p.drainAll

/-- The pool after a sequence of events. -/
def Pool.run (actions : List PoolAction) : Pool := actions.foldl Pool.step .empty

end ServerlessHarness.Supervisor
