import ServerlessHarness.Model.VmPool.Workspace

/-!
# The VM pool's state and its critical sections

`Pool` is the Go struct `pool` with the objects it points to: `heap` holds every
`runPool` ever created (a pointer is its index), `runs` is the map from workspace keys
to pointers, `reclaimQ` and `reaper` are the channels, `inFlightWarms` and `reclaimDone`
the wait groups, `dirs` the directories under the workspace root. `History` records the
calls made on the VMs and on the filesystem, for the statements only: no modelled function
reads it.

Each definition below is what one critical section on `p.mu` does. The statements
between two critical sections are in `Model.VmPool.Goroutines`.
-/

set_option autoImplicit false

namespace ServerlessHarness.VmPool

open Library

/-- A VM that `Launcher.Restore` returned. `ref` is its identity as an object; `run` is
the run it was restored for, none for the start-up probe; `inode` is the directory that
was at the request's `WorkspaceDir`.
SRCLINE: launcher.go:16-21, 67-78 -/
structure VM where
  ref : Nat
  id : String
  key : Key
  run : Option Nat
  inode : Nat
deriving DecidableEq, Repr

/-- One workspace key's state. `settled` is the number of settled channels already
closed, so it names the open one; `execGate` says whether the one-slot channel is full.
SRCLINE: runpool.go:16-59 -/
structure RunPool where
  key : Key
  dir : SlashPath
  ready : List VM
  inFlight : Int
  warming : Int
  settled : Nat
  lastExec : Int
  parked : Bool
  backoff : Int
  pending : List Nat
  execGate : Bool
deriving Repr

/-- SRCLINE: sweep.go:13-16 -/
structure ReclaimBatch where
  vms : List VM
  dirs : List SlashPath
deriving DecidableEq, Repr

/-- An armed replenish timer.
SRCLINE: replenish.go:63-72 -/
structure ReplenishTimer where
  id : Nat
  key : Key
  deadline : Int
deriving DecidableEq, Repr

/-- The deferred reaper's queue, which holds at most `workers` VMs, and its wait group.
SRCLINE: deferred_reap.go:41-68 -/
structure Reaper where
  workers : Nat
  queue : List VM
  closed : Bool
  running : Nat
deriving Repr

/-- A call that renames or removes a directory. -/
inductive FsOp where
  | rename (dir tomb : SlashPath)
  | removeAll (dir : SlashPath)
deriving DecidableEq, Repr

/-- A call touches what is at or below the directories it names. -/
def FsOp.Touches : FsOp → SlashPath → Prop
  | .rename dir tomb, q => dir.below q ∨ tomb.below q
  | .removeAll dir, q => dir.below q

/-- The calls made on VMs and on the filesystem so far. -/
structure History where
  restored : List VM
  given : List VM
  resumed : List VM
  destroyCalls : List VM
  destroyReturns : List VM
  barriers : List VM
  reapCalls : List VM
  reapReturns : List VM
  fsOps : List FsOp
deriving Repr

/-- SRCLINE: pool.go:97-135 -/
structure Pool where
  cfg : Config
  serialize : Bool
  deferrable : Bool
  now : Int
  mu : Option Nat
  heap : Nat → RunPool
  nextRun : Nat
  runs : List (Key × Nat)
  closed : Bool
  seq : Nat
  timers : List ReplenishTimer
  nextTimer : Nat
  ticker : Option Int
  reclaimQ : List ReclaimBatch
  reclaimQClosed : Bool
  reclaimDone : Nat
  inFlightWarms : Int
  reaper : Option Reaper
  dirs : DirTree
  tombstoneSeq : Nat
  crashed : Bool
  hist : History

/-- Writes through a `*runPool`. -/
def Pool.setRun (p : Pool) (g : Nat) (rp : RunPool) : Pool :=
  { p with heap := Function.update p.heap g rp }

theorem Pool.setRun_heap_self (p : Pool) (g : Nat) (rp : RunPool) :
    (p.setRun g rp).heap g = rp := by
  unfold Pool.setRun
  exact Function.update_self ..

theorem Pool.setRun_heap_of_ne (p : Pool) {g g' : Nat} (h : g' ≠ g) (rp : RunPool) :
    (p.setRun g rp).heap g' = p.heap g' := by
  unfold Pool.setRun
  exact Function.update_of_ne h ..

/-- SRCLINE: runpool.go:70 -/
def RunPool.busy (rp : RunPool) : Bool := rp.inFlight > 0 || rp.warming > 0

/-! ## Admission -/

/-- The number of VMs one run holds against the budget.
SRCLINE: budget.go:85 -/
def RunPool.vms (rp : RunPool) : Int := rp.ready.length + rp.inFlight + rp.warming

/-- SRCLINE: budget.go:65-73 -/
def Pool.unparkedRunsLocked (p : Pool) : Int :=
  (p.runs.countP fun e => !(p.heap e.2).parked : Nat)

/-- SRCLINE: budget.go:82-88 -/
def Pool.committedLocked (p : Pool) : Int :=
  wrap64 (wrap64 (p.runs.map fun e => (p.heap e.2).vms).sum * perVMBytes p.cfg)

/-- SRCLINE: budget.go:40-56 -/
def Pool.admitLocked (p : Pool) (newRun : Bool) : Except RefusalError Unit :=
  let unparked := p.unparkedRunsLocked
  if newRun ∧ unparked ≥ p.cfg.maxRuns then
    .error (.maxRuns p.cfg.maxRuns unparked p.runs.length)
  else
    let budget := wrap64 (p.cfg.maxCommittedBytes - p.cfg.memoryReserveBytes)
    let next := wrap64 (p.committedLocked + perVMBytes p.cfg)
    if next > budget then
      .error (.memoryBudget (perVMBytes p.cfg) next budget p.cfg.maxCommittedBytes
        p.cfg.memoryReserveBytes)
    else .ok ()

/-- A `runPool` as `runLocked` creates it.
SRCLINE: pool.go:568-574 -/
def RunPool.fresh (key : Key) (dir : SlashPath) (now : Int) : RunPool where
  key := key
  dir := dir
  ready := []
  inFlight := 0
  warming := 0
  settled := 0
  lastExec := now
  parked := false
  backoff := 0
  pending := []
  execGate := false

/-- The run of `key`, created if unseen.
SRCLINE: pool.go:557-577 -/
def Pool.runLocked (p : Pool) (key : Key) : Except RefusalError (Nat × Pool) :=
  match p.runs.lookup key with
  | some g => .ok (g, p)
  | none =>
    match p.admitLocked true with
    | .error e => .error e
    | .ok () =>
      match workspaceDir p.cfg key with
      | .error e => .error e
      | .ok dir =>
        let p' := { p with nextRun := p.nextRun + 1, runs := p.runs ++ [(key, p.nextRun)] }
        .ok (p.nextRun, p'.setRun p.nextRun (.fresh key dir p.now))

/-- SRCLINE: cgroup.go:101-111 -/
def vmIDPrefix : String := "vm-"

/-- The id `nextIDLocked` mints, and the pool after it.
SRCLINE: pool.go:593-596 -/
def Pool.nextIDLocked (p : Pool) : String × Pool :=
  (vmIDPrefix ++ toString (p.seq + 1), { p with seq := p.seq + 1 })

/-! ## Replenishment timers -/

def replenishBackoffMin : Int := 250 * 1000000
def replenishBackoffMax : Int := 30 * second

/-- SRCLINE: replenish.go:18-23 -/
def nextBackoff (d : Int) : Int :=
  if d ≤ 0 then replenishBackoffMin else min (d * 2) replenishBackoffMax

/-- Arms a refill of one slot, unless the pool is closed or the run is at its depth.
SRCLINE: replenish.go:50-73 -/
def Pool.scheduleReplenishLocked (p : Pool) (g : Nat) : Pool :=
  let rp := p.heap g
  if p.closed then p
  else if (rp.ready.length : Int) + rp.warming ≥ p.cfg.standbyDepth then p
  else
    let tm : ReplenishTimer :=
      { id := p.nextTimer, key := rp.key, deadline := p.now + (p.cfg.replenishDelay + rp.backoff) }
    let p' := { p with timers := p.timers ++ [tm], nextTimer := p.nextTimer + 1 }
    p'.setRun g { rp with pending := rp.pending ++ [tm.id] }

/-- Stops a run's pending timers and forgets them.
SRCLINE: sweep.go:65-68, pool.go:623-626 -/
def Pool.stopPending (p : Pool) (g : Nat) : Pool :=
  let rp := p.heap g
  let p' := { p with timers := p.timers.filter fun tm => tm.id ∉ rp.pending }
  p'.setRun g { rp with pending := [] }

/-- What a timer callback does before `replenishOne`.
SRCLINE: replenish.go:65-69, runpool.go:74-81 -/
def Pool.forgetPending (p : Pool) (key : Key) (tm : Nat) : Pool :=
  match p.runs.lookup key with
  | none => p
  | some g => p.setRun g { p.heap g with pending := (p.heap g).pending.erase tm }

/-! ## Acquiring, settling and tearing down -/

/-- How one turn of `acquire`'s loop ends. -/
inductive Acquired where
  | closed
  | refused (e : RefusalError)
  | warm (run : Nat) (vm : VM)
  | wait (run epoch : Nat)
  | cold (run : Nat) (dir : SlashPath) (id : String)
deriving DecidableEq, Repr

/-- One turn of `acquire`'s loop, up to the point where it gives the lock up.
SRCLINE: pool.go:396-459 -/
def Pool.acquireLocked (p : Pool) (key : Key) : Acquired × Pool :=
  if p.closed then (.closed, p)
  else
    match p.runLocked key with
    | .error e => (.refused e, p)
    | .ok (g, p) =>
      let rp := { p.heap g with lastExec := p.now }
      match rp.ready.getLast? with
      | some vm =>
        let rp' := { rp with ready := rp.ready.dropLast, inFlight := rp.inFlight + 1 }
        let p' := p.setRun g rp'
        (.warm g vm, { p' with hist := { p'.hist with given := p'.hist.given ++ [vm] } })
      | none =>
        let rp := { rp with parked := false }
        let p := p.setRun g rp
        if rp.warming > 0 then (.wait g rp.settled, p)
        else
          match p.admitLocked false with
          | .error e => (.refused e, p)
          | .ok () =>
            let (id, p) := p.nextIDLocked
            (.cold g rp.dir id, p.setRun g { rp with warming := rp.warming + 1 })

/-- `signalSettledLocked` together with the decrement before it: a warming is over.
SRCLINE: runpool.go:61-64, pool.go:464-465 -/
def RunPool.settle (rp : RunPool) : RunPool :=
  { rp with warming := rp.warming - 1, settled := rp.settled + 1 }

/-- The critical section after a cold warm: the charge moves from warming to inFlight,
or is dropped with the failed warm.
SRCLINE: pool.go:463-489 -/
def Pool.settleCold (p : Pool) (g : Nat) (vm : Option VM) : Pool :=
  let rp := (p.heap g).settle
  match vm with
  | none => p.setRun g { rp with backoff := nextBackoff rp.backoff }
  | some vm =>
    let p' := p.setRun g { rp with inFlight := rp.inFlight + 1, backoff := 0 }
    { p' with hist := { p'.hist with given := p'.hist.given ++ [vm] } }

/-- The critical section of `destroy`: the budget is released and a refill armed before
any teardown.
SRCLINE: pool.go:514-521 -/
def Pool.destroyLocked (p : Pool) (key : Key) : Pool :=
  match p.runs.lookup key with
  | none => p
  | some g =>
    let rp := p.heap g
    let rp := if rp.inFlight > 0 then { rp with inFlight := rp.inFlight - 1 } else rp
    (p.setRun g rp).scheduleReplenishLocked g

/-- The first critical section of `replenishOne`: what to restore, if anything.
SRCLINE: replenish.go:79-109 -/
def Pool.replenishOneLocked (p : Pool) (key : Key) : Option (Nat × SlashPath × String) × Pool :=
  match p.runs.lookup key with
  | none => (none, p)
  | some g =>
    let rp := p.heap g
    if p.closed then (none, p)
    else if (rp.ready.length : Int) + rp.warming ≥ p.cfg.standbyDepth then (none, p)
    else
      match p.admitLocked false with
      | .error _ =>
        (none, (p.setRun g { rp with backoff := nextBackoff rp.backoff }).scheduleReplenishLocked g)
      | .ok () =>
        let (id, p) := p.nextIDLocked
        let p := p.setRun g { rp with warming := rp.warming + 1 }
        (some (g, rp.dir, id), { p with inFlightWarms := p.inFlightWarms + 1 })

/-- The second critical section of `replenishOne`. The VM becomes a standby, or, on a
closed pool, is handed back to be destroyed.
SRCLINE: replenish.go:113-144 -/
def Pool.settleReplenish (p : Pool) (g : Nat) (vm : Option VM) : Option VM × Pool :=
  let rp := (p.heap g).settle
  match vm with
  | none =>
    (none, (p.setRun g { rp with backoff := nextBackoff rp.backoff }).scheduleReplenishLocked g)
  | some vm =>
    if p.closed then (some vm, p.setRun g rp)
    else
      (none, (p.setRun g { rp with backoff := 0, ready :=
        rp.ready ++ [vm] }).scheduleReplenishLocked g)

/-! ## Sweeping, reclaiming and closing -/

/-- What the filesystem does to a rename: the wall clock's reading that goes into the
tombstone's name, and whether the call fails with an error other than "not exist". -/
structure Detach where
  nano : Int
  ioError : Bool
deriving DecidableEq, Repr

/-- Renames `dir` to a fresh tombstone. `none` is an error; `some none` means that there
was nothing there to detach.
SRCLINE: workspace.go:86-99 -/
def Pool.detachWorkspace (p : Pool) (dir : SlashPath) (d : Detach) :
    Option (Option SlashPath) × Pool :=
  let tomb := tombstone dir d.nano (p.tombstoneSeq + 1)
  let p :=
    { p with
      tombstoneSeq := p.tombstoneSeq + 1
      hist := { p.hist with fsOps := p.hist.fsOps ++ [.rename dir tomb] } }
  if d.ioError then (none, p)
  else
    match p.dirs.lookup dir with
    | none => (some none, p)
    | some _ => (some (some tomb), { p with dirs := p.dirs.rename dir tomb })

/-- Go's `delete(p.runs, key)`. -/
def Pool.deleteRun (p : Pool) (key : Key) : Pool :=
  { p with runs := p.runs.filter fun e => e.1 ≠ key }

/-- The body of `sweepOnce`'s loop for one map entry, with the remaining budget.
SRCLINE: sweep.go:36-97 -/
def Pool.sweepVisit (p : Pool) (now : Int) (key : Key) (d : Detach) (budget : Int)
    (b : ReclaimBatch) : Int × ReclaimBatch × Pool :=
  match p.runs.lookup key with
  | none => (budget, b, p)
  | some g =>
    let rp := p.heap g
    let idle := now - rp.lastExec
    if rp.busy then (budget, b, p)
    else if idle < p.cfg.standbyIdle then (budget, b, p)
    else
      let take := min budget rp.ready.length
      let b := { b with vms := b.vms ++ rp.ready.take take.toNat }
      let rp := { rp with ready := rp.ready.drop take.toNat }
      let p := p.setRun g rp
      let budget := budget - take
      if rp.ready ≠ [] then (budget, b, p)
      else
        let p := p.stopPending g
        if idle ≥ p.cfg.workspaceIdle then
          match p.detachWorkspace rp.dir d with
          | (none, p) => (budget, b, p)
          | (some tomb, p) =>
            (budget, { b with dirs := b.dirs ++ tomb.toList }, p.deleteRun key)
        else (budget, b, p.setRun g { p.heap g with parked := true })

/-- `sweepOnce`'s loop. The list is the order in which the iteration visits the map's entries, each
with what the filesystem would do to the rename of its directory.
SRCLINE: sweep.go:36-97 -/
def Pool.sweepLoop (now : Int) : List (Key × Detach) → Pool → Int → ReclaimBatch →
    Int × ReclaimBatch × Pool
  | [], p, budget, b => (budget, b, p)
  | (key, d) :: rest, p, budget, b =>
    if budget ≤ 0 then (budget, b, p)
    else
      match p.sweepVisit now key d budget b with
      | (budget', b', p') => Pool.sweepLoop now rest p' budget' b'

/-- `sweepOnce`: the batch it returns, and the pool after it.
SRCLINE: sweep.go:30-99 -/
def Pool.sweepOnce (p : Pool) (now : Int) (order : List (Key × Detach)) : ReclaimBatch × Pool :=
  (Pool.sweepLoop now order p p.cfg.maxReclaimsPerScan ⟨[], []⟩).2

/-- What a call of `Reclaim` returns. -/
inductive ReclaimOutcome where
  | ok
  | keptWorkspace (key : Key)
  | detachFailed
deriving DecidableEq, Repr

/-- The critical section of `Reclaim`: the standbys to destroy, the tombstone to remove
and what the call will return.
SRCLINE: pool.go:615-635 -/
def Pool.reclaimLocked (p : Pool) (key : Key) (d : Detach) :
    ReclaimBatch × ReclaimOutcome × Pool :=
  match p.runs.lookup key with
  | none => (⟨[], []⟩, .ok, p)
  | some g =>
    let victims := (p.heap g).ready
    let p := p.setRun g { p.heap g with ready := [] }
    let p := p.stopPending g
    if (p.heap g).busy then (⟨victims, []⟩, .keptWorkspace key, p)
    else
      match p.detachWorkspace (p.heap g).dir d with
      | (none, p) => (⟨victims, []⟩, .detachFailed, p)
      | (some tomb, p) => (⟨victims, tomb.toList⟩, .ok, p.deleteRun key)

/-- The standbys of every run in the map, in the order of the list. -/
def Pool.standbys (p : Pool) : List VM := p.runs.flatMap fun e => (p.heap e.2).ready

/-- The critical section of the `Close` that closes the pool. The standbys it takes are
`p.standbys`, in the order the map iteration gives them.
SRCLINE: pool.go:695-708 -/
def Pool.closeLocked (p : Pool) : Pool :=
  let live := p.runs.map Prod.snd
  let pending := live.flatMap fun g => (p.heap g).pending
  { p with
    closed := true
    ticker := none
    timers := p.timers.filter fun tm => tm.id ∉ pending
    heap := fun g =>
      if g ∈ live then { p.heap g with ready := [], pending := [] } else p.heap g }

/-- Schedules the next sweep.
SRCLINE: sweep.go:173-182 -/
def Pool.armTickerLocked (p : Pool) : Pool :=
  if p.closed then p else { p with ticker := some (p.now + p.cfg.reclaimScanInterval) }

end ServerlessHarness.VmPool
