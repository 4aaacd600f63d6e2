import ServerlessHarness.Library.Transition
import ServerlessHarness.Model.VmPool.Pool

/-!
# The goroutines of the VM pool

A goroutine is the call it runs and how far it got. Its next step is one critical
section of `Model.VmPool.Pool`, or one call on a VM, on a channel or on the filesystem
between two of them; `Choice` resolves what the step leaves open (an error, a lost
`select`, the order of a map iteration). `sysStep` interleaves the goroutines with the
clock, the timers and new calls, and `poolSystem` is every run of a pool that `New`
returned.

`p.mu` is held across steps only by `sweepOnce`, whose loop takes one step for each map
entry. Every other critical section is one step, enabled while `p.mu` is free.
-/

set_option autoImplicit false

namespace ServerlessHarness.VmPool

open Library

/-- What a step leaves open to the launcher, the filesystem and the scheduler. -/
inductive Choice where
  | go
  | fail
  | abort
  | misbound (key : Key)
  | visit (key : Key) (d : Detach)
  | detach (d : Detach)
  | victims (order : List VM)
deriving DecidableEq, Repr

/-! ## Calls on the launcher and on VMs -/

/-- What a restore is asked for.
SRCLINE: launcher.go:16-21 -/
structure RestoreRequest where
  run : Option Nat
  key : Key
  dir : SlashPath
  id : String
deriving DecidableEq, Repr

/-- How far `warm` got. -/
inductive WarmPc where
  | mkdir
  | restoring
  | restored (vm : VM)
  | failed
deriving DecidableEq, Repr

/-- `Restore` returns a new VM, bound to the directory at the request's `WorkspaceDir`. -/
def Pool.restore (p : Pool) (req : RestoreRequest) (key : Key) (inode : Nat) : VM × Pool :=
  let vm : VM :=
    { ref := p.hist.restored.length, id := req.id, key := key, run := req.run, inode := inode }
  (vm, { p with hist := { p.hist with restored := p.hist.restored ++ [vm] } })

/-- One step of `warm`: create the directory, then restore one VM into it.
SRCLINE: pool.go:497-507 -/
def warmStep (p : Pool) (req : RestoreRequest) : WarmPc → Choice → Option (Pool × WarmPc)
  | .mkdir, .go => some ({ p with dirs := p.dirs.mkdirAll req.dir }, .restoring)
  | .mkdir, .fail => some (p, .failed)
  | .restoring, .go =>
    (p.dirs.lookup req.dir).map fun inode =>
      ((p.restore req req.key inode).2, .restored (p.restore req req.key inode).1)
  | .restoring, .misbound key =>
    (p.dirs.lookup req.dir).map fun inode =>
      ((p.restore req key inode).2, .restored (p.restore req key inode).1)
  | .restoring, .fail => some (p, .failed)
  | _, _ => none

/-- `removeWorkspace`; a failed call may have removed part of the tree.
SRCLINE: workspace.go:49 -/
def Pool.removeWorkspace (p : Pool) (dir : SlashPath) (ok : Bool) : Pool :=
  { p with
    dirs := if ok then p.dirs.removeAll dir else p.dirs
    hist := { p.hist with fsOps := p.hist.fsOps ++ [.removeAll dir] } }

/-- VMs still to be destroyed, the one whose `Destroy` is running, and the directories to
remove after them. -/
structure Drain where
  vms : List VM
  inDestroy : Option VM
  dirs : List SlashPath
deriving DecidableEq, Repr

/-- A batch of which nothing is done yet. -/
def Drain.ofBatch (b : ReclaimBatch) : Drain := ⟨b.vms, none, b.dirs⟩

/-- Nothing left to destroy or to remove. -/
def Drain.finished (d : Drain) : Bool := d.vms.isEmpty && d.inDestroy.isNone && d.dirs.isEmpty

/-- `Destroy` is called on `vm`. -/
def Pool.destroyCalled (p : Pool) (vm : VM) : Pool :=
  { p with hist := { p.hist with destroyCalls := p.hist.destroyCalls ++ [vm] } }

/-- `Destroy` returned from `vm`; a failure is counted and logged, nothing more. -/
def Pool.destroyReturned (p : Pool) (vm : VM) : Pool :=
  { p with hist := { p.hist with destroyReturns := p.hist.destroyReturns ++ [vm] } }

/-- One step of a loop that destroys VMs and then removes directories: `doReclaim` and the
tails of `Reclaim`, `Close`, `Probe` and `replenishOne`.
SRCLINE: sweep.go:133-145, pool.go:637-651, 733-741, replenish.go:128-138 -/
def drainStep (p : Pool) (d : Drain) (c : Choice) : Option (Pool × Drain) :=
  match d.inDestroy with
  | some vm => some (p.destroyReturned vm, { d with inDestroy := none })
  | none =>
    match d.vms, d.dirs with
    | vm :: vms, _ => some (p.destroyCalled vm, { d with vms := vms, inDestroy := some vm })
    | [], dir :: dirs =>
      some (p.removeWorkspace dir (c ≠ .fail), { d with dirs := dirs })
    | [], [] => none

/-! ## Sweeping -/

/-- How far `sweep` got. In `visiting` the goroutine holds `p.mu`. -/
inductive SweepPc where
  | start
  | lock (now : Int)
  | visiting (now : Int) (todo : List Key) (budget : Int) (b : ReclaimBatch)
  | enqueue (b : ReclaimBatch)
  | draining (d : Drain)
  | finished
deriving DecidableEq, Repr

/-- The capacity of `reclaimQ`.
SRCLINE: pool.go:173 -/
def reclaimQCap : Nat := 64

/-- What `sweep` does with the batch `sweepOnce` returned.
SRCLINE: sweep.go:114-117 -/
def SweepPc.ofBatch (b : ReclaimBatch) : SweepPc :=
  if b.vms = [] ∧ b.dirs = [] then .finished else .enqueue b

/-- One step of `sweep`, on goroutine `me`. The batch is queued, or, when the pool is
closed or the queue is full, reclaimed by the sweeping goroutine itself.
SRCLINE: sweep.go:30-131 -/
def sweepStep (p : Pool) (me : Nat) : SweepPc → Choice → Option (Pool × SweepPc)
  | .start, .go => some (p, .lock p.now)
  | .lock now, .go =>
    if p.mu.isSome then none
    else some ({ p with mu := some me },
      .visiting now (p.runs.map Prod.fst) p.cfg.maxReclaimsPerScan ⟨[], []⟩)
  | .visiting now todo budget b, .visit key d =>
    if budget ≤ 0 ∨ key ∉ todo then none
    else
      match p.sweepVisit now key d budget b with
      | (budget', b', p') => some (p', .visiting now (todo.erase key) budget' b')
  | .visiting _ todo budget b, .go =>
    if budget ≤ 0 ∨ todo = [] then some ({ p with mu := none }, .ofBatch b) else none
  | .enqueue b, .go =>
    if p.mu.isSome then none
    else if p.closed then some (p, .draining (.ofBatch b))
    else if p.reclaimQ.length < reclaimQCap then
      some ({ p with reclaimQ := p.reclaimQ ++ [b] }, .finished)
    else some (p, .draining (.ofBatch b))
  | .draining d, c =>
    if d.finished then some (p, .finished)
    else (drainStep p d c).map fun r => (r.1, .draining r.2)
  | _, _ => none

/-! ## Exec -/

/-- What `ExecPhased` returns. -/
inductive ExecOutcome where
  | ok
  | runError
  | timeout (timeoutS : Nat)
  | aborted
  | closed
  | refused (e : RefusalError)
  | keyMismatch (popped wanted : Key)
deriving DecidableEq, Repr

def defaultExecTimeoutS : Nat := 30 * 60
def maxExecTimeoutS : Nat := 4 * defaultExecTimeoutS

/-- The timeout in force, and whether it differs from the one asked for.
SRCLINE: pool.go:59-67 -/
def clampTimeoutS (timeoutS : Nat) : Nat × Bool :=
  if timeoutS = 0 then (defaultExecTimeoutS, true)
  else if timeoutS > maxExecTimeoutS then (maxExecTimeoutS, true)
  else (timeoutS, false)

/-- The arguments of one `Exec` and the state of its contexts: `deadline` is the armed
timer, `timedOut` and `ctxDone` are what `classify` reads. -/
structure ExecCall where
  key : Key
  timeoutS : Nat
  deadline : Option Int
  timedOut : Bool
  ctxDone : Bool
deriving DecidableEq, Repr

/-- Whether `runCtx` is done. -/
def ExecCall.runDone (c : ExecCall) : Bool := c.timedOut || c.ctxDone

/-- `classify`, with the outcome to use when the step's error is no cancellation.
SRCLINE: pool.go:196-204 -/
def ExecCall.classify (c : ExecCall) (otherwise : ExecOutcome) : ExecOutcome :=
  if c.timedOut then .timeout (clampTimeoutS c.timeoutS).1
  else if c.ctxDone then .aborted
  else otherwise

/-- How far `ExecPhased` got. `gated` says whether the goroutine holds the run's
`execGate`; from `destroy` on, `out` is what the call will return, none for the waiter that
gave up on the gate, which classifies its cancellation after its teardown. -/
inductive ExecPc where
  | sweep (pc : SweepPc)
  | checkKey
  | acquire
  | waitSettled (run epoch : Nat)
  | warming (run : Nat) (req : RestoreRequest) (pc : WarmPc)
  | gate (run : Nat) (vm : VM)
  | held (run : Nat) (vm : VM) (gated : Bool)
  | resuming (run : Nat) (vm : VM) (gated : Bool)
  | running (run : Nat) (vm : VM) (gated : Bool)
  | destroy (run : Nat) (vm : VM) (gated : Bool) (out : Option ExecOutcome)
  | barrier (run : Nat) (vm : VM) (gated : Bool) (out : Option ExecOutcome)
  | submit (run : Nat) (vm : VM) (gated : Bool) (out : Option ExecOutcome)
  | reaping (run : Nat) (vm : VM) (gated : Bool) (out : Option ExecOutcome)
  | teardown (run : Nat) (vm : VM) (gated : Bool) (out : Option ExecOutcome)
  | destroying (run : Nat) (vm : VM) (gated : Bool) (out : Option ExecOutcome)
  | openGate (run : Nat) (out : ExecOutcome)
  | done (out : ExecOutcome)
deriving DecidableEq, Repr

/-- What follows the teardown: the deferred receive from the gate, if it was taken. -/
def ExecPc.afterTeardown (c : ExecCall) (run : Nat) (gated : Bool) (out : Option ExecOutcome) :
    ExecPc :=
  if gated then .openGate run (out.getD (c.classify .aborted))
  else .done (out.getD (c.classify .aborted))

/-- What follows one turn of `acquire`'s loop. -/
def ExecPc.ofAcquired (c : ExecCall) : Acquired → ExecPc
  | .closed => .done (c.classify .closed)
  | .refused e => .done (c.classify (.refused e))
  | .warm run vm => .gate run vm
  | .wait run epoch => .waitSettled run epoch
  | .cold run dir id => .warming run ⟨some run, c.key, dir, id⟩ .mkdir

/-- `Reap` is called on `vm`. -/
def Pool.reapCalled (p : Pool) (vm : VM) : Pool :=
  { p with hist := { p.hist with reapCalls := p.hist.reapCalls ++ [vm] } }

/-- `Reap` returned from `vm`. -/
def Pool.reapReturned (p : Pool) (vm : VM) : Pool :=
  { p with hist := { p.hist with reapReturns := p.hist.reapReturns ++ [vm] } }

/-- One step of `ExecPhased` after its sweep.
SRCLINE: pool.go:251-381, 392-492, 513-554 -/
def execStep (p : Pool) (c : ExecCall) : ExecPc → Choice → Option (Pool × ExecCall × ExecPc)
  | .checkKey, .go =>
    match checkKey c.key with
    | .error e => some (p, c, .done (.refused e))
    | .ok () =>
      some (p, { c with deadline := some (p.now + (clampTimeoutS c.timeoutS).1 * second) },
        .acquire)
  | .acquire, .go =>
    if p.mu.isSome then none
    else some ((p.acquireLocked c.key).2, c, .ofAcquired c (p.acquireLocked c.key).1)
  | .waitSettled run epoch, .go =>
    if epoch < (p.heap run).settled then some (p, c, .acquire) else none
  | .waitSettled _ _, .abort =>
    if c.runDone then some (p, c, .done (c.classify .aborted)) else none
  | .warming run _ (.restored vm), .go =>
    if p.mu.isSome then none else some (p.settleCold run (some vm), c, .gate run vm)
  | .warming run _ .failed, .go =>
    if p.mu.isSome then none
    else some (p.settleCold run none, c,
      .done (c.classify (.refused (.restore c.key))))
  | .warming run req pc, ch =>
    (warmStep p req pc ch).map fun r => (r.1, c, .warming run req r.2)
  | .gate run vm, .go =>
    if !p.serialize then some (p, c, .held run vm false)
    else if (p.heap run).execGate then none
    else some (p.setRun run { p.heap run with execGate := true }, c, .held run vm true)
  | .gate run vm, .abort =>
    -- the waiter gives up: no gate, so the VM is torn down here and now
    if p.serialize ∧ c.runDone then
      some (p, c, .destroy run vm false none)
    else none
  | .held run vm gated, .go =>
    if vm.key ≠ c.key then some (p, c, .destroy run vm gated (some (.keyMismatch vm.key c.key)))
    else some ({ p with hist := { p.hist with resumed := p.hist.resumed ++ [vm] } }, c,
      .resuming run vm gated)
  | .resuming run vm gated, .go => some (p, c, .running run vm gated)
  | .resuming run vm gated, .fail =>
    some (p, c, .destroy run vm gated (some (c.classify (.refused (.resume c.key)))))
  | .running run vm gated, .go => some (p, c, .destroy run vm gated (some (c.classify .ok)))
  | .running run vm gated, .fail => some (p, c, .destroy run vm gated (some (c.classify .runError)))
  | .destroy run vm gated out, .go =>
    if p.mu.isSome then none
    else if p.deferrable ∧ p.reaper.isSome then
      some (p.destroyLocked c.key, c, .barrier run vm gated out)
    else some (p.destroyLocked c.key, c, .teardown run vm gated out)
  | .barrier run vm gated out, .go =>
    some ({ p with hist := { p.hist with barriers := p.hist.barriers ++ [vm] } }, c,
      .submit run vm gated out)
  | .barrier run vm gated out, .fail => some (p.reapCalled vm, c, .reaping run vm gated out)
  | .submit run vm gated out, .go =>
    match p.reaper with
    | none => none
    | some r =>
      -- a send on a closed channel panics
      if r.closed then some ({ p with crashed := true }, c, .submit run vm gated out)
      else if r.queue.length < r.workers then
        some ({ p with reaper := some { r with queue := r.queue ++ [vm] } }, c,
          .afterTeardown c run gated out)
      else some (p.reapCalled vm, c, .reaping run vm gated out)
  | .reaping run vm gated out, _ => some (p.reapReturned vm, c, .afterTeardown c run gated out)
  | .teardown run vm gated out, .go => some (p.destroyCalled vm, c, .destroying run vm gated out)
  | .destroying run vm gated out, _ =>
    some (p.destroyReturned vm, c, .afterTeardown c run gated out)
  | .openGate run out, .go =>
    some (p.setRun run { p.heap run with execGate := false }, c, .done out)
  | _, _ => none

/-! ## The other goroutines -/

/-- How far a replenish timer's callback got. `finish` is the deferred
`inFlightWarms.Done()`. -/
inductive ReplenishPc where
  | forget
  | start
  | warming (run : Nat) (req : RestoreRequest) (pc : WarmPc)
  | draining (d : Drain)
  | finish
  | done
deriving DecidableEq, Repr

/-- One step of a replenish callback.
SRCLINE: replenish.go:65-145 -/
def replenishStep (p : Pool) (key : Key) (tm : Nat) :
    ReplenishPc → Choice → Option (Pool × ReplenishPc)
  | .forget, .go => if p.mu.isSome then none else some (p.forgetPending key tm, .start)
  | .start, .go =>
    if p.mu.isSome then none
    else
      match p.replenishOneLocked key with
      | (none, p') => some (p', .done)
      | (some (run, dir, id), p') => some (p', .warming run ⟨some run, key, dir, id⟩ .mkdir)
  | .warming run _ (.restored vm), .go =>
    if p.mu.isSome then none
    else
      match p.settleReplenish run (some vm) with
      | (none, p') => some (p', .finish)
      | (some vm, p') => some (p', .draining ⟨[vm], none, []⟩)
  | .warming run _ .failed, .go =>
    if p.mu.isSome then none else some ((p.settleReplenish run none).2, .finish)
  | .warming run req pc, ch => (warmStep p req pc ch).map fun r => (r.1, .warming run req r.2)
  | .draining d, ch =>
    if d.finished then some (p, .finish)
    else (drainStep p d ch).map fun r => (r.1, .draining r.2)
  | .finish, .go => some ({ p with inFlightWarms := p.inFlightWarms - 1 }, .done)
  | _, _ => none

/-- How far the ticker's callback got. -/
inductive TickerPc where
  | sweep (pc : SweepPc)
  | rearm
  | done
deriving DecidableEq, Repr

/-- One step of the ticker's callback.
SRCLINE: sweep.go:177-181 -/
def tickerStep (p : Pool) (me : Nat) : TickerPc → Choice → Option (Pool × TickerPc)
  | .sweep .finished, .go => some (p, .rearm)
  | .sweep pc, ch => (sweepStep p me pc ch).map fun r => (r.1, .sweep r.2)
  | .rearm, .go => if p.mu.isSome then none else some (p.armTickerLocked, .done)
  | _, _ => none

/-- How far a call of `Reclaim` got. -/
inductive ReclaimPc where
  | lock
  | draining (d : Drain) (out : ReclaimOutcome)
  | done (out : ReclaimOutcome)
deriving DecidableEq, Repr

/-- One step of `Reclaim`.
SRCLINE: pool.go:614-652 -/
def reclaimStep (p : Pool) (key : Key) : ReclaimPc → Choice → Option (Pool × ReclaimPc)
  | .lock, .detach d =>
    if p.mu.isSome then none
    else
      match p.reclaimLocked key d with
      | (b, out, p') => some (p', .draining (.ofBatch b) out)
  | .draining d out, ch =>
    if d.finished then some (p, .done out)
    else (drainStep p d ch).map fun r => (r.1, .draining r.2 out)
  | _, _ => none

/-- How far a call of `Close` got. `returned true` is the return of the call that closed
the pool, `returned false` that of one that found it closed. -/
inductive ClosePc where
  | lock
  | waitWarms (victims : List VM)
  | draining (d : Drain)
  | closeQueue
  | waitReclaim
  | closeReaper
  | waitReaper
  | returned (closer : Bool)
deriving DecidableEq, Repr

/-- `p.reaper.close()` up to its wait.
SRCLINE: deferred_reap.go:95-101 -/
def Pool.closeReaper (p : Pool) : Pool :=
  { p with reaper := p.reaper.map fun r => { r with closed := true } }

/-- Whether the reaper's wait group is at zero; there is nothing to wait for without one. -/
def Pool.reaperDone (p : Pool) : Bool := p.reaper.all fun r => r.running = 0

/-- One step of `Close`.
SRCLINE: pool.go:689-757 -/
def closeStep (p : Pool) : ClosePc → Choice → Option (Pool × ClosePc)
  | .lock, .victims order =>
    if p.mu.isSome ∨ p.closed ∨ ¬ order.Perm p.standbys then none
    else some (p.closeLocked, .waitWarms order)
  | .lock, .go => if p.mu.isNone ∧ p.closed then some (p, .returned false) else none
  | .waitWarms victims, .go =>
    if p.inFlightWarms = 0 then some (p, .draining ⟨victims, none, []⟩) else none
  | .draining d, ch =>
    if d.finished then some (p, .closeQueue)
    else (drainStep p d ch).map fun r => (r.1, .draining r.2)
  | .closeQueue, .go => some ({ p with reclaimQClosed := true }, .waitReclaim)
  | .waitReclaim, .go => if p.reclaimDone = 0 then some (p, .closeReaper) else none
  | .closeReaper, .go => some (p.closeReaper, .waitReaper)
  | .waitReaper, .go => if p.reaperDone then some (p, .returned true) else none
  | _, _ => none

/-- How far the reclaim goroutine got. -/
inductive LoopPc where
  | receive
  | draining (d : Drain)
  | exited
deriving DecidableEq, Repr

/-- One step of `reclaimLoop`.
SRCLINE: sweep.go:147-152 -/
def loopStep (p : Pool) : LoopPc → Choice → Option (Pool × LoopPc)
  | .receive, .go =>
    match p.reclaimQ with
    | b :: rest => some ({ p with reclaimQ := rest }, .draining (.ofBatch b))
    | [] =>
      if p.reclaimQClosed then some ({ p with reclaimDone := p.reclaimDone - 1 }, .exited)
      else none
  | .draining d, ch =>
    if d.finished then some (p, .receive)
    else (drainStep p d ch).map fun r => (r.1, .draining r.2)
  | _, _ => none

/-- How far a reaper worker got. -/
inductive WorkerPc where
  | receive
  | reaping (vm : VM)
  | exited
deriving DecidableEq, Repr

/-- One step of a reaper worker.
SRCLINE: deferred_reap.go:58-65 -/
def workerStep (p : Pool) : WorkerPc → Choice → Option (Pool × WorkerPc)
  | .receive, .go =>
    match p.reaper with
    | none => none
    | some r =>
      match r.queue with
      | vm :: rest =>
        some ({ p with reaper := some { r with queue := rest } }.reapCalled vm, .reaping vm)
      | [] =>
        if r.closed then
          some ({ p with reaper := some { r with running := r.running - 1 } }, .exited)
        else none
  | .reaping vm, _ => some (p.reapReturned vm, .receive)
  | _, _ => none

/-- How far a call of `Probe` got. -/
inductive ProbePc where
  | lock
  | warming (req : RestoreRequest) (pc : WarmPc)
  | resume (vm : VM)
  | running (vm : VM)
  | draining (d : Drain) (ok : Bool)
  | done (ok : Bool)
deriving DecidableEq, Repr

/-- One step of `Probe`.
SRCLINE: snapshot.go:162-208 -/
def probeStep (p : Pool) : ProbePc → Choice → Option (Pool × ProbePc)
  | .lock, .go =>
    if p.mu.isSome then none
    else if p.closed then some (p, .done false)
    else some (p.nextIDLocked.2, .warming ⟨none, probeKey, probeDir p.cfg, p.nextIDLocked.1⟩ .mkdir)
  | .warming _ (.restored vm), .go => some (p, .resume vm)
  | .warming _ .failed, .go => some (p, .done false)
  | .warming req pc, ch => (warmStep p req pc ch).map fun r => (r.1, .warming req r.2)
  | .resume vm, .go =>
    some ({ p with hist := { p.hist with resumed := p.hist.resumed ++ [vm] } }, .running vm)
  | .running vm, .go => some (p, .draining ⟨[vm], none, [probeDir p.cfg]⟩ true)
  | .running vm, .fail => some (p, .draining ⟨[vm], none, [probeDir p.cfg]⟩ false)
  | .draining d ok, ch =>
    if d.finished then some (p, .done ok)
    else (drainStep p d ch).map fun r => (r.1, .draining r.2 ok)
  | _, _ => none

/-! ## The interleaving -/

/-- A goroutine. -/
inductive Thread where
  | exec (c : ExecCall) (pc : ExecPc)
  | replenish (key : Key) (tm : Nat) (pc : ReplenishPc)
  | ticker (pc : TickerPc)
  | reclaim (key : Key) (pc : ReclaimPc)
  | close (pc : ClosePc)
  | reclaimLoop (pc : LoopPc)
  | reapWorker (pc : WorkerPc)
  | probe (pc : ProbePc)
deriving DecidableEq, Repr

/-- One step of the goroutine with index `me`. -/
def threadStep (p : Pool) (me : Nat) : Thread → Choice → Option (Pool × Thread)
  | .exec c (.sweep .finished), .go => some (p, .exec c .checkKey)
  | .exec c (.sweep pc), ch => (sweepStep p me pc ch).map fun r => (r.1, .exec c (.sweep r.2))
  | .exec c pc, ch => (execStep p c pc ch).map fun r => (r.1, .exec r.2.1 r.2.2)
  | .replenish key tm pc, ch =>
    (replenishStep p key tm pc ch).map fun r => (r.1, .replenish key tm r.2)
  | .ticker pc, ch => (tickerStep p me pc ch).map fun r => (r.1, .ticker r.2)
  | .reclaim key pc, ch => (reclaimStep p key pc ch).map fun r => (r.1, .reclaim key r.2)
  | .close pc, ch => (closeStep p pc ch).map fun r => (r.1, .close r.2)
  | .reclaimLoop pc, ch => (loopStep p pc ch).map fun r => (r.1, .reclaimLoop r.2)
  | .reapWorker pc, ch => (workerStep p pc ch).map fun r => (r.1, .reapWorker r.2)
  | .probe pc, ch => (probeStep p pc ch).map fun r => (r.1, .probe r.2)

/-- The pool and every goroutine started so far. -/
structure Sys where
  pool : Pool
  threads : List Thread

/-- What can happen next: a new call, the clock, a timer, a cancelled context, or a step
of a goroutine. -/
inductive Action where
  | callExec (key : Key) (timeoutS : Nat)
  | callReclaim (key : Key)
  | callClose
  | callProbe
  | tick (d : Nat)
  | fireReplenish (tm : ReplenishTimer)
  | fireTicker
  | timeout (i : Nat)
  | cancel (i : Nat)
  | run (i : Nat) (c : Choice)
deriving DecidableEq, Repr

/-- Starts a goroutine. -/
def Sys.spawn (s : Sys) (t : Thread) : Sys := { s with threads := s.threads ++ [t] }

/-- Changes the contexts of the `Exec` on goroutine `i`. -/
def Sys.updateCall (s : Sys) (i : Nat) (f : ExecCall → Option ExecCall) : Option Sys :=
  match s.threads[i]? with
  | some (.exec c pc) => (f c).map fun c' => { s with threads := s.threads.set i (.exec c' pc) }
  | _ => none

/-- One step of the pool and its environment. -/
def sysStep (s : Sys) (a : Action) : Option Sys :=
  if s.pool.crashed then none
  else
    match a with
    | .callExec key timeoutS =>
      some (s.spawn (.exec ⟨key, timeoutS, none, false, false⟩ (.sweep .start)))
    | .callReclaim key => some (s.spawn (.reclaim key .lock))
    | .callClose => some (s.spawn (.close .lock))
    | .callProbe => some (s.spawn (.probe .lock))
    | .tick d => some { s with pool := { s.pool with now := s.pool.now + d } }
    | .fireReplenish tm =>
      if tm ∈ s.pool.timers ∧ tm.deadline ≤ s.pool.now then
        some ({ s with pool := { s.pool with timers := s.pool.timers.erase tm } }.spawn
          (.replenish tm.key tm.id .forget))
      else none
    | .fireTicker =>
      match s.pool.ticker with
      | none => none
      | some deadline =>
        if deadline ≤ s.pool.now then
          some ({ s with pool := { s.pool with ticker := none } }.spawn (.ticker (.sweep .start)))
        else none
    | .timeout i =>
      s.updateCall i fun c =>
        match c.deadline with
        | none => none
        | some deadline => if deadline ≤ s.pool.now then some { c with timedOut := true } else none
    | .cancel i => s.updateCall i fun c => some { c with ctxDone := true }
    | .run i ch =>
      match s.threads[i]? with
      | none => none
      | some t =>
        (threadStep s.pool i t ch).map fun r => ⟨r.1, s.threads.set i r.2⟩

/-! ## Starting a pool -/

/-- What the pool asks its launcher once: the hypervisor it drives, whether Execs of one
run are serialized, whether its VMs split their teardown at a barrier, and the
device-sharing check.
SRCLINE: launcher.go:82-98 -/
structure Launcher where
  kind : VMMKind
  serializesExecsPerRun : Bool
  deferredReaper : Bool
  checkDeviceSharing : Config → Bool

/-- Why `New` refuses. -/
inductive NewError where
  | config (e : ConfigError)
  | kindMismatch (launcher config : VMMKind)
  | deviceSharing
deriving DecidableEq, Repr

/-- SRCLINE: deferred_reap.go:53-68 -/
def newReaper (workers : Int) : Option Reaper :=
  if workers ≤ 0 then none else some ⟨workers.toNat, [], false, workers.toNat⟩

/-- `New`: the pool and the goroutines it starts. `now` is the clock's first reading and
`dirs` what an earlier process left on disk.
SRCLINE: pool.go:140-180 -/
def newPool (cfg : Config) (lc : Launcher) (now : Int) (dirs : DirTree) :
    Except NewError Sys :=
  match cfg.normalize with
  | .error e => .error (.config e)
  | .ok cfg =>
    if lc.kind ≠ cfg.vmm then .error (.kindMismatch lc.kind cfg.vmm)
    else if !lc.checkDeviceSharing cfg then .error .deviceSharing
    else
      let p : Pool :=
        { cfg := cfg
          serialize := lc.serializesExecsPerRun
          deferrable := lc.deferredReaper
          now := now
          mu := none
          heap := fun _ => .fresh "" ⟨false, []⟩ 0
          nextRun := 0
          runs := []
          closed := false
          seq := 0
          timers := []
          nextTimer := 0
          ticker := none
          reclaimQ := []
          reclaimQClosed := false
          reclaimDone := 1
          inFlightWarms := 0
          reaper := newReaper cfg.deferReapWorkers
          dirs := dirs
          tombstoneSeq := 0
          crashed := false
          hist := ⟨[], [], [], [], [], [], [], [], []⟩ }
      .ok ⟨p.armTickerLocked,
        .reclaimLoop .receive :: List.replicate cfg.deferReapWorkers.toNat (.reapWorker .receive)⟩

/-- Every run of a pool made from `cfg` and `lc`. -/
def poolSystem (cfg : Config) (lc : Launcher) : TransitionSystem Sys :=
  .ofStep (fun s => ∃ now dirs, newPool cfg lc now dirs = .ok s) sysStep

end ServerlessHarness.VmPool
