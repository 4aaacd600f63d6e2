import ServerlessHarness.Model.VmPool.Goroutines

/-!
# The counters of the VM pool

The goroutines of `Model.VmPool.Goroutines` with the counters behind `Stats`: the warm and cold
acquires and the failed destroys. The counters have a lock of their own and no goroutine reads
them, so they are kept beside the pool, together with what each goroutine knows about them: the
local variables of its `acquire`, and the write to a counter that is its next statement (`owed`). A
goroutine that owes a write makes it before anything else; other goroutines may run in between.

The counters are `uint64` in the source and natural numbers here. `Tally` and `failures` record
what was counted on behalf of which call, for the statements only.
-/

set_option autoImplicit false

namespace ServerlessHarness.VmPool

open Library

/-- Why an acquire was cold.
SRCLINE: errors.go:89-95 -/
inductive ColdCause where
  | firstExec
  | parked
  | exhausted
deriving DecidableEq, Repr

/-- SRCLINE: stats.go:45-55 -/
structure Counters where
  warm : Nat
  cold : ColdCause → Nat
  destroyFailures : Nat

/-- SRCLINE: stats.go:57-59 -/
def newCounters : Counters := ⟨0, fun _ => 0, 0⟩

/-- SRCLINE: stats.go:61 -/
def Counters.warmAcquire (n : Counters) : Counters := { n with warm := n.warm + 1 }

/-- SRCLINE: stats.go:63 -/
def Counters.coldAcquire (n : Counters) (cause : ColdCause) : Counters :=
  { n with cold := Function.update n.cold cause (n.cold cause + 1) }

/-- SRCLINE: stats.go:71 -/
def Counters.destroyFailed (n : Counters) : Counters :=
  { n with destroyFailures := n.destroyFailures + 1 }

/-- The cold acquires of every cause. -/
def Counters.coldTotal (n : Counters) : Nat :=
  n.cold .firstExec + n.cold .parked + n.cold .exhausted

/-! ## Acquiring -/

/-- The variables of `acquire` that live across the turns of its loop.
SRCLINE: pool.go:393-394 -/
structure AcquireLocals where
  counted : Bool
  cause : Option ColdCause
deriving DecidableEq, Repr

/-- One turn of `acquire`'s loop: how it ends, the pool after it, the variables, the argument of the
`coldAcquire` that it calls under the lock, and whether it calls `warmAcquire` after the lock. -/
structure Turn where
  acquired : Acquired
  pool : Pool
  locals : AcquireLocals
  cold : Option ColdCause
  warm : Bool

/-- One turn of `acquire`'s loop with what it counts.
SRCLINE: pool.go:396-459 -/
def Pool.acquireTurn (p : Pool) (key : Key) (v : AcquireLocals) : Turn :=
  if p.closed then ⟨.closed, p, v, none, false⟩
  else
    let fresh := (p.runs.lookup key).isNone
    match p.runLocked key with
    | .error e => ⟨.refused e, p, v, none, false⟩
    | .ok (g, p) =>
      let rp := { p.heap g with lastExec := p.now }
      match rp.ready.getLast? with
      | some vm =>
        let rp' := { rp with ready := rp.ready.dropLast, inFlight := rp.inFlight + 1 }
        let p' := p.setRun g rp'
        ⟨.warm g vm, { p' with hist := { p'.hist with given := p'.hist.given ++ [vm] } }, v, none,
          !v.counted⟩
      | none =>
        let cause : ColdCause :=
          if fresh then .firstExec else if rp.parked then .parked else .exhausted
        let cold := if v.counted then none else some cause
        let v := if v.counted then v else ⟨true, some cause⟩
        let rp := { rp with parked := false }
        let p := p.setRun g rp
        if rp.warming > 0 then ⟨.wait g rp.settled, p, v, cold, false⟩
        else
          match p.admitLocked false with
          | .error e => ⟨.refused e, p, v, cold, false⟩
          | .ok () =>
            let (id, p) := p.nextIDLocked
            ⟨.cold g rp.dir id, p.setRun g { rp with warming := rp.warming + 1 }, v, cold, false⟩

/-! ## Teardown calls -/

/-- The goroutine is inside a call of `Destroy` or of `Reap`. -/
def Thread.tearsDown : Thread → Bool
  | .exec _ (.sweep (.draining d)) => d.inDestroy.isSome
  | .exec _ (.reaping _ _ _ _) => true
  | .exec _ (.destroying _ _ _ _) => true
  | .replenish _ _ (.draining d) => d.inDestroy.isSome
  | .ticker (.sweep (.draining d)) => d.inDestroy.isSome
  | .reclaim _ (.draining d _) => d.inDestroy.isSome
  | .close (.draining d) => d.inDestroy.isSome
  | .reclaimLoop (.draining d) => d.inDestroy.isSome
  | .reapWorker (.reaping _) => true
  | .probe (.draining d _) => d.inDestroy.isSome
  | _ => false

/-! ## The goroutines with their counters -/

/-- A write to a counter that a goroutine makes with its next statement. -/
inductive Owed where
  | warmAcquire
  | destroyFailed
deriving DecidableEq, Repr

/-- What the `acquire` of one goroutine did so far: the turns of its loop, the VM it returned, the
turn in which it took a ready VM, and what it added to the counters. -/
structure Tally where
  turns : Nat
  vm : Option VM
  took : Option Nat
  warm : Nat
  cold : Nat
deriving DecidableEq, Repr

/-- What a goroutine knows about the counters. `submitted` says that its `Exec` has handed its VM to
`reaper.submit`: a `Reap` that it calls after that is the one of `reaper.run`. -/
structure Notes where
  locals : AcquireLocals
  owed : Option Owed
  submitted : Bool
  tally : Tally
deriving DecidableEq, Repr

/-- The notes of a new goroutine. -/
def Notes.fresh : Notes := ⟨⟨false, none⟩, none, false, ⟨0, none, none, 0, 0⟩⟩

/-- The call that the goroutine is in is the `Reap` of `reaper.run`, by a worker of the reaper or,
with the queue full, by the `Exec` that submits its VM.
SRCLINE: deferred_reap.go:58-87 -/
def Notes.inReaper (n : Notes) : Thread → Bool
  | .exec _ (.reaping _ _ _ _) => n.submitted
  | .reapWorker (.reaping _) => true
  | _ => false

/-- The tally after a turn of the loop. -/
def Tally.turn (n : Tally) (t : Turn) : Tally :=
  { n with
    turns := n.turns + 1
    vm := match t.acquired with
      | .warm _ vm => some vm
      | _ => n.vm
    took := match t.acquired with
      | .warm _ _ => some (n.turns + 1)
      | _ => n.took
    cold := n.cold + t.cold.toList.length }

/-- The notes after a turn of the loop. -/
def Notes.turn (n : Notes) (t : Turn) : Notes :=
  { n with
    locals := t.locals
    owed := if t.warm then some .warmAcquire else none
    tally := n.tally.turn t }

/-- The notes of a goroutine after a step of it. The error of a `Destroy`, and that of the `Reap`
after an unobserved barrier, is counted with the next statement; that of `reaper.run` is logged
only.
SRCLINE: pool.go:396-492, 532-553, 637-642, 734-741, sweep.go:133-138, replenish.go:134-137,
snapshot.go:191-196, deferred_reap.go:72-76 -/
def Notes.after (n : Notes) (p : Pool) (ch : Choice) : Thread → Notes
  | .exec c .acquire => n.turn (p.acquireTurn c.key n.locals)
  | .exec _ (.warming _ _ (.restored vm)) => { n with tally := { n.tally with vm := some vm } }
  | .exec _ (.submit _ _ _ _) => { n with submitted := true }
  | t =>
    if t.tearsDown ∧ ch = .fail ∧ ¬n.inReaper t then { n with owed := some .destroyFailed } else n

/-- The write that a goroutine owed. -/
def Counters.pay (n : Counters) : Owed → Counters
  | .warmAcquire => n.warmAcquire
  | .destroyFailed => n.destroyFailed

/-- The notes after the write that the goroutine owed. -/
def Notes.paid (n : Notes) : Owed → Notes
  | .warmAcquire => { n with owed := none, tally := { n.tally with warm := n.tally.warm + 1 } }
  | .destroyFailed => { n with owed := none }

/-- What a step of a goroutine writes to the counters under `p.mu`. -/
def Counters.after (n : Counters) (p : Pool) (v : AcquireLocals) : Thread → Counters
  | .exec c .acquire => (p.acquireTurn c.key v).cold.elim n n.coldAcquire
  | _ => n

/-- The pool, its goroutines and its counters. `failures` is the number of calls of `Destroy` and
`Reap` that returned an error. -/
structure Counted where
  sys : Sys
  counters : Counters
  notes : List Notes
  failures : Nat

/-- The goroutine makes the write that it owes. -/
def Counted.pay (s : Counted) (i : Nat) (n : Notes) (o : Owed) : Counted :=
  { s with counters := s.counters.pay o, notes := s.notes.set i (n.paid o) }

/-- A step of goroutine `i` from `t`, which leads to `sys`. -/
def Counted.note (s : Counted) (i : Nat) (n : Notes) (t : Thread) (ch : Choice) (sys : Sys) :
    Counted where
  sys := sys
  counters := s.counters.after s.sys.pool n.locals t
  notes := s.notes.set i (n.after s.sys.pool ch t)
  failures := if t.tearsDown ∧ ch = .fail then s.failures + 1 else s.failures

/-- One step of the pool, its counters and its environment. -/
def countStep (s : Counted) : Action → Option Counted
  | .run i ch =>
    match s.sys.threads[i]?, s.notes[i]? with
    | some t, some n =>
      match n.owed with
      | some o => some (s.pay i n o)
      | none => (sysStep s.sys (.run i ch)).map (s.note i n t ch)
    | _, _ => none
  | a =>
    (sysStep s.sys a).map fun sys =>
      { s with
        sys := sys
        notes := s.notes ++ List.replicate (sys.threads.length - s.notes.length) .fresh }

/-- A new pool with its counters at zero. -/
def Counted.new (sys : Sys) : Counted :=
  ⟨sys, newCounters, List.replicate sys.threads.length .fresh, 0⟩

/-- A pool made from `cfg` and `lc`, before its first step. -/
def Counted.Starts (cfg : Config) (lc : Launcher) (s : Counted) : Prop :=
  ∃ now dirs sys, newPool cfg lc now dirs = .ok sys ∧ s = .new sys

/-- Every run of a pool made from `cfg` and `lc`, with its counters. -/
def countedSystem (cfg : Config) (lc : Launcher) : TransitionSystem Counted :=
  .ofStep (Counted.Starts cfg lc) countStep

end ServerlessHarness.VmPool
