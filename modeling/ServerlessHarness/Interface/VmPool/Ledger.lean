import ServerlessHarness.Library.Crew
import ServerlessHarness.Model.VmPool.Pool

/-!
# The ledger: what the pool has committed and who holds which VM

The abstract model of the pool. It forgets program counters, timers and error values and
keeps the books: for each run an `Account` (its standbys, its two charges, whether its
gate is taken), for each goroutine a `Stake` (the charge and the VMs it answers for, the
directories it will remove), and the calls made so far. An `Effect` is one entry in the
books, made by one goroutine; `ledgerSystem` interleaves the effects of any number of
them.

`Interface.VmPool.Bookkeeping` proves that every step of the goroutines makes zero or more
of these entries.
-/

set_option autoImplicit false

namespace ServerlessHarness.VmPool

open Library

/-- One run's account. -/
structure Account where
  dir : SlashPath
  ready : List VM
  inFlight : Int
  warming : Int
  gate : Bool

/-- The shared books. `live` is the map from workspace keys to accounts. -/
structure Ledger where
  cfg : Config
  serialize : Bool
  locked : Bool
  live : List (Key × Nat)
  acct : Nat → Account
  nextRun : Nat
  closed : Bool
  queue : List ReclaimBatch
  queueClosed : Bool
  loops : Nat
  warms : Int
  reaper : Option Reaper
  dirs : DirTree
  hist : History

/-- What a goroutine is for. A closer's stage counts the statements of `Close` it has
passed: closed, waited for the warms, destroyed its victims, closed the queue, waited for
the reclaim goroutine, closed the reaper, waited for its workers. -/
inductive Role where
  | exec
  | replenish
  | ticker
  | reclaim
  | probe
  | closer (stage : Nat)
  | loop (exited : Bool)
  | worker (exited : Bool)
deriving DecidableEq, Repr

/-- A warming a goroutine is charged for, and the directory it restores into. -/
structure Warming where
  entry : Key × Nat
  dir : SlashPath
deriving DecidableEq, Repr

/-- What a goroutine answers for: the run charged for the VM it holds, the warming it
started, the VM that `acquire` gave it (`mine`), other VMs it holds, VMs whose `Destroy` or
`Reap` it is running, the run whose gate it holds, its registration with `inFlightWarms`,
the directories it will remove, and whether it keeps the lock between steps. -/
structure Stake where
  role : Role
  charge : Option (Key × Nat) := none
  warm : Option Warming := none
  mine : List VM := []
  vms : List VM := []
  inDestroy : List VM := []
  gate : Option Nat := none
  registered : Bool := false
  dirs : List SlashPath := []
  locked : Bool := false

/-- A goroutine that answers for nothing. -/
structure Stake.Idle (st : Stake) : Prop where
  charge : st.charge = none
  warm : st.warm = none
  mine : st.mine = []
  vms : st.vms = []
  inDestroy : st.inDestroy = []
  gate : st.gate = none
  registered : st.registered = false
  dirs : st.dirs = []

/-- A goroutine that sweeps or reclaims, and answers at most for VMs and directories it
will get rid of. -/
structure Stake.Collecting (st : Stake) : Prop where
  role : st.role = .exec ∨ st.role = .ticker ∨ st.role = .reclaim
  charge : st.charge = none
  warm : st.warm = none
  mine : st.mine = []
  inDestroy : st.inDestroy = []
  gate : st.gate = none

namespace Ledger

/-- Writes one account. -/
def post (L : Ledger) (g : Nat) (a : Account) : Ledger :=
  { L with acct := Function.update L.acct g a }

/-- The number of VMs one account holds against the budget. -/
def vms (a : Account) : Int := a.ready.length + a.inFlight + a.warming

/-- The number of VMs held against the budget. -/
def committed (L : Ledger) : Int := total (fun e => vms (L.acct e.2)) L.live

/-- The memory gate of `admitLocked`: one more VM fits.
SRCLINE: budget.go:47-54 -/
def Admits (L : Ledger) : Prop :=
  wrap64 (wrap64 (wrap64 L.committed * perVMBytes L.cfg) + perVMBytes L.cfg) ≤
    wrap64 (L.cfg.maxCommittedBytes - L.cfg.memoryReserveBytes)

/-- A new run under the key `k`. -/
def openRun (L : Ledger) (k : Key) (d : SlashPath) : Ledger :=
  { L with
    live := L.live ++ [(k, L.nextRun)]
    nextRun := L.nextRun + 1
    acct := Function.update L.acct L.nextRun ⟨d, [], 0, 0, false⟩ }

/-- The standbys of every run in the map. -/
def standbys (L : Ledger) : List VM := L.live.flatMap fun e => (L.acct e.2).ready

/-- The pool is closed and every standby taken. -/
def close (L : Ledger) : Ledger :=
  { L with
    closed := true
    acct := fun g => if g ∈ L.live.map Prod.snd then { L.acct g with ready := [] } else L.acct g }

end Ledger

/-- The goroutine restores into `d`, for a run or for the probe. -/
def Stake.Restores (st : Stake) (L : Ledger) (d : SlashPath) (run : Option Nat) : Prop :=
  (∃ w, st.warm = some w ∧ w.dir = d ∧ run = some w.entry.2) ∨
    st.role = .probe ∧ st.warm = none ∧ d = probeDir L.cfg ∧ run = none

/-- One entry in the books, by one goroutine. -/
inductive Effect : Ledger → Stake → Ledger → Stake → Prop where
  | lock {L : Ledger} {st : Stake} (free : L.locked = false) (unlocked : st.locked = false) :
      Effect L st { L with locked := true } { st with locked := true }
  | unlock {L : Ledger} {st : Stake} (locked : st.locked = true) :
      Effect L st { L with locked := false } { st with locked := false }
  | openRun {L : Ledger} {st : Stake} {k : Key} {d : SlashPath}
      (new : k ∉ L.live.map Prod.fst) (valid : validKey k = true)
      (dir : workspaceDir L.cfg k = .ok d) : Effect L st (L.openRun k d) st
  | takeReady {L : Ledger} {st : Stake} {e : Key × Nat} {r : List VM} {vm : VM}
      (live : e ∈ L.live) (ready : (L.acct e.2).ready = r ++ [vm]) (idle : st.Idle)
      (role : st.role = .exec) :
      Effect L st
        { L.post e.2 { L.acct e.2 with ready := r, inFlight := (L.acct e.2).inFlight + 1 } with
          hist := { L.hist with given := L.hist.given ++ [vm] } }
        { st with charge := some e, mine := [vm] }
  | startWarm {L : Ledger} {st : Stake} {e : Key × Nat} (live : e ∈ L.live) (admits : L.Admits)
      (idle : st.Idle) (role : st.role = .exec) :
      Effect L st
        (L.post e.2 { L.acct e.2 with warming := (L.acct e.2).warming + 1 })
        { st with warm := some ⟨e, (L.acct e.2).dir⟩ }
  | startRefill {L : Ledger} {st : Stake} {e : Key × Nat} (live : e ∈ L.live)
      (admits : L.Admits) (idle : st.Idle) (role : st.role = .replenish)
      (isOpen : L.closed = false) :
      Effect L st
        { L.post e.2 { L.acct e.2 with warming := (L.acct e.2).warming + 1 } with
          warms := L.warms + 1 }
        { st with warm := some ⟨e, (L.acct e.2).dir⟩, registered := true }
  | mkdir {L : Ledger} {st : Stake} {d : SlashPath} {run : Option Nat}
      (uses : st.Restores L d run) : Effect L st { L with dirs := L.dirs.mkdirAll d } st
  | restore {L : Ledger} {st : Stake} {vm : VM} {d : SlashPath}
      (uses : st.Restores L d vm.run) (ref : vm.ref = L.hist.restored.length)
      (inode : L.dirs.lookup d = some vm.inode) (vms : st.vms = []) :
      Effect L st
        { L with hist := { L.hist with restored := L.hist.restored ++ [vm] } }
        { st with vms := [vm] }
  | settleCold {L : Ledger} {st : Stake} {w : Warming} {vm : VM} (warm : st.warm = some w)
      (vms : st.vms = [vm]) (role : st.role = .exec) :
      Effect L st
        { L.post w.entry.2
            { L.acct w.entry.2 with
              warming := (L.acct w.entry.2).warming - 1
              inFlight := (L.acct w.entry.2).inFlight + 1 } with
          hist := { L.hist with given := L.hist.given ++ [vm] } }
        { st with warm := none, vms := [], charge := some w.entry, mine := [vm] }
  | settleFail {L : Ledger} {st : Stake} {w : Warming} (warm : st.warm = some w)
      (vms : st.vms = []) :
      Effect L st
        (L.post w.entry.2
          { L.acct w.entry.2 with warming := (L.acct w.entry.2).warming - 1 })
        { st with warm := none }
  | settleReady {L : Ledger} {st : Stake} {w : Warming} {vm : VM} (warm : st.warm = some w)
      (vms : st.vms = [vm]) (isOpen : L.closed = false) :
      Effect L st
        (L.post w.entry.2
          { L.acct w.entry.2 with
            warming := (L.acct w.entry.2).warming - 1
            ready := (L.acct w.entry.2).ready ++ [vm] })
        { st with warm := none, vms := [] }
  | settleClosed {L : Ledger} {st : Stake} {w : Warming} (warm : st.warm = some w) :
      Effect L st
        (L.post w.entry.2
          { L.acct w.entry.2 with warming := (L.acct w.entry.2).warming - 1 })
        { st with warm := none }
  | takeGate {L : Ledger} {st : Stake} {e : Key × Nat} (charge : st.charge = some e)
      (gate : st.gate = none) (free : (L.acct e.2).gate = false) :
      Effect L st (L.post e.2 { L.acct e.2 with gate := true }) { st with gate := some e.2 }
  | dropGate {L : Ledger} {st : Stake} {g : Nat} (gate : st.gate = some g)
      (mine : st.mine = []) (inDestroy : st.inDestroy = []) :
      Effect L st (L.post g { L.acct g with gate := false }) { st with gate := none }
  | resume {L : Ledger} {st : Stake} {vm : VM}
      (held : st.mine = [vm] ∧ st.charge.isSome ∧ (L.serialize = true → st.gate.isSome) ∨
        st.role = .probe ∧ st.vms = [vm] ∧ vm.run = none) :
      Effect L st { L with hist := { L.hist with resumed := L.hist.resumed ++ [vm] } } st
  | discharge {L : Ledger} {st : Stake} {e : Key × Nat} (charge : st.charge = some e) :
      Effect L st
        (L.post e.2 { L.acct e.2 with inFlight := (L.acct e.2).inFlight - 1 })
        { st with charge := none }
  | callDestroy {L : Ledger} {st : Stake} {vm : VM} {rest : List VM}
      (vms : st.vms = vm :: rest) (inDestroy : st.inDestroy = []) (warm : st.warm = none) :
      Effect L st
        { L with hist := { L.hist with destroyCalls := L.hist.destroyCalls ++ [vm] } }
        { st with vms := rest, inDestroy := [vm] }
  | callDestroyMine {L : Ledger} {st : Stake} {vm : VM} (mine : st.mine = [vm])
      (inDestroy : st.inDestroy = []) (charge : st.charge = none) :
      Effect L st
        { L with hist := { L.hist with destroyCalls := L.hist.destroyCalls ++ [vm] } }
        { st with mine := [], inDestroy := [vm] }
  | returnDestroy {L : Ledger} {st : Stake} {vm : VM} (inDestroy : st.inDestroy = [vm]) :
      Effect L st
        { L with hist := { L.hist with destroyReturns := L.hist.destroyReturns ++ [vm] } }
        { st with inDestroy := [] }
  | barrier {L : Ledger} {st : Stake} {vm : VM} (mine : st.mine = [vm]) :
      Effect L st { L with hist := { L.hist with barriers := L.hist.barriers ++ [vm] } } st
  | callReap {L : Ledger} {st : Stake} {vm : VM} (mine : st.mine = [vm])
      (inDestroy : st.inDestroy = []) (charge : st.charge = none) (reaper : L.reaper.isSome) :
      Effect L st
        { L with hist := { L.hist with reapCalls := L.hist.reapCalls ++ [vm] } }
        { st with mine := [], inDestroy := [vm] }
  | returnReap {L : Ledger} {st : Stake} {vm : VM} (inDestroy : st.inDestroy = [vm]) :
      Effect L st
        { L with hist := { L.hist with reapReturns := L.hist.reapReturns ++ [vm] } }
        { st with inDestroy := [] }
  | submit {L : Ledger} {st : Stake} {vm : VM} {r : Reaper} (mine : st.mine = [vm])
      (charge : st.charge = none) (reaper : L.reaper = some r) (isOpen : r.closed = false)
      (barrier : vm ∈ L.hist.barriers) :
      Effect L st
        { L with reaper := some { r with queue := r.queue ++ [vm] } }
        { st with mine := [] }
  | workerTake {L : Ledger} {st : Stake} {vm : VM} {rest : List VM} {r : Reaper}
      (idle : st.Idle) (role : st.role = .worker false) (reaper : L.reaper = some r)
      (queue : r.queue = vm :: rest) :
      Effect L st
        { L with
          reaper := some { r with queue := rest }
          hist := { L.hist with reapCalls := L.hist.reapCalls ++ [vm] } }
        { st with inDestroy := [vm] }
  | workerExit {L : Ledger} {st : Stake} {r : Reaper} (idle : st.Idle)
      (role : st.role = .worker false) (reaper : L.reaper = some r) (queue : r.queue = [])
      (isClosed : r.closed = true) :
      Effect L st
        { L with reaper := some { r with running := r.running - 1 } }
        { st with role := .worker true }
  | takeStandbys {L : Ledger} {st : Stake} {e : Key × Nat} {taken kept : List VM}
      (live : e ∈ L.live) (ready : (L.acct e.2).ready = taken ++ kept)
        (collecting : st.Collecting) :
      Effect L st
        (L.post e.2 { L.acct e.2 with ready := kept })
        { st with vms := st.vms ++ taken }
  | tryRename {L : Ledger} {st : Stake} {e : Key × Nat} (tomb : SlashPath) (live : e ∈ L.live)
      (inFlight : ¬ 0 < (L.acct e.2).inFlight) (warming : ¬ 0 < (L.acct e.2).warming) :
      Effect L st
        { L with
          hist := { L.hist with fsOps := L.hist.fsOps ++ [.rename (L.acct e.2).dir tomb] } } st
  | dropRun {L : Ledger} {st : Stake} {e : Key × Nat} (tomb : SlashPath) (live : e ∈ L.live)
      (inFlight : ¬ 0 < (L.acct e.2).inFlight) (warming : ¬ 0 < (L.acct e.2).warming)
      (ready : (L.acct e.2).ready = []) (absent : L.dirs.lookup (L.acct e.2).dir = none) :
      Effect L st
        { L with
          live := L.live.filter fun x => x.1 ≠ e.1
          hist := { L.hist with fsOps := L.hist.fsOps ++ [.rename (L.acct e.2).dir tomb] } } st
  | detachRun {L : Ledger} {st : Stake} {e : Key × Nat} {tomb : SlashPath} {nano : Int} {seq : Nat}
      (live : e ∈ L.live) (inFlight : ¬ 0 < (L.acct e.2).inFlight)
      (warming : ¬ 0 < (L.acct e.2).warming) (ready : (L.acct e.2).ready = [])
      (name : tomb = tombstone (L.acct e.2).dir nano seq) (collecting : st.Collecting) :
      Effect L st
        { L with
          live := L.live.filter fun x => x.1 ≠ e.1
          dirs := L.dirs.rename (L.acct e.2).dir tomb
          hist := { L.hist with fsOps := L.hist.fsOps ++ [.rename (L.acct e.2).dir tomb] } }
        { st with dirs := st.dirs ++ [tomb] }
  | enqueue {L : Ledger} {st : Stake} (isOpen : L.closed = false) (collecting : st.Collecting) :
      Effect L st { L with queue := L.queue ++ [⟨st.vms, st.dirs⟩] }
        { st with vms := [], dirs := [] }
  | dequeue {L : Ledger} {st : Stake} {b : ReclaimBatch} {rest : List ReclaimBatch}
      (idle : st.Idle) (role : st.role = .loop false) (queue : L.queue = b :: rest) :
      Effect L st { L with queue := rest } { st with vms := b.vms, dirs := b.dirs }
  | loopExit {L : Ledger} {st : Stake} (idle : st.Idle) (role : st.role = .loop false)
      (queue : L.queue = []) (isClosed : L.queueClosed = true) :
      Effect L st { L with loops := L.loops - 1 } { st with role := .loop true }
  | removeDir {L : Ledger} {st : Stake} {d : SlashPath} {rest : List SlashPath}
      (dirs : st.dirs = d :: rest) (ok : Bool) :
      Effect L st
        { L with
          dirs := if ok then L.dirs.removeAll d else L.dirs
          hist := { L.hist with fsOps := L.hist.fsOps ++ [.removeAll d] } }
        { st with dirs := rest }
  | probeDone {L : Ledger} {st : Stake} (role : st.role = .probe) (dirs : st.dirs = []) :
      Effect L st L { st with dirs := [probeDir L.cfg] }
  | unregister {L : Ledger} {st : Stake} (registered : st.registered = true)
      (warm : st.warm = none) (vms : st.vms = []) (inDestroy : st.inDestroy = []) :
      Effect L st { L with warms := L.warms - 1 } { st with registered := false }
  | close {L : Ledger} {st : Stake} {order : List VM} (isOpen : L.closed = false)
      (role : st.role = .closer 0) (idle : st.Idle) (perm : order.Perm L.standbys) :
      Effect L st L.close { st with role := .closer 1, vms := order }
  | passWarms {L : Ledger} {st : Stake} (role : st.role = .closer 1) (warms : L.warms = 0) :
      Effect L st L { st with role := .closer 2 }
  | passVictims {L : Ledger} {st : Stake} (role : st.role = .closer 2) (vms : st.vms = [])
      (inDestroy : st.inDestroy = []) : Effect L st L { st with role := .closer 3 }
  | closeQueue {L : Ledger} {st : Stake} (role : st.role = .closer 3) :
      Effect L st { L with queueClosed := true } { st with role := .closer 4 }
  | passLoop {L : Ledger} {st : Stake} (role : st.role = .closer 4) (loops : L.loops = 0) :
      Effect L st L { st with role := .closer 5 }
  | closeReaper {L : Ledger} {st : Stake} (role : st.role = .closer 5) :
      Effect L st
        { L with reaper := L.reaper.map fun r => { r with closed := true } }
        { st with role := .closer 6 }
  | passReaper {L : Ledger} {st : Stake} (role : st.role = .closer 6)
      (running : ∀ r ∈ L.reaper, r.running = 0) :
      Effect L st L { st with role := .closer 7 }

theorem Effect.frame {L L' : Ledger} {st st' : Stake} (h : Effect L st L' st') :
    L'.cfg = L.cfg ∧ L'.serialize = L.serialize ∧ L'.reaper.isSome = L.reaper.isSome ∧
      L.hist.barriers ⊆ L'.hist.barriers ∧ (L.closed = true → L'.closed = true) := by
  cases h with
  | barrier => exact ⟨rfl, rfl, rfl, List.subset_append_left _ _, id⟩
  | submit _ _ reaper | workerTake _ _ reaper | workerExit _ _ reaper =>
    exact ⟨rfl, rfl, by simp [reaper], List.Subset.refl _, id⟩
  | closeReaper => exact ⟨rfl, rfl, by simp, List.Subset.refl _, id⟩
  | close => exact ⟨rfl, rfl, rfl, List.Subset.refl _, fun _ => rfl⟩
  | _ => exact ⟨rfl, rfl, rfl, List.Subset.refl _, id⟩

/-- The roles a goroutine can be started in after `New`. -/
inductive Joins : Stake → Prop where
  | intro {role : Role} (h : role = .exec ∨ role = .replenish ∨ role = .ticker ∨
      role = .reclaim ∨ role = .probe ∨ role = .closer 0) : Joins { role := role }

/-- The books of a pool that `New` has just returned. -/
structure LedgerInit (x : Ledger × List Stake) : Prop where
  unlocked : x.1.locked = false
  live : x.1.live = []
  nextRun : x.1.nextRun = 0
  accounts : ∀ g, (x.1.acct g).gate = false ∧ (x.1.acct g).ready = []
  closed : x.1.closed = false
  queue : x.1.queue = []
  queueClosed : x.1.queueClosed = false
  loops : x.1.loops = 1
  warms : x.1.warms = 0
  reaper : ∀ r ∈ x.1.reaper, r.queue = [] ∧ r.closed = false ∧ 0 < r.running
  hist : x.1.hist = ⟨[], [], [], [], [], [], [], [], []⟩
  stakes : x.2 = { role := .loop false } ::
    List.replicate (x.1.reaper.elim 0 Reaper.running) { role := .worker false }

/-- Every interleaving of effects. -/
def ledgerSystem : TransitionSystem (Ledger × List Stake) where
  init := LedgerInit
  next := Interleave Effect Joins

end ServerlessHarness.VmPool
