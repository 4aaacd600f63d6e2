import ServerlessHarness.Analysis.VmPool.Closing
import ServerlessHarness.Analysis.VmPool.Custody
import ServerlessHarness.Analysis.VmPool.Directories
import ServerlessHarness.Analysis.VmPool.Gates
import ServerlessHarness.Interface.VmPool.Bookkeeping

/-!
# What the results say about a pool

The vocabulary of the main results, read off the goroutines' program counters: which VMs a
goroutine owns, which one an `Exec` holds before its teardown, which restore it runs. Each
notion is tied to the ledger once, by a case analysis over the program counters, and the
conservation laws of the ledger are restated with lists of VMs.
-/

set_option autoImplicit false

namespace ServerlessHarness.VmPool

open Library

/-- The VMs of the batch that a sweeping goroutine carries. -/
def SweepPc.vms : SweepPc → List VM
  | .visiting _ _ _ b => b.vms
  | .enqueue b => b.vms
  | .draining d => d.vms
  | _ => []

/-- The VM held by an `Exec` that has not started its teardown. -/
def Thread.heldVM : Thread → Option VM
  | .exec _ (.gate _ vm) | .exec _ (.held _ vm _) | .exec _ (.resuming _ vm _)
  | .exec _ (.running _ vm _) | .exec _ (.destroy _ vm _ _) => some vm
  | _ => none

/-- The restore that a goroutine runs for an `Exec` or for a replenishment. -/
def Thread.restore : Thread → Option WarmPc
  | .exec _ (.warming _ _ pc) => some pc
  | .replenish _ _ (.warming _ _ pc) => some pc
  | _ => none

/-- The VMs that a goroutine owns: what it restored and has not handed on, the VM of its
`Exec` up to the call that ends it, the batch of its sweep, its victims. -/
def Thread.owned : Thread → List VM
  | .exec _ (.sweep pc) => pc.vms
  | .exec _ (.warming _ _ pc) => pc.vms
  | .exec _ (.gate _ vm) | .exec _ (.held _ vm _) | .exec _ (.resuming _ vm _)
  | .exec _ (.running _ vm _) | .exec _ (.destroy _ vm _ _) | .exec _ (.barrier _ vm _ _)
  | .exec _ (.submit _ vm _ _) | .exec _ (.teardown _ vm _ _) => [vm]
  | .replenish _ _ (.warming _ _ pc) => pc.vms
  | .replenish _ _ (.draining d) => d.vms
  | .ticker (.sweep pc) => pc.vms
  | .reclaim _ (.draining d _) => d.vms
  | .close (.waitWarms victims) => victims
  | .close (.draining d) => d.vms
  | .reclaimLoop (.draining d) => d.vms
  | .probe (.warming _ pc) => pc.vms
  | .probe (.resume vm) | .probe (.running vm) => [vm]
  | .probe (.draining d _) => d.vms
  | _ => []

/-- The VM whose `Destroy` or `Reap` a goroutine is running. -/
def Thread.calling : Thread → List VM
  | .exec _ (.sweep (.draining d)) => d.inDestroy.toList
  | .exec _ (.reaping _ vm _ _) | .exec _ (.destroying _ vm _ _) => [vm]
  | .replenish _ _ (.draining d) => d.inDestroy.toList
  | .ticker (.sweep (.draining d)) => d.inDestroy.toList
  | .reclaim _ (.draining d _) => d.inDestroy.toList
  | .close (.draining d) => d.inDestroy.toList
  | .reclaimLoop (.draining d) => d.inDestroy.toList
  | .reapWorker (.reaping vm) => [vm]
  | .probe (.draining d _) => d.inDestroy.toList
  | _ => []

/-- What a goroutine owns and destroys, in the ledger's terms. -/
theorem Thread.vms_eq (t : Thread) :
    t.owned = t.stake.mine ++ t.stake.vms ∧ t.calling = t.stake.inDestroy := by
  cases t with
  | exec c pc =>
    cases pc with
    | sweep pc => cases pc <;> exact ⟨rfl, rfl⟩
    | _ => exact ⟨rfl, rfl⟩
  | ticker pc =>
    cases pc with
    | sweep pc => cases pc <;> exact ⟨rfl, rfl⟩
    | _ => exact ⟨rfl, rfl⟩
  | close pc =>
    cases pc with
    | returned closer => cases closer <;> exact ⟨rfl, rfl⟩
    | _ => exact ⟨rfl, rfl⟩
  | replenish key tm pc | reclaim key pc | reclaimLoop pc | reapWorker pc | probe pc =>
    cases pc <;> exact ⟨rfl, rfl⟩

theorem Thread.role_eq (t : Thread) :
    match t with
    | .exec _ _ => t.stake.role = .exec
    | .replenish _ _ _ => t.stake.role = .replenish
    | .ticker _ => t.stake.role = .ticker
    | .reclaim _ _ => t.stake.role = .reclaim
    | .probe _ => t.stake.role = .probe
    | .close _ => ∃ n, t.stake.role = .closer n
    | .reclaimLoop _ => ∃ b, t.stake.role = .loop b
    | .reapWorker _ => ∃ b, t.stake.role = .worker b := by
  cases t with
  | exec c pc =>
    cases pc with
    | sweep pc => cases pc <;> rfl
    | _ => rfl
  | ticker pc =>
    cases pc with
    | sweep pc => cases pc <;> rfl
    | _ => rfl
  | close pc =>
    cases pc with
    | returned closer => cases closer <;> exact ⟨_, rfl⟩
    | _ => exact ⟨_, rfl⟩
  | replenish key tm pc | reclaim key pc | probe pc => cases pc <;> rfl
  | reclaimLoop pc | reapWorker pc => cases pc <;> exact ⟨_, rfl⟩

theorem Thread.charges (t : Thread) :
    t.stake.charged (fun _ => 1) = total (fun _ => 1) t.heldVM.toList ∧
    t.stake.warmed (fun _ => 1) = total (fun _ => 1) t.restore.toList ∧
    (t.heldVM.toList ++ t.restore.toList.flatMap WarmPc.vms).Sublist t.owned := by
  cases t with
  | exec c pc =>
    cases pc with
    | sweep pc => exact ⟨by cases pc <;> rfl, by cases pc <;> rfl, List.nil_sublist _⟩
    | warming run req pc => exact ⟨rfl, rfl, by simp [heldVM, restore, owned]⟩
    | gate | held | resuming | running | destroy => exact ⟨rfl, rfl, List.Sublist.refl _⟩
    | _ => exact ⟨rfl, rfl, List.nil_sublist _⟩
  | replenish key tm pc =>
    cases pc with
    | warming run req pc => exact ⟨rfl, rfl, by simp [heldVM, restore, owned]⟩
    | _ => exact ⟨rfl, rfl, List.nil_sublist _⟩
  | ticker pc =>
    cases pc with
    | sweep pc => exact ⟨by cases pc <;> rfl, by cases pc <;> rfl, List.nil_sublist _⟩
    | _ => exact ⟨rfl, rfl, List.nil_sublist _⟩
  | close pc =>
    cases pc with
    | returned closer =>
      exact ⟨by cases closer <;> rfl, by cases closer <;> rfl, List.nil_sublist _⟩
    | _ => exact ⟨rfl, rfl, List.nil_sublist _⟩
  | reclaim key pc | reclaimLoop pc | reapWorker pc | probe pc =>
    cases pc <;> exact ⟨rfl, rfl, List.nil_sublist _⟩

/-! ## A small pool to run -/

/-- Room for a few VMs, one standby for each run, one VM in a sweep, and the given number of reap
workers. -/
def smallConfig (reapWorkers : Int) : Config where
  vmm := .fakeVMM
  snapshotDir := "/snapshot"
  workspaceRoot := "/work"
  standbyDepth := 1
  deferReapWorkers := reapWorkers
  guestRAMBytes := 0
  maxRuns := 2
  maxCommittedBytes := 2 ^ 30
  memoryReserveBytes := 0
  vmOverheadBytes := 0
  standbyIdle := 0
  workspaceIdle := 0
  replenishDelay := 0
  reclaimScanInterval := 0
  maxReclaimsPerScan := 1

/-- A launcher that serializes the Execs of a run. -/
def smallLauncher : Launcher := ⟨.fakeVMM, true, true, fun _ => true⟩

/-- Runs the actions on a new small pool with an empty disk. -/
def runSmall (reapWorkers : Int) (as : List Action) : Option Sys :=
  (newPool (smallConfig reapWorkers) smallLauncher 0 .empty).toOption.bind fun s =>
    runActions sysStep s as

theorem exists_runActions_of_small {τ : Type} (step : τ → Action → Option τ) (f : Sys → τ)
    (reapWorkers : Int)
    (as : List Action) (P : τ → Bool)
    (h : ((newPool (smallConfig reapWorkers) smallLauncher 0 .empty).toOption.bind fun s =>
      runActions step (f s) as).map P = some true) :
    ∃ s x, newPool (smallConfig reapWorkers) smallLauncher 0 .empty = .ok s ∧
      runActions step (f s) as = some x ∧ P x = true := by
  cases hnew : newPool (smallConfig reapWorkers) smallLauncher 0 .empty with
  | error e => simp [hnew, Except.toOption] at h
  | ok s =>
    rw [hnew] at h
    obtain ⟨x, hx, hP⟩ := Option.map_eq_some_iff.mp h
    exact ⟨s, x, rfl, hx, hP⟩

theorem exists_reachable_of_small {τ : Type} {init : τ → Prop} (step : τ → Action → Option τ)
    (f : Sys → τ)
    (reapWorkers : Int)
    (hinit : ∀ s, newPool (smallConfig reapWorkers) smallLauncher 0 .empty = .ok s → init (f s))
    (as : List Action) (P : τ → Bool)
    (h : ((newPool (smallConfig reapWorkers) smallLauncher 0 .empty).toOption.bind fun s =>
      runActions step (f s) as).map P = some true) :
    ∃ x, Reachable (.ofStep init step) x ∧ P x = true := by
  obtain ⟨s, x, hnew, hrun, hP⟩ := exists_runActions_of_small step f reapWorkers as P h
  exact ⟨x, reachable_of_runActions (.init (hinit s hnew)) hrun, hP⟩

theorem exists_reachable_of_runSmall (reapWorkers : Int) (as : List Action) (P : Sys → Bool)
    (h : (runSmall reapWorkers as).map P = some true) :
    ∃ s, Reachable (poolSystem (smallConfig reapWorkers) smallLauncher) s ∧ P s = true :=
  exists_reachable_of_small sysStep id reapWorkers (fun _ hnew => ⟨0, .empty, hnew⟩) as P h

/-- The run of "a" has one standby, and the clock is 90 seconds past its last `Exec`. -/
def standbyA : List Action :=
  .callExec "a" 0 :: List.replicate 17 (.run 1 .go) ++
    [.tick 200000000, .fireReplenish ⟨0, "a", 200000000⟩] ++ List.replicate 6 (.run 2 .go) ++
    [.tick 90000000000]

/-! ## What never changes -/

theorem ledger_frame {x y : Ledger × List Stake} (h : Relation.ReflTransGen ledgerSystem.next x y) :
    y.1.cfg = x.1.cfg ∧ y.1.serialize = x.1.serialize ∧
      y.1.reaper.isSome = x.1.reaper.isSome := by
  induction h with
  | refl => exact ⟨rfl, rfl, rfl⟩
  | tail _ step ih =>
    rcases step with ⟨-, step⟩ | -
    · obtain ⟨cfg, serialize, reaper, -, -⟩ := step.frame
      exact ⟨cfg.trans ih.1, serialize.trans ih.2.1, reaper.trans ih.2.2⟩
    · exact ih

/-- What no step changes. -/
theorem frame_of_pool {cfg : Config} {lc : Launcher} {s : Sys}
    (h : Reachable (poolSystem cfg lc) s) :
    cfg.normalize = .ok s.pool.cfg ∧ s.pool.serialize = lc.serializesExecsPerRun ∧
      s.pool.reaper.isSome = decide (0 < s.pool.cfg.deferReapWorkers) := by
  refine h.invariant (P := fun s => cfg.normalize = .ok s.pool.cfg ∧
    s.pool.serialize = lc.serializesExecsPerRun ∧
      s.pool.reaper.isSome = decide (0 < s.pool.cfg.deferReapWorkers)) ?_ ?_
  · rintro s ⟨now, dirs, hnew⟩
    unfold newPool at hnew
    split at hnew
    · cases hnew
    · rename_i cfg' hcfg
      split at hnew
      · cases hnew
      · split at hnew
        · cases hnew
        · cases hnew
          refine ⟨hcfg, rfl, ?_⟩
          show (newReaper cfg'.deferReapWorkers).isSome = decide (0 < cfg'.deferReapWorkers)
          unfold newReaper
          split
          · simp; omega
          · simp; omega
  · intro s t hs ⟨hcfg, hserialize, hreaper⟩ hstep
    obtain ⟨hA, hok⟩ := (pool_refines cfg lc).reachable hs
    obtain ⟨cfg', serialize', reaper'⟩ :=
      ledger_frame ((pool_refines cfg lc).step s t hA hok hstep).1
    have hcfg' : t.pool.cfg = s.pool.cfg := cfg'
    refine ⟨by rw [hcfg, hcfg'], serialize'.trans hserialize, ?_⟩
    rw [hcfg', ← hreaper]
    exact reaper'

/-! ## The invariants of the ledger, of a pool -/

/-- The VMs that the pool's ready lists, its goroutines and its queues hold. -/
def Sys.held (s : Sys) : List VM :=
  s.pool.standbys ++ s.threads.flatMap Thread.owned ++ s.pool.reclaimQ.flatMap ReclaimBatch.vms ++
    s.pool.reaper.elim [] Reaper.queue

section

variable {cfg : Config} {lc : Launcher} {s : Sys} (h : Reachable (poolSystem cfg lc) s)
include h

/-- The counters of a pool are those of its goroutines. -/
theorem books_of_pool : Books s.pool.ledger (s.threads.map Thread.stake) :=
  books_of_reachable ((pool_refines cfg lc).reachable h).1

/-- Every VM has one owner. -/
theorem custody_of_pool : Custody s.pool.ledger (s.threads.map Thread.stake) :=
  custody_of_reachable ((pool_refines cfg lc).reachable h).1

theorem closing_of_pool : Closing s.pool.ledger (s.threads.map Thread.stake) :=
  closing_of_reachable ((pool_refines cfg lc).reachable h).1

theorem gates_of_pool : Gates s.pool.ledger (s.threads.map Thread.stake) :=
  gates_of_reachable ((pool_refines cfg lc).reachable h).1

theorem directories_of_pool : Directories s.pool.ledger :=
  directories_of_reachable ((pool_refines cfg lc).reachable h).1

/-- INTERNAL: **every VM is in one place**: the ready lists, the goroutines, the queues and the
calls of `Destroy` and `Reap` together hold each restored VM exactly once, and no other. -/
theorem held_perm_restored :
    (s.held ++ s.pool.hist.destroyCalls ++ s.pool.hist.reapCalls).Perm s.pool.hist.restored := by
  have owned : s.threads.flatMap Thread.owned =
      (s.threads.map Thread.stake).flatMap fun st => st.mine ++ st.vms := by
    rw [List.flatMap_map]
    exact List.flatMap_congr fun t _ => t.vms_eq.1
  unfold Sys.held
  rw [owned]
  exact held_perm (custody_of_pool h).held

theorem restored_nodup : s.pool.hist.restored.Nodup :=
  (custody_of_pool h).restored_nodup

end

end ServerlessHarness.VmPool
