import ServerlessHarness.Interface.VmPool.Observations

/-!
# Workspaces are not shared and not pulled away

Two results about the directories of a pool. At most one resumed VM is bound to the inode of
a workspace (`one_resumed_per_inode`): the directory's inode determines the run
(`Directories.sameRun`) and the run's gate lets one VM through (`Gates.resumed_unique`). And
what a sweep or a `Reclaim` renames or removes is in nobody's use
(`removals_spare_used_directories`): a rename takes the directory of a run without charges,
a removal that comes later names a tombstone, which is no run's directory.
-/

set_option autoImplicit false

namespace ServerlessHarness.VmPool

open Library

/-! ## One resumed VM for each workspace -/

/-- INTERNAL: **at most one VM that was resumed and is not torn down is bound to the inode of a
workspace**, when the launcher serializes the Execs of a run.
SRCLINE: pool.go:283-381, workspace.go:86-99 -/
theorem one_resumed_per_inode {cfg : Config} {lc : Launcher} {s : Sys}
    (serialize : lc.serializesExecsPerRun = true) (h : Reachable (poolSystem cfg lc) s) {v w : VM}
    (hv : v ∈ s.pool.hist.resumed) (hw : w ∈ s.pool.hist.resumed)
    (torn : ¬ s.pool.hist.TornDown v) (torn' : ¬ s.pool.hist.TornDown w)
    (hrun : v.run ≠ none) (same : v.inode = w.inode) : v = w := by
  have restored := (custody_of_pool h).resumed
  have hsame : v.run = w.run :=
    (directories_of_pool h).sameRun v (restored v hv) w (restored w hw) same
  have hserialize : s.pool.serialize = true := (frame_of_pool h).2.1.trans serialize
  exact (gates_of_pool h).resumed_unique (books_of_pool h) hserialize hv hw torn torn' hrun hsame

/-- The second `Exec` of a run holds a VM on the same inode and waits at the gate. -/
theorem one_resumed_per_inode_waiting :
    ∃ s v u, Reachable (poolSystem (smallConfig 0) smallLauncher) s ∧
      v ∈ s.pool.hist.resumed ∧ u ∈ s.pool.hist.restored ∧ u ≠ v ∧ u.inode = v.inode ∧
      ∀ w ∈ s.pool.hist.resumed, ¬ s.pool.hist.TornDown w → v.inode = w.inode → v = w := by
  obtain ⟨s, hs, hP⟩ := exists_reachable_of_runSmall 0
    (.callExec "a" 0 :: List.replicate 12 (.run 1 .go) ++
      [.callExec "a" 0, .run 2 .go, .run 2 .go, .run 2 (.visit "a" ⟨0, false⟩)] ++
      List.replicate 7 (.run 2 .go))
    (fun s => decide (∃ v ∈ s.pool.hist.resumed, ∃ u ∈ s.pool.hist.restored,
      u ≠ v ∧ u.inode = v.inode ∧ v.run ≠ none ∧
        ¬ (v ∈ s.pool.hist.destroyReturns ∨ v ∈ s.pool.hist.barriers ∨
          v ∈ s.pool.hist.reapReturns)))
    (by decide +kernel)
  obtain ⟨v, hv, u, hu, hne, hinode, hrun, torn⟩ := of_decide_eq_true hP
  refine ⟨s, v, u, hs, hv, hu, hne, hinode, ?_⟩
  intro w hw torn' same
  exact one_resumed_per_inode rfl hs hv hw torn torn' hrun same

/-! ## What a step renames or removes -/

/-- The calls that one step of a goroutine makes on the filesystem: none, the removal of a
directory it answers for, or the rename of the directory of a run without charges, which
leaves the map unless nothing was renamed. -/
inductive FsOps (p : Pool) (dirs : List SlashPath) (p' : Pool) : List FsOp → Prop where
  | none : FsOps p dirs p' []
  | remove {d : SlashPath} (mem : d ∈ dirs) : FsOps p dirs p' [.removeAll d]
  | rename {e : Key × Nat} (nano : Int) (seq : Nat) (live : e ∈ p.runs)
      (idle : ¬ (p.heap e.2).busy = true) (gone : e ∉ p'.runs ∨ p'.dirs = p.dirs) :
      FsOps p dirs p' [.rename (p.heap e.2).dir (tombstone (p.heap e.2).dir nano seq)]

/-- The step adds calls of that form to the record. -/
def Pool.Records (p : Pool) (dirs : List SlashPath) (p' : Pool) : Prop :=
  ∃ new, p'.hist.fsOps = p.hist.fsOps ++ new ∧ FsOps p dirs p' new

variable {p p' : Pool} {ch : Choice} {dirs : List SlashPath} {t : Thread} {key : Key}
  {d : Detach} {me : Nat} {new : List FsOp}

theorem Pool.Records.of_eq (h : p'.hist.fsOps = p.hist.fsOps) : p.Records dirs p' :=
  ⟨[], by simp [h], .none⟩

theorem Pool.scheduleReplenishLocked_hist (p : Pool) (g : Nat) :
    (p.scheduleReplenishLocked g).hist = p.hist := by
  unfold scheduleReplenishLocked
  dsimp only
  split
  · rfl
  · split <;> rfl

theorem Pool.acquireLocked_fsOps (p : Pool) (key : Key) :
    (p.acquireLocked key).2.hist.fsOps = p.hist.fsOps := by
  unfold acquireLocked
  split
  · rfl
  · split
    · rfl
    · rename_i g p₁ hrun
      have hist : p₁.hist = p.hist := by
        unfold runLocked at hrun
        split at hrun
        · cases hrun
          rfl
        · split at hrun
          · cases hrun
          · split at hrun
            · cases hrun
            · cases hrun
              rfl
      dsimp only
      split
      · simp [setRun, hist]
      · split
        · simp [setRun, hist]
        · split <;> simp [setRun, nextIDLocked, hist]

theorem Pool.settleCold_fsOps (p : Pool) (g : Nat) (vm : Option VM) :
    (p.settleCold g vm).hist.fsOps = p.hist.fsOps := by
  cases vm <;> rfl

theorem Pool.destroyLocked_fsOps (p : Pool) (key : Key) :
    (p.destroyLocked key).hist.fsOps = p.hist.fsOps := by
  unfold destroyLocked
  split
  · rfl
  · simp only [scheduleReplenishLocked_hist]
    rfl

theorem Pool.replenishOneLocked_fsOps (p : Pool) (key : Key) :
    (p.replenishOneLocked key).2.hist.fsOps = p.hist.fsOps := by
  unfold replenishOneLocked
  split
  · rfl
  · dsimp only
    split
    · rfl
    · split
      · rfl
      · split
        · simp only [scheduleReplenishLocked_hist]
          rfl
        · rfl

theorem Pool.settleReplenish_fsOps (p : Pool) (g : Nat) (vm : Option VM) :
    (p.settleReplenish g vm).2.hist.fsOps = p.hist.fsOps := by
  unfold settleReplenish
  dsimp only
  split
  · simp only [scheduleReplenishLocked_hist]
    rfl
  · split
    · rfl
    · simp only [scheduleReplenishLocked_hist]
      rfl

theorem Pool.forgetPending_fsOps (p : Pool) (key : Key) (tm : Nat) :
    (p.forgetPending key tm).hist.fsOps = p.hist.fsOps := by
  unfold forgetPending
  split <;> rfl

theorem warmStep_fsOps {req : RestoreRequest} {pc pc' : WarmPc}
    (h : warmStep p req pc ch = some (p', pc')) : p'.hist.fsOps = p.hist.fsOps := by
  unfold warmStep at h
  split at h
  case h_3 | h_4 =>
    obtain ⟨inode, -, heq⟩ := Option.map_eq_some_iff.mp h
    cases heq
    rfl
  all_goals cases h <;> rfl

theorem Pool.detachWorkspace_records {p₁ p₂ : Pool} {g : Nat} {r : Option (Option SlashPath)}
    (live : (key, g) ∈ p.runs) (idle : ¬ (p.heap g).busy = true)
    (h : p₁.detachWorkspace (p.heap g).dir d = (r, p₂)) (ops : p₁.hist.fsOps = p.hist.fsOps)
    (tree : p₁.dirs = p.dirs) :
    match r with
    | none => p.Records dirs p₂
    | some _ => p.Records dirs (p₂.deleteRun key) := by
  have gone (p₂ : Pool) : (key, g) ∉ (p₂.deleteRun key).runs := by simp [deleteRun]
  unfold detachWorkspace at h
  dsimp only at h
  split at h
  · cases h
    exact ⟨_, congrArg (· ++ _) ops, .rename _ _ live idle (.inr tree)⟩
  · split at h
    · cases h
      exact ⟨_, congrArg (· ++ _) ops, .rename _ _ live idle (.inl (gone _))⟩
    · cases h
      exact ⟨_, congrArg (· ++ _) ops, .rename _ _ live idle (.inl (gone _))⟩

theorem Pool.sweepVisit_records {now : Int} {budget budget' : Int} {b b' : ReclaimBatch}
    (keys : (p.runs.map Prod.fst).Nodup) (h : p.sweepVisit now key d budget b = (budget', b', p')) :
    p.Records dirs p' := by
  unfold sweepVisit at h
  split at h
  · cases h
    exact .of_eq rfl
  · rename_i g hlookup
    have live := (lookup_eq_some_iff keys).mp hlookup
    dsimp only at h
    split at h
    · cases h
      exact .of_eq rfl
    · rename_i hbusy
      split at h
      · cases h
        exact .of_eq rfl
      · split at h
        · cases h
          exact .of_eq rfl
        · split at h
          · split at h
            · rename_i heq
              cases h
              exact detachWorkspace_records live hbusy heq rfl rfl
            · rename_i heq
              cases h
              exact detachWorkspace_records live hbusy heq rfl rfl
          · cases h
            exact .of_eq rfl

theorem Pool.reclaimLocked_records {b : ReclaimBatch} {out : ReclaimOutcome}
    (keys : (p.runs.map Prod.fst).Nodup) (h : p.reclaimLocked key d = (b, out, p')) :
    p.Records dirs p' := by
  unfold reclaimLocked at h
  split at h
  · cases h
    exact .of_eq rfl
  · rename_i g hlookup
    have live := (lookup_eq_some_iff keys).mp hlookup
    dsimp only at h
    have run : ((p.setRun g { p.heap g with ready := [] }).stopPending g).heap g =
        { p.heap g with ready := [], pending := [] } := by
      simp [stopPending, setRun]
    rw [run] at h
    split at h
    · cases h
      exact .of_eq rfl
    · rename_i hbusy
      split at h
      · rename_i heq
        cases h
        exact detachWorkspace_records live hbusy heq rfl rfl
      · rename_i heq
        cases h
        exact detachWorkspace_records live hbusy heq rfl rfl

theorem drainStep_records {d d' : Drain} (h : drainStep p d ch = some (p', d')) :
    p.Records d.dirs p' := by
  obtain ⟨vms, inDestroy, dirs⟩ := d
  unfold drainStep at h
  dsimp only at h
  split at h
  · cases h
    exact .of_eq rfl
  · split at h
    · cases h
      exact .of_eq rfl
    · cases h
      exact ⟨_, rfl, .remove (List.mem_cons_self ..)⟩
    · cases h

theorem drain_records {α : Type} {d : Drain} {done a : α} {f : Pool × Drain → Pool × α}
    (h : (if d.finished then some (p, done) else (drainStep p d ch).map f) = some (p', a))
    (hf : ∀ r, (f r).1 = r.1) :
    p.Records d.dirs p' := by
  split at h
  · cases h
    exact .of_eq rfl
  · obtain ⟨r, hdrain, heq⟩ := Option.map_eq_some_iff.mp h
    obtain rfl : r.1 = p' := (hf r).symm.trans (congrArg Prod.fst heq)
    exact drainStep_records hdrain

theorem sweepStep_records {pc pc' : SweepPc} (role : Role) (keys : (p.runs.map Prod.fst).Nodup)
    (h : sweepStep p me pc ch = some (p', pc')) :
    p.Records (pc.stake role).dirs p' := by
  unfold sweepStep at h
  split at h
  · cases h
    exact .of_eq rfl
  · split at h
    · cases h
    · cases h
      exact .of_eq rfl
  · split at h
    · cases h
    · split at h
      rename_i hvisit
      cases h
      exact Pool.sweepVisit_records keys hvisit
  · split at h
    · cases h
      exact .of_eq rfl
    · cases h
  · split at h
    · cases h
    · split at h
      · cases h
        exact .of_eq rfl
      · split at h <;> (cases h; exact .of_eq rfl)
  · exact drain_records h fun _ => rfl
  · cases h

theorem execStep_fsOps {c c' : ExecCall} {pc pc' : ExecPc}
    (h : execStep p c pc ch = some (p', c', pc')) : p'.hist.fsOps = p.hist.fsOps := by
  unfold execStep at h
  split at h
  case h_2 =>
    split at h
    · cases h
    · cases h
      exact p.acquireLocked_fsOps _
  case h_5 | h_6 =>
    split at h
    · cases h
    · cases h
      exact p.settleCold_fsOps _ _
  case h_7 =>
    obtain ⟨⟨p₁, wpc⟩, hwarm, heq⟩ := Option.map_eq_some_iff.mp h
    cases heq
    exact warmStep_fsOps hwarm
  case h_15 =>
    split at h
    · cases h
    · split at h <;> (cases h; exact p.destroyLocked_fsOps _)
  all_goals
    repeat' split at h
    all_goals cases h <;> rfl

theorem replenishStep_records {tm : Nat} {pc pc' : ReplenishPc}
    (h : replenishStep p key tm pc ch = some (p', pc')) :
    p.Records (pc.stake key).dirs p' := by
  unfold replenishStep at h
  split at h
  · split at h
    · cases h
    · cases h
      exact .of_eq (p.forgetPending_fsOps _ _)
  · have ops := p.replenishOneLocked_fsOps key
    split at h
    · cases h
    · split at h <;> (rename_i heq; cases h; rw [heq] at ops; exact .of_eq ops)
  · split at h
    · cases h
    · rename_i run _ vm _
      have ops := p.settleReplenish_fsOps run (some vm)
      split at h <;> (rename_i heq; cases h; rw [heq] at ops; exact .of_eq ops)
  · split at h
    · cases h
    · cases h
      exact .of_eq (p.settleReplenish_fsOps _ _)
  · obtain ⟨⟨p₁, wpc⟩, hwarm, heq⟩ := Option.map_eq_some_iff.mp h
    cases heq
    exact .of_eq (warmStep_fsOps hwarm)
  · exact drain_records h fun _ => rfl
  · cases h
    exact .of_eq rfl
  · cases h

theorem tickerStep_records {pc pc' : TickerPc} (keys : (p.runs.map Prod.fst).Nodup)
    (h : tickerStep p me pc ch = some (p', pc')) :
    p.Records (Thread.ticker pc).stake.dirs p' := by
  unfold tickerStep at h
  split at h
  · cases h
    exact .of_eq rfl
  · obtain ⟨r, hsweep, heq⟩ := Option.map_eq_some_iff.mp h
    cases heq
    exact sweepStep_records .ticker keys hsweep
  · split at h
    · cases h
    · cases h
      refine .of_eq ?_
      unfold Pool.armTickerLocked
      split <;> rfl
  · cases h

theorem reclaimStep_records {pc pc' : ReclaimPc} (keys : (p.runs.map Prod.fst).Nodup)
    (h : reclaimStep p key pc ch = some (p', pc')) :
    p.Records (Thread.reclaim key pc).stake.dirs p' := by
  unfold reclaimStep at h
  split at h
  · split at h
    · cases h
    · split at h
      rename_i hlocked
      cases h
      exact Pool.reclaimLocked_records keys hlocked
  · exact drain_records h fun _ => rfl
  · cases h

theorem closeStep_records {pc pc' : ClosePc} (h : closeStep p pc ch = some (p', pc')) :
    p.Records pc.stake.dirs p' := by
  unfold closeStep at h
  split at h
  case h_4 => exact drain_records h fun _ => rfl
  all_goals
    repeat' split at h
    all_goals cases h <;> exact .of_eq rfl

theorem loopStep_records {pc pc' : LoopPc} (h : loopStep p pc ch = some (p', pc')) :
    p.Records (Thread.reclaimLoop pc).stake.dirs p' := by
  unfold loopStep at h
  split at h
  case h_2 => exact drain_records h fun _ => rfl
  all_goals
    repeat' split at h
    all_goals cases h <;> exact .of_eq rfl

theorem probeStep_records {pc pc' : ProbePc} (h : probeStep p pc ch = some (p', pc')) :
    p.Records pc.stake.dirs p' := by
  unfold probeStep at h
  split at h
  case h_4 =>
    obtain ⟨⟨p₁, wpc⟩, hwarm, heq⟩ := Option.map_eq_some_iff.mp h
    cases heq
    exact .of_eq (warmStep_fsOps hwarm)
  case h_8 => exact drain_records h fun _ => rfl
  all_goals
    repeat' split at h
    all_goals cases h <;> exact .of_eq rfl

/-- INTERNAL: **a step removes only what the goroutine answers for, and renames only the
directory of a run without charges**. -/
theorem threadStep_records {t' : Thread} (keys : (p.runs.map Prod.fst).Nodup)
    (h : threadStep p me t ch = some (p', t')) :
    p.Records t.stake.dirs p' := by
  unfold threadStep at h
  split at h
  · cases h
    exact .of_eq rfl
  all_goals
    obtain ⟨r, hstep, heq⟩ := Option.map_eq_some_iff.mp h
    obtain ⟨rfl, -⟩ := Prod.mk.inj heq
  -- exec
  · exact sweepStep_records .exec keys hstep
  · exact .of_eq (execStep_fsOps hstep)
  -- replenish
  · exact replenishStep_records hstep
  -- ticker, reclaim, close and the reclaim goroutine
  · exact tickerStep_records keys hstep
  · exact reclaimStep_records keys hstep
  · exact closeStep_records hstep
  · exact loopStep_records hstep
  -- a reap worker
  · refine .of_eq ?_
    unfold workerStep at hstep
    repeat' split at hstep
    all_goals cases hstep <;> rfl
  -- probe
  · exact probeStep_records hstep

/-! ## Removals and renames spare what is in use -/

/-- The directory that a restore in progress is using. -/
def Thread.restoreDir : Thread → Option SlashPath
  | .exec _ (.warming _ req _) => some req.dir
  | .replenish _ _ (.warming _ req _) => some req.dir
  | .probe (.warming req _) => some req.dir
  | _ => none

theorem Thread.charge_of_heldVM {vm : VM} (h : t.heldVM = some vm) :
    ∃ e, t.stake.charge = some e ∧ t.stake.mine = [vm] := by
  unfold heldVM at h
  split at h
  case h_6 => cases h
  all_goals
    cases h
    exact ⟨_, rfl, rfl⟩

theorem Thread.warm_of_restoreDir {d : SlashPath} (ok : t.Ok p) (h : t.restoreDir = some d) :
    (∃ w, t.stake.warm = some w ∧ w.dir = d) ∨ d = probeDir p.cfg := by
  unfold restoreDir at h
  split at h
  · cases h
    exact .inl ⟨_, rfl, rfl⟩
  · cases h
    exact .inl ⟨_, rfl, rfl⟩
  · cases h
    exact .inr ok.1
  · cases h

section Spare

variable {cfg : Config} {lc : Launcher} {s : Sys} (h : Reachable (poolSystem cfg lc) s)
include h

theorem place_of_heldVM (ht : t ∈ s.threads) {vm : VM} (hvm : t.heldVM = some vm) {q : SlashPath}
    (hq : s.pool.dirs.lookup q = some vm.inode) :
    ∃ e ∈ s.pool.runs, (s.pool.heap e.2).busy = true ∧ q = (workspaceRoot s.pool.cfg).join e.1 := by
  have b := books_of_pool h
  have hst : t.stake ∈ s.threads.map Thread.stake := List.mem_map_of_mem ht
  obtain ⟨e, hcharge, hmine⟩ := t.charge_of_heldVM hvm
  obtain ⟨⟨v, hv, hrun⟩, -⟩ := (b.stakes _ hst).charge e hcharge
  obtain rfl : vm = v := by simpa [hmine] using hv
  have restored := restored_of_held (custody_of_pool h).held hst (v := vm) (by simp [hmine])
  obtain ⟨live, inFlight⟩ := b.charge_live hst hcharge
  have busy : (s.pool.heap e.2).busy = true := by
    have : 1 ≤ (s.pool.heap e.2).inFlight := inFlight
    simp [RunPool.busy]
    omega
  rcases (directories_of_pool h).runs vm restored e.2 hrun q hq with ⟨k, hk, hplace⟩ | ⟨hnot, -⟩
  · have heq : (k, e.2) = e := b.entry_eq hk live rfl
    exact ⟨e, live, busy,
      hplace.trans (congrArg (fun x : Key × Nat => (workspaceRoot s.pool.cfg).join x.1) heq)⟩
  · exact absurd (List.mem_map_of_mem live) hnot

theorem place_of_restoreDir (ht : t ∈ s.threads) {q : SlashPath} (hq : t.restoreDir = some q) :
    (∃ e ∈ s.pool.runs, (s.pool.heap e.2).busy = true ∧
      q = (workspaceRoot s.pool.cfg).join e.1) ∨ q = probeDir s.pool.cfg := by
  have b := books_of_pool h
  have hst : t.stake ∈ s.threads.map Thread.stake := List.mem_map_of_mem ht
  have ok := ((pool_refines cfg lc).reachable h).2 t ht
  rcases t.warm_of_restoreDir ok hq with ⟨w, hw, rfl⟩ | rfl
  · obtain ⟨live, warming⟩ := b.warm_live hst hw
    obtain ⟨-, -, -, -, -, -, hdir, -⟩ := (b.stakes _ hst).warm w hw
    refine .inl ⟨w.entry, live, ?_, hdir.trans (b.names _ live).2⟩
    have : 1 ≤ (s.pool.heap w.entry.2).warming := warming
    simp [RunPool.busy]
    omega
  · exact .inr rfl

theorem FsOps.spare_busy (ops : FsOps s.pool dirs p' new)
    (tombs : ∀ d ∈ dirs, IsTombstone s.pool.cfg d) {e : Key × Nat} (live : e ∈ s.pool.runs)
    (busy : (s.pool.heap e.2).busy = true) :
    ∀ op ∈ new, ¬ op.Touches ((workspaceRoot s.pool.cfg).join e.1) := by
  have names := (books_of_pool h).names
  have valid : validKey e.1 = true := (names e live).1
  intro op hop
  cases ops with
  | none => simp at hop
  | @remove d mem =>
    obtain rfl : op = .removeAll d := by simpa using hop
    exact (tombs d mem).not_below valid
  | @rename e' nano seq live' idle gone =>
    obtain ⟨valid', dir⟩ : validKey e'.1 = true ∧
      (s.pool.heap e'.2).dir = (workspaceRoot s.pool.cfg).join e'.1 := names e' live'
    rw [dir] at hop
    obtain rfl := List.mem_singleton.mp hop
    rintro (hbelow | hbelow)
    · have hkey := (below_join_key valid' valid).mp hbelow
      obtain rfl := (books_of_pool h).entry_eq_of_key live' live hkey
      exact idle busy
    · exact IsTombstone.not_below ⟨e'.1, nano, seq, valid', rfl⟩ valid hbelow

theorem FsOps.spare_probeDir (ops : FsOps s.pool dirs p' new)
    (tombs : ∀ d ∈ dirs, IsTombstone s.pool.cfg d) :
    ∀ op ∈ new, ¬ op.Touches (probeDir s.pool.cfg) := by
  intro op hop
  cases ops with
  | none => simp at hop
  | @remove d mem =>
    obtain rfl : op = .removeAll d := by simpa using hop
    exact (tombs d mem).not_below_probeDir
  | @rename e nano seq live idle gone =>
    obtain ⟨valid, dir⟩ : validKey e.1 = true ∧
      (s.pool.heap e.2).dir = (workspaceRoot s.pool.cfg).join e.1 := (books_of_pool h).names e live
    rw [dir] at hop
    obtain rfl := List.mem_singleton.mp hop
    rintro (hbelow | hbelow)
    · exact not_below_probeDir valid hbelow
    · exact IsTombstone.not_below_probeDir ⟨e.1, nano, seq, valid, rfl⟩ hbelow

theorem FsOps.eq_rename_of_touches (ops : FsOps s.pool dirs p' new)
    (tombs : ∀ d ∈ dirs, IsTombstone s.pool.cfg d) {e : Key × Nat} (live : e ∈ s.pool.runs)
    {op : FsOp} (hop : op ∈ new) (touches : op.Touches (s.pool.heap e.2).dir) :
    ¬ (s.pool.heap e.2).busy = true ∧ (∃ tomb, op = .rename (s.pool.heap e.2).dir tomb) ∧
      (e ∉ p'.runs ∨ p'.dirs = s.pool.dirs) := by
  have names := (books_of_pool h).names
  obtain ⟨valid, dir⟩ : validKey e.1 = true ∧
    (s.pool.heap e.2).dir = (workspaceRoot s.pool.cfg).join e.1 := names e live
  cases ops with
  | none => simp at hop
  | @remove d mem =>
    obtain rfl : op = .removeAll d := by simpa using hop
    rw [dir] at touches
    exact absurd touches ((tombs d mem).not_below valid)
  | @rename e' nano seq live' idle gone =>
    obtain ⟨valid', dir'⟩ : validKey e'.1 = true ∧
      (s.pool.heap e'.2).dir = (workspaceRoot s.pool.cfg).join e'.1 := names e' live'
    obtain rfl := List.mem_singleton.mp hop
    have same : e' = e := by
      rw [dir, dir'] at touches
      rcases touches with hbelow | hbelow
      · exact (books_of_pool h).entry_eq_of_key live' live ((below_join_key valid' valid).mp hbelow)
      · exact absurd hbelow (IsTombstone.not_below ⟨e'.1, nano, seq, valid', rfl⟩ valid)
    subst same
    exact ⟨idle, ⟨_, rfl⟩, gone⟩

theorem tombstones_of_not_probe (ht : t ∈ s.threads) (hprobe : ∀ pc, t ≠ .probe pc) :
    ∀ d ∈ t.stake.dirs, IsTombstone s.pool.cfg d := by
  intro d hd
  rcases ((books_of_pool h).stakes _ (List.mem_map_of_mem ht)).dirs d hd with tomb | ⟨role, -⟩
  · exact tomb
  · have := t.role_eq
    cases t with
    | probe pc => exact absurd rfl (hprobe pc)
    | _ => simp_all

end Spare

/-- INTERNAL: **a sweep or a `Reclaim` touches no directory in use**. A step of any goroutine
but a probe renames or removes nothing at or above the directory that a held VM is bound to,
or that a restore in progress uses; of the runs in the map it touches the directory of one
without charges, by a rename that takes the run out of the map or does nothing, so that a
later removal finds only the tombstone; and no tombstone's name is the directory of an
accepted key.
SRCLINE: workspace.go:17-99, sweep.go:30-145, pool.go:614-652 -/
theorem removals_spare_used_directories {cfg : Config} {lc : Launcher} {s : Sys}
    (h : Reachable (poolSystem cfg lc) s) :
    (∀ (i : Nat) (t : Thread) (ch : Choice) (p' : Pool) (t' : Thread),
      s.threads[i]? = some t → (∀ pc, t ≠ .probe pc) →
      threadStep s.pool i t ch = some (p', t') →
      ∃ new, p'.hist.fsOps = s.pool.hist.fsOps ++ new ∧ ∀ op ∈ new,
        (∀ u ∈ s.threads, ∀ vm, u.heldVM = some vm →
          ∀ q, s.pool.dirs.lookup q = some vm.inode → ¬ op.Touches q) ∧
        (∀ u ∈ s.threads, ∀ q, u.restoreDir = some q → ¬ op.Touches q) ∧
        (∀ e ∈ s.pool.runs, op.Touches (s.pool.heap e.2).dir →
          ¬ (s.pool.heap e.2).busy = true ∧ (∃ tomb, op = .rename (s.pool.heap e.2).dir tomb) ∧
            (e ∉ p'.runs ∨ p'.dirs = s.pool.dirs))) ∧
    (∀ k k' d d' nano seq, checkKey k = .ok () → workspaceDir s.pool.cfg k = .ok d →
      checkKey k' = .ok () → workspaceDir s.pool.cfg k' = .ok d' → tombstone d nano seq ≠ d') := by
  constructor
  · intro i t ch p' t' hi hprobe step
    have ht := List.mem_of_getElem? hi
    have tombs := tombstones_of_not_probe h ht hprobe
    obtain ⟨new, hnew, ops⟩ := threadStep_records (books_of_pool h).keys step
    refine ⟨new, hnew, fun op hop => ⟨?_, ?_, fun e live touches =>
      ops.eq_rename_of_touches h tombs live hop touches⟩⟩
    · intro u hu vm hvm q hq
      obtain ⟨e, live, busy, rfl⟩ := place_of_heldVM h hu hvm hq
      exact ops.spare_busy h tombs live busy op hop
    · intro u hu q hq
      rcases place_of_restoreDir h hu hq with ⟨e, live, busy, rfl⟩ | rfl
      · exact ops.spare_busy h tombs live busy op hop
      · exact ops.spare_probeDir h tombs op hop
  · intro k k' d d' nano seq hk hd hk' hd'
    have valid := validKey_of_checkKey hk
    have valid' := validKey_of_checkKey hk'
    obtain rfl := Except.ok.inj ((workspaceDir_of_validKey _ valid).symm.trans hd)
    obtain rfl := Except.ok.inj ((workspaceDir_of_validKey _ valid').symm.trans hd')
    exact IsTombstone.ne_join ⟨k, nano, seq, valid, rfl⟩ valid'

/-- While an `Exec` holds a VM, a `Reclaim` of another run renames its directory. -/
theorem removals_spare_used_directories_reclaim :
    ∃ s t p' t' vm op, Reachable (poolSystem (smallConfig 0) smallLauncher) s ∧
      s.threads[3]? = some t ∧ threadStep s.pool 3 t (.detach ⟨7, false⟩) = some (p', t') ∧
      vm ∈ s.threads.filterMap Thread.heldVM ∧ op ∈ p'.hist.fsOps ∧
      ∀ q, s.pool.dirs.lookup q = some vm.inode → ¬ op.Touches q := by
  obtain ⟨s, hs, hP⟩ := exists_reachable_of_runSmall 0
    (.callExec "a" 0 :: List.replicate 17 (.run 1 .go) ++
      [.callExec "b" 0, .run 2 .go, .run 2 .go, .run 2 (.visit "a" ⟨0, false⟩)] ++
      List.replicate 10 (.run 2 .go) ++ [.callReclaim "a"])
    (fun s => decide (s.threads[3]? = some (Thread.reclaim "a" .lock) ∧
      (∃ u ∈ s.threads, u.heldVM.isSome) ∧ s.pool.hist.fsOps = [] ∧
        (threadStep s.pool 3 (.reclaim "a" .lock) (.detach ⟨7, false⟩)).map
          (fun r => decide (r.1.hist.fsOps = [])) = some false))
    (by decide +kernel)
  obtain ⟨hi, ⟨u, hu, hheld⟩, hnone, hstep⟩ := of_decide_eq_true hP
  obtain ⟨vm, hvm⟩ := Option.isSome_iff_exists.mp hheld
  obtain ⟨⟨p', t'⟩, step, hops⟩ := Option.map_eq_some_iff.mp hstep
  obtain ⟨new, hnew, spared⟩ := (removals_spare_used_directories hs).1 3 _ _ p' t' hi
    (by simp) step
  obtain ⟨op, rest, hlist⟩ := List.exists_cons_of_ne_nil (of_decide_eq_false hops)
  have hop : op ∈ new := by
    rw [hnone, List.nil_append] at hnew
    rw [← hnew, hlist]
    exact List.mem_cons_self ..
  refine ⟨s, _, p', t', vm, op, hs, hi, step, List.mem_filterMap.mpr ⟨u, hu, hvm⟩, ?_, ?_⟩
  · rw [hlist]
    exact List.mem_cons_self ..
  · exact (spared op hop).1 u hu vm hvm

end ServerlessHarness.VmPool
