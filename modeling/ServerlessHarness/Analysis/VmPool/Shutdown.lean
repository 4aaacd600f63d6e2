import ServerlessHarness.Interface.VmPool.Observations

/-!
# Who owns a VM, and what `Close` leaves behind

Every restored VM has one owner until `Destroy` is called on it, and in a closed pool whose
goroutines can take no further step it has been called on every VM
(`restored_owned_or_destroyed`). The second part is a progress argument: with the lock free,
a goroutine that can take no step owns nothing, unless it waits for a gate or, in `Close`,
for the warms (`Thread.stuck_cases`); the holder of a gate and a registered callback can
always step, so in a quiet pool nobody waits for them.

`Close` waits for the reclaim goroutine and for the replenish callbacks, but not for a
ticker callback that is already running. When it returns, the VMs that are not destroyed are
those in the hands of such callbacks (`close_returned_destroyed_iff`), and there can be one
(`close_returned_ticker_holds_vm`).
-/

set_option autoImplicit false

namespace ServerlessHarness.VmPool

open Library

/-! ## Owners -/

/-- Who can own a VM: the ready list of a run, a goroutine, a batch in the reclaim queue. -/
inductive Owner where
  | readyList (run : Nat)
  | goroutine (i : Nat)
  | batch (i : Nat)
deriving DecidableEq, Repr

/-- Whether an owner has a VM. -/
def Sys.Owns (s : Sys) : Owner → VM → Prop
  | .readyList g, vm => vm ∈ (s.pool.heap g).ready
  | .goroutine i, vm => ∃ t, s.threads[i]? = some t ∧ vm ∈ t.owned
  | .batch i, vm => ∃ b, s.pool.reclaimQ[i]? = some b ∧ vm ∈ b.vms

/-- No goroutine has a step left to take. -/
def Sys.Quiet (s : Sys) : Prop :=
  ∀ i t, s.threads[i]? = some t → ∀ ch, threadStep s.pool i t ch = none

variable {t : Thread} {vm : VM} {p : Pool}

section Owners

variable {cfg : Config} {lc : Launcher} {s : Sys} (h : Reachable (poolSystem cfg lc) s)
include h

theorem mem_standbys_of_ready {g : Nat} (hvm : vm ∈ (s.pool.heap g).ready) :
    vm ∈ s.pool.standbys := by
  have live : g ∈ s.pool.runs.map Prod.snd := by
    by_contra hnot
    have : (s.pool.heap g).ready = [] := (books_of_pool h).dropped g hnot
    simp [this] at hvm
  obtain ⟨e, he, rfl⟩ := List.mem_map.mp live
  exact List.mem_flatMap.mpr ⟨e, he, hvm⟩

theorem mem_held_of_owns {o : Owner} (ho : s.Owns o vm) : vm ∈ s.held := by
  unfold Sys.held
  simp only [List.mem_append, List.mem_flatMap]
  cases o with
  | readyList g => exact .inl (.inl (.inl (mem_standbys_of_ready h ho)))
  | goroutine i =>
    obtain ⟨t, ht, hvm⟩ := ho
    exact .inl (.inl (.inr ⟨t, List.mem_of_getElem? ht, hvm⟩))
  | batch i =>
    obtain ⟨b, hb, hvm⟩ := ho
    exact .inl (.inr ⟨b, List.mem_of_getElem? hb, hvm⟩)

omit h in
theorem exists_owns_of_mem_held (reaper : s.pool.reaper = none) (hvm : vm ∈ s.held) :
    ∃ o, s.Owns o vm := by
  unfold Sys.held at hvm
  simp only [reaper, Option.elim_none, List.append_nil, List.mem_append, List.mem_flatMap] at hvm
  rcases hvm with (hvm | ⟨t, ht, hvm⟩) | ⟨b, hb, hvm⟩
  · obtain ⟨e, -, hvm⟩ := List.mem_flatMap.mp hvm
    exact ⟨.readyList e.2, hvm⟩
  · obtain ⟨i, hi⟩ := List.mem_iff_getElem?.mp ht
    exact ⟨.goroutine i, t, hi, hvm⟩
  · obtain ⟨i, hi⟩ := List.mem_iff_getElem?.mp hb
    exact ⟨.batch i, b, hi, hvm⟩

theorem held_nodup : s.held.Nodup := by
  have := (held_perm_restored h).nodup_iff.mpr (restored_nodup h)
  exact (List.nodup_append.mp (List.nodup_append.mp this).1).1

/-- INTERNAL: **a VM has at most one owner**. -/
theorem owner_unique {o o' : Owner} (ho : s.Owns o vm) (ho' : s.Owns o' vm) :
    o = o' := by
  have nodup := held_nodup h
  unfold Sys.held at nodup
  obtain ⟨⟨⟨-, goroutines, apart⟩, batches, apart'⟩, -, -⟩ :=
    (List.nodup_append.trans (and_congr_left' (List.nodup_append.trans
      (and_congr_left' List.nodup_append)))).mp nodup
  have ready {g : Nat} (hvm : vm ∈ (s.pool.heap g).ready) := mem_standbys_of_ready h hvm
  have run {i : Nat} (hi : ∃ t, s.threads[i]? = some t ∧ vm ∈ t.owned) :
      vm ∈ s.threads.flatMap Thread.owned := by
    obtain ⟨t, ht, hvm⟩ := hi
    exact List.mem_flatMap.mpr ⟨t, List.mem_of_getElem? ht, hvm⟩
  have queued {i : Nat} (hi : ∃ b, s.pool.reclaimQ[i]? = some b ∧ vm ∈ b.vms) :
      vm ∈ s.pool.reclaimQ.flatMap ReclaimBatch.vms := by
    obtain ⟨b, hb, hvm⟩ := hi
    exact List.mem_flatMap.mpr ⟨b, List.mem_of_getElem? hb, hvm⟩
  match o, o', ho, ho' with
  | .readyList g, .readyList g', ho, ho' =>
    -- a standby was restored for the run that holds it
    have standbys := (books_of_pool h).standbys
    have hg : vm.run = some g := standbys g vm ho
    have hg' : vm.run = some g' := standbys g' vm ho'
    rw [Option.some.inj (hg.symm.trans hg')]
  | .goroutine i, .goroutine j, ⟨t, ht, hvm⟩, ⟨t', ht', hvm'⟩ =>
    rw [eq_of_mem_flatMap goroutines ht ht' hvm hvm']
  | .batch i, .batch j, ⟨b, hb, hvm⟩, ⟨b', hb', hvm'⟩ =>
    rw [eq_of_mem_flatMap batches hb hb' hvm hvm']
  | .readyList g, .goroutine i, ho, ho' => exact absurd rfl (apart _ (ready ho) _ (run ho'))
  | .goroutine i, .readyList g, ho, ho' => exact absurd rfl (apart _ (ready ho') _ (run ho))
  | .readyList g, .batch i, ho, ho' =>
    exact absurd rfl (apart' _ (List.mem_append_left _ (ready ho)) _ (queued ho'))
  | .batch i, .readyList g, ho, ho' =>
    exact absurd rfl (apart' _ (List.mem_append_left _ (ready ho')) _ (queued ho))
  | .goroutine i, .batch j, ho, ho' =>
    exact absurd rfl (apart' _ (List.mem_append_right _ (run ho)) _ (queued ho'))
  | .batch j, .goroutine i, ho, ho' =>
    exact absurd rfl (apart' _ (List.mem_append_right _ (run ho')) _ (queued ho))

end Owners

/-! ## Progress -/

theorem drainStep_isSome {d : Drain} (h : ¬ d.finished = true) :
    (drainStep p d .go).isSome := by
  obtain ⟨vms, inDestroy, dirs⟩ := d
  unfold drainStep
  cases inDestroy with
  | some vm => rfl
  | none =>
    match vms, dirs with
    | vm :: vms, _ => rfl
    | [], dir :: dirs => rfl
    | [], [] => simp [Drain.finished] at h

theorem drain_never_stuck {α : Type} {d : Drain} {done : Pool × α} {f : Pool × Drain → Pool × α} :
    (if d.finished then some done else (drainStep p d .go).map f) ≠ none := by
  split
  · simp
  · rename_i hmore
    have := drainStep_isSome (p := p) hmore
    intro hnone
    simp [Option.map_eq_none_iff.mp hnone] at this

theorem sweepStep_visiting (p : Pool) (me : Nat) (now : Int) (todo : List Key) (budget : Int)
    (b : ReclaimBatch) : ∃ ch, sweepStep p me (.visiting now todo budget b) ch ≠ none := by
  by_cases hdone : budget ≤ 0 ∨ todo = []
  · exact ⟨.go, by simp [sweepStep, hdone]⟩
  · obtain ⟨hbudget, htodo⟩ := not_or.mp hdone
    obtain ⟨key, rest, rfl⟩ := List.exists_cons_of_ne_nil htodo
    exact ⟨.visit key ⟨0, false⟩, by simp [sweepStep, hbudget]⟩

theorem SweepPc.vms_of_stuck {me : Nat} {pc : SweepPc} (hmu : p.mu = none)
    (stuck : ∀ ch, sweepStep p me pc ch = none) : pc.vms = [] := by
  cases pc with
  | visiting now todo budget b =>
    obtain ⟨ch, hch⟩ := sweepStep_visiting p me now todo budget b
    exact absurd (stuck ch) hch
  | enqueue b =>
    have go := stuck .go
    simp only [sweepStep, hmu, Option.isSome_none, Bool.false_eq_true, if_false] at go
    split_ifs at go
  | draining d => exact absurd (stuck .go) drain_never_stuck
  | _ => rfl

section Stuck

variable {p : Pool} {me : Nat} {t : Thread} (stuck : ∀ ch, threadStep p me t ch = none)
include stuck

theorem Thread.not_locked_of_stuck : t.stake.locked = false := by
  have visiting {now : Int} {todo : List Key} {budget : Int} {b : ReclaimBatch} {α : Type}
      {f : Pool × SweepPc → α}
      (hnone : ∀ ch, (sweepStep p me (.visiting now todo budget b) ch).map f = none) : False := by
    obtain ⟨ch, hch⟩ := sweepStep_visiting p me now todo budget b
    exact hch (Option.map_eq_none_iff.mp (hnone ch))
  cases t with
  | exec c pc =>
    cases pc with
    | sweep pc =>
      cases pc with
      | visiting now todo budget b => exact (visiting stuck).elim
      | _ => rfl
    | _ => rfl
  | ticker pc =>
    cases pc with
    | sweep pc =>
      cases pc with
      | visiting now todo budget b =>
        exact (visiting fun ch => Option.map_eq_none_iff.mp (stuck ch)).elim
      | _ => rfl
    | _ => rfl
  | close pc =>
    cases pc with
    | returned closer => cases closer <;> rfl
    | _ => rfl
  | replenish key tm pc | reclaim key pc | reclaimLoop pc | reapWorker pc | probe pc =>
    cases pc <;> rfl

/-- A thread without the lock has nothing, or waits at a gate or for the warms. -/
theorem Thread.stuck_cases (hmu : p.mu = none) (ok : t.Ok p) :
    (t.owned = [] ∧ t.stake.gate = none ∧ t.stake.registered = false) ∨
    (∃ c run vm, t = .exec c (.gate run vm) ∧ (p.heap run).execGate = true) ∨
    (∃ victims, t = .close (.waitWarms victims) ∧ p.inFlightWarms ≠ 0) := by
  have go := stuck .go
  have fail := stuck .fail
  cases t with
  | exec c pc =>
    cases pc with
    | sweep pc =>
      refine .inl ⟨?_, by cases pc <;> rfl, by cases pc <;> rfl⟩
      cases pc with
      | finished => rfl
      | _ => exact SweepPc.vms_of_stuck hmu fun ch => Option.map_eq_none_iff.mp (stuck ch)
    | warming run req pc =>
      cases pc with
      | restored vm => simp [threadStep, execStep, hmu] at go
      | _ => exact .inl ⟨rfl, rfl, rfl⟩
    | gate run vm =>
      refine .inr (.inl ⟨c, run, vm, rfl, ?_⟩)
      simp only [threadStep, execStep, Option.map_eq_none_iff] at go
      split_ifs at go with _ hgate
      exact hgate
    | held run vm gated =>
      simp only [threadStep, execStep, Option.map_eq_none_iff] at go
      split_ifs at go
    | destroy run vm gated out =>
      simp only [threadStep, execStep, Option.map_eq_none_iff, hmu] at go
      split_ifs at go with hcontra
      simp at hcontra
    | submit run vm gated out =>
      obtain ⟨r, hr⟩ := Option.isSome_iff_exists.mp ok.1
      simp only [threadStep, execStep, Option.map_eq_none_iff, hr] at go
      split_ifs at go
    | resuming | running | barrier | reaping | teardown | destroying | openGate =>
      simp [threadStep, execStep] at go
    | _ => exact .inl ⟨rfl, rfl, rfl⟩
  | replenish key tm pc =>
    cases pc with
    | warming run req pc =>
      cases pc with
      | mkdir => simp [threadStep, replenishStep, warmStep] at go
      | restoring => simp [threadStep, replenishStep, warmStep] at fail
      | restored vm =>
        simp only [threadStep, replenishStep, Option.map_eq_none_iff, hmu] at go
        split_ifs at go with hcontra
        · simp at hcontra
        · split at go <;> cases go
      | failed => simp [threadStep, replenishStep, hmu] at go
    | draining d => exact absurd (Option.map_eq_none_iff.mp go) drain_never_stuck
    | finish => simp [threadStep, replenishStep] at go
    | _ => exact .inl ⟨rfl, rfl, rfl⟩
  | ticker pc =>
    cases pc with
    | sweep pc =>
      refine .inl ⟨?_, by cases pc <;> rfl, by cases pc <;> rfl⟩
      cases pc with
      | finished => rfl
      | _ =>
        exact SweepPc.vms_of_stuck hmu fun ch =>
          Option.map_eq_none_iff.mp (Option.map_eq_none_iff.mp (stuck ch))
    | _ => exact .inl ⟨rfl, rfl, rfl⟩
  | reclaim key pc =>
    cases pc with
    | draining d out => exact absurd (Option.map_eq_none_iff.mp go) drain_never_stuck
    | _ => exact .inl ⟨rfl, rfl, rfl⟩
  | close pc =>
    cases pc with
    | waitWarms victims =>
      refine .inr (.inr ⟨victims, rfl, fun hzero => ?_⟩)
      simp [threadStep, closeStep, hzero] at go
    | draining d => exact absurd (Option.map_eq_none_iff.mp go) drain_never_stuck
    | returned closer => cases closer <;> exact .inl ⟨rfl, rfl, rfl⟩
    | _ => exact .inl ⟨rfl, rfl, rfl⟩
  | reclaimLoop pc =>
    cases pc with
    | draining d => exact absurd (Option.map_eq_none_iff.mp go) drain_never_stuck
    | _ => exact .inl ⟨rfl, rfl, rfl⟩
  | reapWorker pc => cases pc <;> exact .inl ⟨rfl, rfl, rfl⟩
  | probe pc =>
    cases pc with
    | warming req pc =>
      cases pc with
      | restored vm => simp [threadStep, probeStep] at go
      | _ => exact .inl ⟨rfl, rfl, rfl⟩
    | resume vm | running vm => simp [threadStep, probeStep] at go
    | draining d ok => exact absurd (Option.map_eq_none_iff.mp go) drain_never_stuck
    | _ => exact .inl ⟨rfl, rfl, rfl⟩

end Stuck

/-! ## A quiet pool -/

section Quiet

variable {cfg : Config} {lc : Launcher} {s : Sys} (h : Reachable (poolSystem cfg lc) s)
  (quiet : s.Quiet)
include h quiet

theorem mu_of_quiet : s.pool.mu = none := by
  have none_locked : ∀ st ∈ s.threads.map Thread.stake, st.locked = false := by
    intro st hst
    obtain ⟨t, ht, rfl⟩ := List.mem_map.mp hst
    obtain ⟨i, hi⟩ := List.mem_iff_getElem?.mp ht
    exact Thread.not_locked_of_stuck (quiet i t hi)
  have count := (closing_of_pool h).locked
  rw [tally_eq_zero none_locked] at count
  cases hmu : s.pool.mu with
  | none => rfl
  | some i =>
    have : s.pool.ledger.locked = true := by simp [Pool.ledger, hmu]
    simp [this] at count

/-- INTERNAL: **no goroutine of a quiet pool owns a VM**. -/
theorem owned_of_quiet (ht : t ∈ s.threads) : t.owned = [] := by
  have hmu := mu_of_quiet h quiet
  have ok := ((pool_refines cfg lc).reachable h).2
  have stuck : ∀ t ∈ s.threads, ∃ me, ∀ ch, threadStep s.pool me t ch = none := by
    intro t ht
    obtain ⟨i, hi⟩ := List.mem_iff_getElem?.mp ht
    exact ⟨i, quiet i t hi⟩
  -- nobody holds a gate or is registered, so nobody waits for either
  have free : ∀ st ∈ s.threads.map Thread.stake, st.gate = none ∧ st.registered = false := by
    intro st hst
    obtain ⟨t, ht, rfl⟩ := List.mem_map.mp hst
    obtain ⟨me, hme⟩ := stuck t ht
    rcases Thread.stuck_cases hme hmu (ok t ht) with
      ⟨-, hgate, hreg⟩ | ⟨c, run, vm, rfl, -⟩ | ⟨victims, rfl, -⟩
    · exact ⟨hgate, hreg⟩
    · exact ⟨rfl, rfl⟩
    · exact ⟨rfl, rfl⟩
  obtain ⟨me, hme⟩ := stuck t ht
  rcases Thread.stuck_cases hme hmu (ok t ht) with
    ⟨hnone, -⟩ | ⟨c, run, vm, rfl, hgate⟩ | ⟨victims, rfl, hwarms⟩
  · exact hnone
  · have count := (gates_of_pool h).held run
    rw [tally_eq_zero fun st hst => by simp [(free st hst).1]] at count
    have full : share (s.pool.ledger.acct run).gate = 1 := congrArg share hgate
    omega
  · have count := (closing_of_pool h).warms
    rw [tally_eq_zero fun st hst => (free st hst).2] at count
    exact absurd count hwarms

theorem reclaimQ_of_quiet : s.pool.reclaimQ = [] := by
  have c := closing_of_pool h
  obtain ⟨st, hst, hloop⟩ := exists_of_tally_pos (c.oneLoop.symm ▸ Int.one_pos)
  obtain ⟨t, ht, rfl⟩ := List.mem_map.mp hst
  obtain ⟨i, hi⟩ := List.mem_iff_getElem?.mp ht
  have go := quiet i t hi .go
  obtain ⟨pc, rfl⟩ : ∃ pc, t = .reclaimLoop pc := by
    have := t.role_eq
    cases t with
    | reclaimLoop pc => exact ⟨pc, rfl⟩
    | close pc | reapWorker pc =>
      obtain ⟨n, hrole⟩ := this
      simp [hrole, Role.isLoop] at hloop
    | _ => simp [this, Role.isLoop] at hloop
  cases pc with
  | receive =>
    simp only [threadStep, loopStep, Option.map_eq_none_iff] at go
    split at go
    · cases go
    · assumption
  | draining d => exact absurd (Option.map_eq_none_iff.mp go) drain_never_stuck
  | exited => exact (c.loopExited _ hst rfl).1

theorem closed_of_quiet {pc : ClosePc} (hclose : .close pc ∈ s.threads) : s.pool.closed = true := by
  have hmu := mu_of_quiet h quiet
  have stage {n : Nat} := (closing_of_pool h).closed_of_stage (n := n)
    (List.mem_map_of_mem (f := Thread.stake) hclose)
  obtain ⟨i, hi⟩ := List.mem_iff_getElem?.mp hclose
  cases pc with
  | lock =>
    have take := quiet i _ hi (.victims s.pool.standbys)
    simp only [threadStep, closeStep, Option.map_eq_none_iff] at take
    split_ifs at take with hnot
    simpa [hmu] using hnot
  | returned closer =>
    cases closer with
    | true => exact stage rfl (by omega)
    | false => exact ((pool_refines cfg lc).reachable h).2 _ hclose
  | _ => exact stage rfl (by omega)

end Quiet

/-- INTERNAL: **every VM has one owner and is destroyed once**. Without deferred reaping, a
restored VM either has exactly one owner, or `Destroy` was called on it, once, and nobody
owns it; no VM is given to two Execs; and when `Close` was called and no goroutine has a step
left to take, `Destroy` was called on every restored VM.
SRCLINE: pool.go:245-554, 614-757, replenish.go:78-145, sweep.go:30-152 -/
theorem restored_owned_or_destroyed {cfg cfg' : Config} {lc : Launcher} {s : Sys}
    (hcfg : cfg.normalize = .ok cfg') (off : cfg'.deferReapWorkers ≤ 0)
    (h : Reachable (poolSystem cfg lc) s) :
    (∀ vm ∈ s.pool.hist.restored,
      (vm ∉ s.pool.hist.destroyCalls ∧ ∃! o, s.Owns o vm) ∨
      (s.pool.hist.destroyCalls.count vm = 1 ∧ ∀ o, ¬ s.Owns o vm)) ∧
    (∀ vm, s.pool.hist.given.count vm ≤ 1) ∧
    (∀ vm, s.pool.hist.destroyCalls.count vm ≤ 1) ∧
    (∀ pc, .close pc ∈ s.threads → s.Quiet →
      ∀ vm ∈ s.pool.hist.restored, s.pool.hist.destroyCalls.count vm = 1) := by
  have reaper : s.pool.reaper = none := by
    obtain ⟨hcfg', -, hreaper⟩ := frame_of_pool h
    obtain rfl := Except.ok.inj (hcfg.symm.trans hcfg')
    rwa [decide_eq_false (by omega), Option.isSome_eq_false_iff, Option.isNone_iff_eq_none]
      at hreaper
  have perm : (s.held ++ s.pool.hist.destroyCalls).Perm s.pool.hist.restored := by
    have reapCalls : s.pool.hist.reapCalls = [] := (custody_of_pool h).noReaper reaper
    have := held_perm_restored h
    rwa [reapCalls, List.append_nil] at this
  have nodup := perm.nodup_iff.mpr (restored_nodup h)
  obtain ⟨-, called, apart⟩ := List.nodup_append.mp nodup
  refine ⟨?_, List.nodup_iff_count_le_one.mp (custody_of_pool h).given_nodup,
    List.nodup_iff_count_le_one.mp called, ?_⟩
  · intro vm hvm
    rcases List.mem_append.mp (perm.mem_iff.mpr hvm) with hheld | hcalled
    · obtain ⟨o, ho⟩ := exists_owns_of_mem_held reaper hheld
      exact .inl ⟨fun hcalled => apart vm hheld vm hcalled rfl, o, ho,
        fun o' ho' => owner_unique h ho' ho⟩
    · exact .inr ⟨List.count_eq_one_of_mem called hcalled, fun o ho =>
        apart vm (mem_held_of_owns h ho) vm hcalled rfl⟩
  · intro pc hclose quiet vm hvm
    have closed := closed_of_quiet h quiet hclose
    have standbys : s.pool.standbys = [] := by
      rw [Pool.standbys, List.flatMap_eq_nil_iff]
      exact (closing_of_pool h).ready closed
    have owned : s.threads.flatMap Thread.owned = [] :=
      List.flatMap_eq_nil_iff.mpr fun t ht => owned_of_quiet h quiet ht
    have held : s.held = [] := by
      simp [Sys.held, standbys, owned, reclaimQ_of_quiet h quiet, reaper]
    rw [held, List.nil_append] at perm
    exact List.count_eq_one_of_mem called (perm.mem_iff.mpr hvm)

/-- One `Exec` on the pool, and a `Close` after it. -/
def execThenClose : List Action :=
  .callExec "a" 0 :: List.replicate 17 (.run 1 .go) ++
    [.callClose, .run 2 (.victims []), .run 2 .go, .run 2 .go, .run 2 .go, .run 0 .go, .run 2 .go,
      .run 2 .go, .run 2 .go]

/-- After one `Exec` and a `Close` that ran to their ends. -/
theorem restored_owned_or_destroyed_closed :
    ∃ s vm, Reachable (poolSystem (smallConfig 0) smallLauncher) s ∧ s.Quiet ∧
      vm ∈ s.pool.hist.restored ∧ s.pool.hist.destroyCalls.count vm = 1 := by
  obtain ⟨s, hs, hP⟩ := exists_reachable_of_runSmall 0 execThenClose
    (fun s => decide (s.threads = [.reclaimLoop .exited,
      .exec ⟨"a", 0, some 1800000000000, false, false⟩ (.done .ok), .close (.returned true)]) &&
        !s.pool.hist.restored.isEmpty)
    (by decide +kernel)
  simp only [Bool.and_eq_true, decide_eq_true_eq] at hP
  obtain ⟨hthreads, hrestored⟩ := hP
  obtain ⟨vm, hvm⟩ : ∃ vm, vm ∈ s.pool.hist.restored := by
    simpa [List.isEmpty_iff, List.eq_nil_iff_forall_not_mem] using hrestored
  have quiet : s.Quiet := by
    intro i t ht ch
    rw [hthreads] at ht
    match i, ht with
    | 0, rfl | 1, rfl | 2, rfl => cases ch <;> rfl
  have all := restored_owned_or_destroyed (rfl : (smallConfig 0).normalize = _) (by decide) hs
  exact ⟨s, vm, hs, quiet, hvm, all.2.2.2 (.returned true) (by simp [hthreads]) quiet vm hvm⟩

/-! ## When `Close` returns -/

/-- A call on the pool that is still in progress: `Exec`, `Probe`, `Reclaim` or `Close`. -/
def Thread.inProgress : Thread → Bool
  | .exec _ (.done _) | .probe (.done _) | .reclaim _ (.done _) | .close (.returned _) => false
  | .exec _ _ | .probe _ | .reclaim _ _ | .close _ => true
  | _ => false

theorem Thread.owned_of_not_inProgress (h : t.inProgress = false) :
    (t.owned = [] ∧ t.calling = []) ∨ (∃ key tm pc, t = .replenish key tm pc) ∨
      (∃ pc, t = .ticker pc) ∨ (∃ pc, t = .reclaimLoop pc) ∨ ∃ pc, t = .reapWorker pc := by
  cases t with
  | replenish key tm pc => exact .inr (.inl ⟨key, tm, pc, rfl⟩)
  | ticker pc => exact .inr (.inr (.inl ⟨pc, rfl⟩))
  | reclaimLoop pc => exact .inr (.inr (.inr (.inl ⟨pc, rfl⟩)))
  | reapWorker pc => exact .inr (.inr (.inr (.inr ⟨pc, rfl⟩)))
  | exec c pc =>
    cases pc with
    | done out => exact .inl ⟨rfl, rfl⟩
    | _ => cases h
  | probe pc =>
    cases pc with
    | done ok => exact .inl ⟨rfl, rfl⟩
    | _ => cases h
  | reclaim key pc =>
    cases pc with
    | done out => exact .inl ⟨rfl, rfl⟩
    | _ => cases h
  | close pc =>
    cases pc with
    | returned closer => exact .inl ⟨rfl, rfl⟩
    | _ => cases h

section Returned

variable {cfg : Config} {lc : Launcher} {s : Sys} (h : Reachable (poolSystem cfg lc) s)
include h

theorem stage_of_returned {closer : Bool} (returned : .close (.returned closer) ∈ s.threads)
    (idle : ∀ t ∈ s.threads, t.inProgress = false) :
    s.pool.closed = true ∧ Stage s.pool.ledger 7 := by
  have c := closing_of_pool h
  have closed : s.pool.closed = true := by
    cases closer with
    | true => exact c.closed_of_stage (n := 7) (List.mem_map_of_mem returned) rfl (by omega)
    | false => exact ((pool_refines cfg lc).reachable h).2 _ returned
  refine ⟨closed, ?_⟩
  have one : 0 < tally (fun st : Stake => st.role.closing) (s.threads.map Thread.stake) := by
    rw [c.closers, show s.pool.ledger.closed = true from closed]
    exact Int.one_pos
  obtain ⟨st, hst, hclosing⟩ := exists_of_tally_pos one
  obtain ⟨t, ht, rfl⟩ := List.mem_map.mp hst
  have ended := idle t ht
  have role := t.role_eq
  cases t with
  | close pc =>
    cases pc with
    | returned closer =>
      cases closer with
      | true => exact c.stages _ hst 7 rfl
      | false => cases hclosing
    | _ => cases ended
  | reclaimLoop pc | reapWorker pc =>
    obtain ⟨b, role⟩ := role
    simp [role, Role.closing] at hclosing
  | _ => simp [role, Role.closing] at hclosing

section Stage

variable (stage : Stage s.pool.ledger 7)
include stage

theorem exited_of_stage (ht : t ∈ s.threads) :
    t.stake.role ≠ .loop false ∧ t.stake.role ≠ .worker false := by
  have c := closing_of_pool h
  have hst : t.stake ∈ s.threads.map Thread.stake := List.mem_map_of_mem ht
  constructor
  · intro role
    have counted := tally_pos (p := fun st : Stake => decide (st.role = .loop false)) hst
      (by simp [role])
    have count := c.loops
    have := stage.loops (by omega)
    omega
  · intro role
    have some_worker := tally_pos (p := fun st : Stake => st.role.isWorker) hst
      (by simp [role, Role.isWorker])
    obtain ⟨r, hr⟩ := Option.isSome_iff_exists.mp (c.workers.mpr some_worker)
    have counted := tally_pos (p := fun st : Stake => decide (st.role = .worker false)) hst
      (by simp [role])
    have count := c.running r hr
    have := stage.running (by omega) r hr
    omega

theorem unregistered_of_stage (ht : t ∈ s.threads) : t.stake.registered = false := by
  have hst : t.stake ∈ s.threads.map Thread.stake := List.mem_map_of_mem ht
  by_contra hreg
  have counted := tally_pos hst (Bool.eq_true_of_not_eq_false hreg)
  have count := (closing_of_pool h).warms
  have := stage.warms (by omega)
  omega

/-- INTERNAL: **after `Close`, with no call in progress, only ticker callbacks own VMs**. -/
theorem idle_or_ticker (ht : t ∈ s.threads) (ended : t.inProgress = false) :
    (t.owned = [] ∧ t.calling = []) ∨ ∃ pc, t = .ticker pc := by
  have ok := (books_of_pool h).stakes _ (List.mem_map_of_mem (f := Thread.stake) ht)
  have exited := exited_of_stage h stage ht
  rcases Thread.owned_of_not_inProgress ended with
    hidle | ⟨key, tm, pc, rfl⟩ | hticker | ⟨pc, rfl⟩ | ⟨pc, rfl⟩
  · exact .inl hidle
  · have role : (Thread.replenish key tm pc).stake.role = .replenish :=
      (Thread.replenish key tm pc).role_eq
    obtain ⟨-, vms, inDestroy⟩ := ok.refill role (unregistered_of_stage h stage ht)
    have mine : (Thread.replenish key tm pc).stake.mine = [] := by
      by_contra hmine
      simp [(ok.mine hmine).1] at role
    exact .inl ⟨by rw [(Thread.vms_eq _).1, mine, vms]; rfl, by rw [(Thread.vms_eq _).2, inDestroy]⟩
  · exact .inr hticker
  · cases pc with
    | exited => exact .inl ⟨rfl, rfl⟩
    | _ => exact absurd rfl exited.1
  · cases pc with
    | exited => exact .inl ⟨rfl, rfl⟩
    | _ => exact absurd rfl exited.2

/-- After the close only the threads hold VMs. -/
theorem held_of_stage (closed : s.pool.closed = true) :
    s.held = s.threads.flatMap Thread.owned := by
  have c := closing_of_pool h
  have exited {t : Thread} (ht : t ∈ s.threads) := exited_of_stage h stage ht
  have standbys : s.pool.standbys = [] := by
    rw [Pool.standbys, List.flatMap_eq_nil_iff]
    exact c.ready closed
  have queue : s.pool.reclaimQ = [] := by
    obtain ⟨st, hst, hloop⟩ := exists_of_tally_pos (c.oneLoop.symm ▸ Int.one_pos)
    obtain ⟨t, ht, rfl⟩ := List.mem_map.mp hst
    refine (c.loopExited _ hst ?_).1
    cases hrole : t.stake.role with
    | loop b =>
      cases b with
      | true => rfl
      | false => exact absurd hrole (exited ht).1
    | _ => simp [hrole, Role.isLoop] at hloop
  have reaper : s.pool.reaper.elim [] Reaper.queue = [] := by
    cases hr : s.pool.reaper with
    | none => rfl
    | some r =>
      obtain ⟨st, hst, hworker⟩ := exists_of_tally_pos
        (lt_of_lt_of_le Int.one_pos (c.workers.mp (by simp [Pool.ledger, hr])))
      obtain ⟨t, ht, rfl⟩ := List.mem_map.mp hst
      refine (c.workerExited _ hst ?_ r hr).1
      cases hrole : t.stake.role with
      | worker b =>
        cases b with
        | true => rfl
        | false => exact absurd hrole (exited ht).2
      | _ => simp [hrole, Role.isWorker] at hworker
  simp [Sys.held, standbys, queue, reaper]

end Stage

theorem not_returned_of_held (ht : t ∈ s.threads) (hvm : vm ∈ t.owned ∨ vm ∈ t.calling) :
    vm ∈ s.pool.hist.restored ∧ vm ∉ s.pool.hist.destroyReturns ∧ vm ∉ s.pool.hist.reapReturns := by
  have once := List.nodup_iff_count_le_one.mp (restored_nodup h) vm
  have held := (held_perm_restored h).count_eq vm
  have returned := (custody_of_pool h).returned_perm.count_eq vm
  have hands : 1 ≤ s.held.count vm ∨
      1 ≤ ((s.threads.map Thread.stake).flatMap Stake.inDestroy).count vm := by
    rcases hvm with hvm | hvm
    · refine .inl (List.one_le_count_iff.mpr ?_)
      simp only [Sys.held, List.mem_append, List.mem_flatMap]
      exact .inl (.inl (.inr ⟨t, ht, hvm⟩))
    · rw [t.vms_eq.2] at hvm
      exact .inr (List.one_le_count_iff.mpr
        (List.mem_flatMap.mpr ⟨t.stake, List.mem_map_of_mem ht, hvm⟩))
  simp only [List.count_append, Pool.ledger_hist] at held returned
  exact ⟨List.one_le_count_iff.mp (by omega), List.count_eq_zero.mp (by omega),
    List.count_eq_zero.mp (by omega)⟩

theorem returned_of_none_held (held : s.held = []) (calls : ∀ t ∈ s.threads, t.calling = [])
    (hvm : vm ∈ s.pool.hist.restored) :
    vm ∈ s.pool.hist.destroyReturns ∨ vm ∈ s.pool.hist.reapReturns := by
  have called := held_perm_restored h
  rw [held, List.nil_append] at called
  have running : (s.threads.map Thread.stake).flatMap Stake.inDestroy = [] := by
    rw [List.flatMap_map, List.flatMap_eq_nil_iff]
    exact fun t ht => t.vms_eq.2.symm.trans (calls t ht)
  have returned := (custody_of_pool h).returned_perm
  rw [running, List.append_nil] at returned
  exact List.mem_append.mp (returned.mem_iff.mpr (called.mem_iff.mpr hvm))

end Returned

/-- INTERNAL: **what `Close` leaves behind**. When a `Close` has returned and no call on the pool
is in progress, the teardown of every VM the pool ever restored has returned exactly when no
ticker callback has a VM in its hands.
SRCLINE: pool.go:689-757, sweep.go:113-182 -/
theorem close_returned_destroyed_iff {cfg : Config} {lc : Launcher} {s : Sys}
    (h : Reachable (poolSystem cfg lc) s) {closer : Bool}
    (returned : .close (.returned closer) ∈ s.threads)
    (idle : ∀ t ∈ s.threads, t.inProgress = false) :
    (∀ vm ∈ s.pool.hist.restored,
      vm ∈ s.pool.hist.destroyReturns ∨ vm ∈ s.pool.hist.reapReturns) ↔
    ∀ pc, .ticker pc ∈ s.threads →
      (Thread.ticker pc).owned = [] ∧ (Thread.ticker pc).calling = [] := by
  obtain ⟨closed, stage⟩ := stage_of_returned h returned idle
  constructor
  · intro all pc ht
    have none_held (vm : VM)
        (hvm : vm ∈ (Thread.ticker pc).owned ∨ vm ∈ (Thread.ticker pc).calling) : False := by
      obtain ⟨restored, destroyed, reaped⟩ := not_returned_of_held h ht hvm
      exact (all vm restored).elim destroyed reaped
    exact ⟨List.eq_nil_iff_forall_not_mem.mpr fun vm hvm => none_held vm (.inl hvm),
      List.eq_nil_iff_forall_not_mem.mpr fun vm hvm => none_held vm (.inr hvm)⟩
  · intro tickers
    have hands {t : Thread} (ht : t ∈ s.threads) : t.owned = [] ∧ t.calling = [] := by
      rcases idle_or_ticker h stage ht (idle t ht) with hidle | ⟨pc, rfl⟩
      · exact hidle
      · exact tickers pc ht
    have held : s.held = [] := by
      rw [held_of_stage h stage closed, List.flatMap_eq_nil_iff]
      exact fun t ht => (hands ht).1
    exact fun vm hvm => returned_of_none_held h held (fun t ht => (hands ht).2) hvm

/-- After one `Exec` and a `Close`, with no ticker callback started. -/
theorem close_returned_destroyed_iff_no_ticker :
    ∃ s vm, Reachable (poolSystem (smallConfig 0) smallLauncher) s ∧
      .close (.returned true) ∈ s.threads ∧ vm ∈ s.pool.hist.restored ∧
      (vm ∈ s.pool.hist.destroyReturns ∨ vm ∈ s.pool.hist.reapReturns) := by
  obtain ⟨s, hs, hP⟩ := exists_reachable_of_runSmall 0 execThenClose
    (fun s => s.threads.all (fun t => !t.inProgress) &&
      s.threads.contains (.close (.returned true)) &&
      s.threads.all (fun t => !(t matches .ticker _)) && !s.pool.hist.restored.isEmpty)
    (by decide +kernel)
  simp only [Bool.and_eq_true, List.all_eq_true, Bool.not_eq_true', List.contains_iff_mem] at hP
  obtain ⟨⟨⟨idle, returned⟩, noTicker⟩, hsome⟩ := hP
  obtain ⟨vm, hvm⟩ : ∃ vm, vm ∈ s.pool.hist.restored := by
    simpa [List.isEmpty_iff, List.eq_nil_iff_forall_not_mem] using hsome
  exact ⟨s, vm, hs, returned, hvm, (close_returned_destroyed_iff hs returned idle).mpr
    (fun pc hpc => absurd (noTicker _ hpc) (by simp)) vm hvm⟩

/-- A sweep that has taken an idle standby and not queued it yet, and a `Close` up to its last
statement. -/
def closeDuringSweep : List Action :=
  .callExec "a" 0 :: List.replicate 17 (.run 1 .go) ++
    [.tick 200000000, .fireReplenish ⟨0, "a", 200000000⟩] ++ List.replicate 6 (.run 2 .go) ++
    [.tick 90000000000, .fireTicker, .run 3 .go, .run 3 .go, .run 3 (.visit "a" ⟨0, false⟩),
      .run 3 .go] ++
    [.callClose, .run 4 (.victims []), .run 4 .go, .run 4 .go, .run 4 .go, .run 0 .go, .run 4 .go,
      .run 4 .go]

/-- `Close` returns while the ticker's sweep still holds a VM that nobody has destroyed: the
sweep took it out of its run before `Close` took the standbys, and queues or destroys it
after. -/
theorem close_returned_ticker_holds_vm :
    ∃ s s' vm, Reachable (poolSystem (smallConfig 0) smallLauncher) s ∧
      s.threads[4]? = some (.close .waitReaper) ∧ sysStep s (.run 4 .go) = some s' ∧
      s'.threads[4]? = some (.close (.returned true)) ∧
      (∀ t ∈ s'.threads, t.inProgress = false) ∧
      vm ∈ s'.pool.hist.restored ∧ vm ∉ s'.pool.hist.destroyCalls := by
  obtain ⟨s, hs, hP⟩ := exists_reachable_of_runSmall 0 closeDuringSweep
    (fun s => (s.threads[4]? == some (.close .waitReaper)) &&
      ((sysStep s (.run 4 .go)).map fun s' =>
        (s'.threads[4]? == some (.close (.returned true))) &&
        s'.threads.all (fun t => !t.inProgress) &&
        s'.pool.hist.restored.any fun vm => vm ∉ s'.pool.hist.destroyCalls) == some true)
    (by decide +kernel)
  simp only [Bool.and_eq_true, beq_iff_eq] at hP
  obtain ⟨waits, hstep⟩ := hP
  obtain ⟨s', step, hs'⟩ := Option.map_eq_some_iff.mp hstep
  simp only [Bool.and_eq_true, beq_iff_eq, List.all_eq_true, Bool.not_eq_true', List.any_eq_true,
    decide_eq_true_eq] at hs'
  obtain ⟨⟨returned, idle⟩, vm, hvm, hnot⟩ := hs'
  exact ⟨s, s', vm, hs, waits, step, returned, idle, hvm, hnot⟩

end ServerlessHarness.VmPool
