import ServerlessHarness.Interface.VmPool.Marks

/-!
# Restores in flight

`warming` counts the restores of a run that are under way. An `acquire` starts one only when there
is none, a replenish callback only below `StandbyDepth`, and each of them ends with the settled
channel closed and replaced, whether it succeeded or not. `RunPool.Evolves` says how one step may
change a run in these terms; from it follow a bound on what a run holds
(`standbys_and_warmings_bounded`), and that no `acquire` waits for a restore that is not there
(`acquire_waits_for_restore`).
-/

set_option autoImplicit false

namespace ServerlessHarness.VmPool

open Library

/-- How one step changes a run's standbys, its restores in flight and its settled channel. -/
inductive RunPool.Evolves (depth : Int) (rp rp' : RunPool) : Prop where
  | quiet (ready : rp'.ready.length ≤ rp.ready.length) (warming : rp'.warming = rp.warming)
      (settled : rp'.settled = rp.settled)
  | cold (ready : rp'.ready = []) (idle : rp.warming ≤ 0) (warming : rp'.warming = rp.warming + 1)
      (settled : rp'.settled = rp.settled)
  | refill (room : (rp.ready.length : Int) + rp.warming < depth) (ready : rp'.ready = rp.ready)
      (warming : rp'.warming = rp.warming + 1) (settled : rp'.settled = rp.settled)
  | settle (ready : rp'.ready.length ≤ rp.ready.length + 1) (warming : rp'.warming = rp.warming - 1)
      (settled : rp'.settled = rp.settled + 1)

/-- The standbys and the restores in flight together are within `depth`, or one. -/
def RunPool.Bounded (depth : Int) (rp : RunPool) : Prop :=
  (rp.ready.length : Int) + rp.warming ≤ max 1 depth

/-- The settled channel `epoch` of the run is closed, or it is the current one and a restore is in
flight that will close it. -/
def RunPool.Awaits (rp : RunPool) (epoch : Nat) : Prop :=
  epoch < rp.settled ∨ epoch = rp.settled ∧ 0 < rp.warming

section Evolves

variable {depth : Int} {rp rp' : RunPool} {epoch : Nat}

theorem RunPool.Evolves.refl (depth : Int) (rp : RunPool) : rp.Evolves depth rp :=
  .quiet (le_refl _) rfl rfl

theorem RunPool.Evolves.bounded (h : rp.Evolves depth rp') (hrp : rp.Bounded depth) :
    rp'.Bounded depth := by
  unfold Bounded at hrp ⊢
  cases h with
  | quiet | settle => omega
  | cold ready idle warming =>
    rw [ready, warming, List.length_nil]
    omega
  | refill room ready warming =>
    rw [ready, warming]
    omega

theorem RunPool.Evolves.awaits (h : rp.Evolves depth rp') (hrp : rp.Awaits epoch) :
    rp'.Awaits epoch := by
  unfold Awaits at hrp ⊢
  cases h <;> omega

end Evolves

/-! ## Every step -/

/-- How one step changes the runs: each of them in one of these ways, but for the run it creates. -/
structure Pool.Evolves (p p' : Pool) : Prop where
  nextRun : p.nextRun ≤ p'.nextRun
  heap : ∀ g, (p.heap g).Evolves p.cfg.standbyDepth (p'.heap g) ∨
    g = p.nextRun ∧ (p'.heap g).ready = [] ∧ (p'.heap g).warming ≤ 1

variable {c c' : ExecCall} {ch : Choice} {s : Sys} {cfg : Config} {lc : Launcher} {t : Thread}
  {key : Key} {pc : ExecPc}

section Steps

variable {p p' : Pool}

theorem Pool.Evolves.of_same (h : SameRuns p p') : p.Evolves p' where
  nextRun := le_of_eq h.nextRun.symm
  heap := by
    intro g
    rw [h.heap]
    exact .inl (.refl _ _)

theorem Pool.Evolves.of_update {g : Nat} {rp : RunPool} (hnext : p.nextRun ≤ p'.nextRun)
    (hheap : p'.heap = Function.update p.heap g rp)
    (h : (p.heap g).Evolves p.cfg.standbyDepth rp ∨ g = p.nextRun ∧ rp.ready = [] ∧
      rp.warming ≤ 1) :
    p.Evolves p' where
  nextRun := hnext
  heap := by
    intro g'
    rw [hheap]
    by_cases hg : g' = g
    · subst hg
      rw [Function.update_self]
      exact h
    · rw [Function.update_of_ne hg]
      exact .inl (.refl _ _)

theorem Pool.Evolves.of_writes {g : Nat} {rp : RunPool} (hw : Writes p g rp p')
    (h : (p.heap g).Evolves p.cfg.standbyDepth rp) : p.Evolves p' :=
  .of_update (le_of_eq hw.nextRun.symm) hw.heap (.inl h)

theorem evolves_of_acquireMove {a : Acquired} (h : AcquireMove p key a p') : p.Evolves p' := by
  -- the run that was found or created is written
  have hrun : ∀ {g : Nat} {q : Pool} {rp : RunPool}, RunMove p key g q → Writes q g rp p' →
      (q.heap g).Evolves p.cfg.standbyDepth rp → rp.warming ≤ (q.heap g).warming + 1 →
      (rp.ready.length ≤ (q.heap g).ready.length) → p.Evolves p' := by
    intro g q rp hmove hw hrp hwarming hready
    cases hmove with
    | found => exact .of_writes hw hrp
    | created =>
      rw [Pool.setRun_heap_self] at hwarming hready
      refine .of_update ?_ ?_ (.inr
        ⟨rfl, List.eq_nil_of_length_eq_zero (Nat.le_zero.mp hready), hwarming⟩)
      · rw [hw.nextRun]
        exact Nat.le_succ _
      · rw [hw.heap]
        exact Function.update_idem ..
  cases h with
  | same => exact .of_same (.refl p)
  | @warm g q _ vm rest hmove hready hw =>
    have hlength : rest.length ≤ (q.heap g).ready.length := by
      rw [hready, List.length_append]
      exact Nat.le_add_right _ _
    exact hrun hmove hw (.quiet hlength rfl rfl) (Int.le_add_one (le_refl _)) hlength
  | unparked hmove _ _ hw =>
    exact hrun hmove hw (.quiet (le_refl _) rfl rfl) (Int.le_add_one (le_refl _)) (le_refl _)
  | cold hmove hready hwarming hw =>
    exact hrun hmove hw (.cold hready hwarming rfl rfl) (le_refl _) (le_refl _)

theorem evolves_of_sweepMove (h : SweepMove p p') : p.Evolves p' := by
  cases h with
  | same h => exact .of_same h
  | visit _ h =>
    obtain ⟨ready, pending, parked, hself⟩ := h.fields
    obtain ⟨taken, -, hready, -, -⟩ := h.taken
    refine .of_update (le_of_eq h.nextRun.symm) h.heap_eq (.inl (.quiet ?_ ?_ ?_))
    · rw [hready, List.length_append]
      exact Nat.le_add_left _ _
    · rw [hself]
    · rw [hself]

theorem evolves_of_execMove {pc' : ExecPc} (h : ExecMove p c pc ch p' c' pc') : p.Evolves p' := by
  cases h with
  | sweep h => exact evolves_of_sweepMove h
  | acquire => exact evolves_of_acquireMove (acquireLocked_moves p c.key)
  | warm h => exact .of_same (sameRuns_of_warmStep h)
  | @settleCold run _ vm =>
    obtain ⟨inFlight, backoff, hw⟩ := settleCold_writes p run (some vm)
    exact .of_writes hw (.settle (Nat.le_succ _) rfl rfl)
  | @settleFailed run =>
    obtain ⟨inFlight, backoff, hw⟩ := settleCold_writes p run none
    exact .of_writes hw (.settle (Nat.le_succ _) rfl rfl)
  | takeGate | openGate => exact .of_update (le_refl _) rfl (.inl (.quiet (le_refl _) rfl rfl))
  | destroy =>
    rcases destroyLocked_writes p c.key with hsame | ⟨g, inFlight, pending, -, hw⟩
    · exact .of_same hsame
    · exact .of_writes hw (.quiet (le_refl _) rfl rfl)
  | resume _ same | tear _ _ same | torn _ same => exact .of_same same
  | _ => exact .of_same (.refl p)

theorem evolves_of_replenishMove {tm : Nat} {pc pc' : ReplenishPc}
    (h : ReplenishMove p key tm pc ch p' pc') : p.Evolves p' := by
  cases h with
  | forget =>
    rcases forgetPending_writes p key tm with hsame | ⟨g, pending, hw⟩
    · exact .of_same hsame
    · exact .of_writes hw (.quiet (le_refl _) rfl rfl)
  | skip h =>
    rcases replenishOneLocked_none h with hsame | ⟨g, backoff, pending, hw⟩
    · exact .of_same hsame
    · exact .of_writes hw (.quiet (le_refl _) rfl rfl)
  | start h =>
    obtain ⟨-, -, hdepth, -, hw⟩ := replenishOneLocked_some h
    exact .of_writes hw (.refill hdepth rfl rfl rfl)
  | warm h => exact .of_same (sameRuns_of_warmStep h)
  | @settle run _ _ vm =>
    obtain ⟨ready, backoff, pending, hready, hw⟩ := settleReplenish_writes p run vm
    refine .of_writes hw (.settle ?_ rfl rfl)
    rcases hready with hready | ⟨v, -, hready⟩
    · rw [hready]
      exact Nat.le_succ _
    · rw [hready, List.length_append]
      exact le_refl _
  | finish _ _ same => exact .of_same same

theorem evolves_of_closeLocked (p : Pool) : p.Evolves p.closeLocked where
  nextRun := le_refl _
  heap := by
    intro g
    left
    unfold Pool.closeLocked
    dsimp only
    split
    · exact .quiet (Nat.zero_le _) rfl rfl
    · exact .refl _ _

theorem evolves_of_moves {t' : Thread} (h : Moves p t ch p' t') : p.Evolves p' := by
  cases h with
  | exec h => exact evolves_of_execMove h
  | replenish h => exact evolves_of_replenishMove h
  | sweep h => exact evolves_of_sweepMove h
  | reclaim h =>
    rcases reclaimLocked_frame h with hsame | ⟨g, -, hnext, hheap, -⟩
    · exact .of_same hsame
    · exact .of_update (le_of_eq hnext.symm) hheap (.inl (.quiet (Nat.zero_le _) rfl rfl))
  | close => exact evolves_of_closeLocked p

end Steps

/-- INTERNAL: **how a step of the pool and its environment changes the runs**. -/
theorem sysStep_evolves {s' : Sys} {a : Action} (h : sysStep s a = some s') :
    s.pool.Evolves s'.pool := by
  rcases sysStep_cases h with ⟨⟨now, timers, ticker, heq⟩, -⟩ | ⟨i, ch, t, t', -, -, hstep, -⟩
  · rw [heq]
    exact .of_same ⟨rfl, rfl, rfl, rfl⟩
  · exact evolves_of_moves (threadStep_moves hstep)

/-! ## What a run holds -/

theorem newPool_heap {now : Int} {dirs : DirTree} (h : newPool cfg lc now dirs = .ok s) (g : Nat) :
    (s.pool.heap g).ready = [] ∧ (s.pool.heap g).warming = 0 := by
  unfold newPool at h
  split at h
  · cases h
  · split at h
    · cases h
    · split at h
      · cases h
      · cases h
        unfold Pool.armTickerLocked
        dsimp only
        split
        · exact ⟨rfl, rfl⟩
        · exact ⟨rfl, rfl⟩

/-- **What a run holds is bounded**: in every state of a pool, whoever holds `p.mu`, the standbys
of a run and its restores in flight are at most `StandbyDepth`, or one where that is less. The run
`g` is any that was ever created, whether or not it is still in the map.
SRCLINE: pool.go:392-492, replenish.go:50-145 -/
theorem standbys_and_warmings_bounded {cfg : Config} {lc : Launcher} {s : Sys}
    (h : Reachable (poolSystem cfg lc) s) (g : Nat) :
    ((s.pool.heap g).ready.length : Int) + (s.pool.heap g).warming ≤
      max 1 s.pool.cfg.standbyDepth := by
  have hcfg : ∀ {s s' : Sys}, Reachable (poolSystem cfg lc) s → Reachable (poolSystem cfg lc) s' →
      s'.pool.cfg = s.pool.cfg := by
    intro s s' hs hs'
    have hnormal := (frame_of_pool hs).1
    rw [(frame_of_pool hs').1] at hnormal
    exact Except.ok.inj hnormal
  suffices hbound : ∀ g, (s.pool.heap g).Bounded s.pool.cfg.standbyDepth from hbound g
  refine h.invariant (P := fun s => ∀ g, (s.pool.heap g).Bounded s.pool.cfg.standbyDepth) ?_ ?_
  · rintro s ⟨now, dirs, hnew⟩ g
    obtain ⟨hready, hwarming⟩ := newPool_heap hnew g
    unfold RunPool.Bounded
    rw [hready, hwarming, List.length_nil]
    omega
  · rintro s s' hs hbound ⟨a, ha⟩ g
    rw [hcfg hs (.step hs ⟨a, ha⟩)]
    rcases (sysStep_evolves ha).heap g with hevolves | ⟨-, hready, hwarming⟩
    · exact hevolves.bounded (hbound g)
    · unfold RunPool.Bounded
      rw [hready, List.length_nil]
      omega

/-- With a standby of "a" and no restore in flight, the bound of one is reached. -/
theorem standbys_and_warmings_bounded_one :
    ∃ s, Reachable (poolSystem (smallConfig 0) smallLauncher) s ∧ s.pool.cfg.standbyDepth = 1 ∧
      ((s.pool.heap 0).ready.length : Int) + (s.pool.heap 0).warming = 1 ∧
      ((s.pool.heap 0).ready.length : Int) + (s.pool.heap 0).warming ≤
        max 1 s.pool.cfg.standbyDepth := by
  obtain ⟨s, hs, hP⟩ := exists_reachable_of_runSmall 0 standbyA
    (fun s => decide (s.pool.cfg.standbyDepth = 1 ∧
      ((s.pool.heap 0).ready.length : Int) + (s.pool.heap 0).warming = 1)) (by decide +kernel)
  obtain ⟨hdepth, hone⟩ := of_decide_eq_true hP
  exact ⟨s, hs, hdepth, hone, standbys_and_warmings_bounded hs 0⟩

/-! ## What an `acquire` waits for -/

/-- The run that a goroutine restores a VM for, from the increment of `warming` to its decrement. -/
def Thread.restoring : Thread → Option Nat
  | .exec _ (.warming run _ _) => some run
  | .replenish _ _ (.warming run _ _) => some run
  | _ => none

/-- The settled channel that an `acquire` is blocked on: its run, and which of the run's
channels. -/
def Thread.waitsFor : Thread → Option (Nat × Nat)
  | .exec _ (.waitSettled run epoch) => some (run, epoch)
  | _ => none

theorem Thread.restoring_eq (t : Thread) : t.restoring = t.stake.warm.map fun w => w.entry.2 := by
  cases t with
  | exec c pc =>
    cases pc with
    | sweep pc => cases pc <;> rfl
    | _ => rfl
  | ticker pc =>
    cases pc with
    | sweep pc => cases pc <;> rfl
    | _ => rfl
  | close pc =>
    cases pc with
    | returned closer => cases closer <;> rfl
    | _ => rfl
  | replenish key tm pc | reclaim key pc | reclaimLoop pc | reapWorker pc | probe pc =>
    cases pc <;> rfl

/-- The run is old enough to be waited for, its channel `epoch` is closed or will be, and a run
whose channel is still to be closed is in the map. -/
structure Pool.Waits (p : Pool) (run epoch : Nat) : Prop where
  old : run < p.nextRun
  awaits : (p.heap run).Awaits epoch
  live : ¬epoch < (p.heap run).settled → ∃ key, (key, run) ∈ p.runs

section Waits

variable {p p' : Pool} {run epoch : Nat}

theorem Pool.Waits.step (hkeys : (p.runs.map Prod.fst).Nodup) (h : p.Evolves p')
    (hmap : MapMove p p')
    (hw : p.Waits run epoch) : p'.Waits run epoch := by
  have hevolves : (p.heap run).Evolves p.cfg.standbyDepth (p'.heap run) := by
    rcases h.heap run with hevolves | ⟨hnew, -⟩
    · exact hevolves
    · exact absurd hnew (Nat.ne_of_lt hw.old)
  refine ⟨lt_of_lt_of_le hw.old h.nextRun, hevolves.awaits hw.awaits, ?_⟩
  intro hopen
  have hwas : ¬epoch < (p.heap run).settled := by
    cases hevolves with
    | quiet _ _ settled | cold _ _ _ settled | refill _ _ _ settled =>
      rw [← settled]
      exact hopen
    | settle _ _ settled => omega
  obtain ⟨key, hlive⟩ := hw.live hwas
  refine ⟨key, ?_⟩
  cases hmap with
  | same hruns =>
    rw [hruns]
    exact hlive
  | created hruns =>
    rw [hruns]
    exact List.mem_append_left _ hlive
  | @dropped e hlookup hidle hruns =>
    rw [hruns]
    refine List.mem_filter.mpr ⟨hlive, decide_eq_true ?_⟩
    rintro rfl
    -- the run that is dropped is not busy, and this one has a restore in flight
    have hsame : run = e.2 := by
      have hfound := (lookup_eq_some_iff hkeys).mpr hlive
      rw [hlookup] at hfound
      exact (Option.some.inj hfound).symm
    subst hsame
    rcases hw.awaits with hclosed | ⟨-, hwarming⟩
    · exact hwas hclosed
    · unfold RunPool.busy at hidle
      simp [hwarming] at hidle

theorem waits_of_acquireMove (hkeys : (p.runs.map Prod.fst).Nodup)
    (hfresh : ∀ e ∈ p.runs, e.2 < p.nextRun) (h : AcquireMove p key (.wait run epoch) p') :
    p'.Waits run epoch := by
  cases h with
  | same h => rcases h with h | ⟨e, h⟩ <;> cases h
  | unparked hrun _ h hw =>
    rcases h with ⟨hwarming, hwait⟩ | ⟨e, h⟩
    · cases hwait
      cases hrun with
      | found hlookup =>
        have hlive := (lookup_eq_some_iff hkeys).mp hlookup
        refine ⟨?_, ?_, ?_⟩
        · rw [hw.nextRun]
          exact hfresh _ hlive
        · rw [hw.heap, Function.update_self]
          exact .inr ⟨rfl, hwarming⟩
        · intro _
          rw [hw.runs]
          exact ⟨key, hlive⟩
      | created =>
        rw [Pool.setRun_heap_self] at hwarming
        exact absurd hwarming (lt_irrefl 0)
    · cases h

theorem acquired_of_waitSettled {a : Acquired}
    (h : ExecPc.ofAcquired c a = .waitSettled run epoch) : a = .wait run epoch := by
  cases a with
  | wait => cases h; rfl
  | _ => cases h

theorem acquireMove_of_waitSettled {pc' : ExecPc} (h : ExecMove p c pc ch p' c' pc')
    (hpc : pc' = .waitSettled run epoch) :
    AcquireMove p c.key (.wait run epoch) p' := by
  cases h with
  | acquire =>
    have hmove := acquireLocked_moves p c.key
    rw [acquired_of_waitSettled hpc] at hmove
    exact hmove
  | destroy h =>
    rw [hpc] at h
    cases h
  | tear _ h' =>
    rw [hpc] at h'
    cases h'
  | torn =>
    unfold ExecPc.afterTeardown at hpc
    split at hpc <;> cases hpc
  | _ => cases hpc

end Waits

/-- Every `acquire` that is blocked waits for a channel that is closed or will be. -/
def Sys.Waits (s : Sys) : Prop :=
  ∀ t ∈ s.threads, ∀ run epoch, t.waitsFor = some (run, epoch) → s.pool.Waits run epoch

theorem pc_of_waitsFor {run epoch : Nat} (h : (Thread.exec c pc).waitsFor = some (run, epoch)) :
    pc = .waitSettled run epoch := by
  cases pc with
  | waitSettled => cases h; rfl
  | _ => cases h

theorem newPool_waitsFor {now : Int} {dirs : DirTree} (h : newPool cfg lc now dirs = .ok s) :
    ∀ t ∈ s.threads, t.waitsFor = none := by
  unfold newPool at h
  split at h
  · cases h
  · split at h
    · cases h
    · split at h
      · cases h
      · cases h
        intro t ht
        rcases List.mem_cons.mp ht with rfl | hworker
        · rfl
        · rw [List.eq_of_mem_replicate hworker]
          rfl

theorem waitsFor_of_starting (h : t.starting = true) : t.waitsFor = none := by
  unfold Thread.starting at h
  split at h
  · rfl
  · rfl
  · rfl
  · rfl
  · rfl
  · rfl
  · cases h

theorem waitsFor_of_serves (h : t.serves = false) : t.waitsFor = none := by
  cases t with
  | exec => cases h
  | _ => rfl

theorem Sys.Waits.step {s' : Sys} {a : Action} (hs : Reachable (poolSystem cfg lc) s)
    (h : sysStep s a = some s') (hwaits : s.Waits) : s'.Waits := by
  have hbooks := books_of_pool hs
  cases sysStep_moves h with
  | clock =>
    intro t ht run epoch hwait
    obtain ⟨old, awaits, live⟩ := hwaits t ht run epoch hwait
    exact ⟨old, awaits, live⟩
  | spawn _ hstart =>
    refine forall_mem_concat ?_ fun run epoch hwait => ?_
    · intro t ht run epoch hwait
      obtain ⟨old, awaits, live⟩ := hwaits t ht run epoch hwait
      exact ⟨old, awaits, live⟩
    · rw [waitsFor_of_starting hstart] at hwait
      cases hwait
  | expire hi | cancel hi =>
    have hown := hwaits _ (List.mem_of_getElem? hi)
    refine forall_mem_set hwaits ?_
    intro run epoch hwait
    obtain rfl := pc_of_waitsFor hwait
    exact hown run epoch rfl
  | @run i ch t t' p' hi hstep =>
    have hmoves := threadStep_moves hstep
    -- whoever was waiting before the step
    have hkept : ∀ u ∈ s.threads, ∀ run epoch, u.waitsFor = some (run, epoch) →
        p'.Waits run epoch := by
      intro u hu run epoch hwait
      exact (hwaits u hu run epoch hwait).step hbooks.keys (evolves_of_moves hmoves)
        (mapMove_of_moves hmoves)
    refine forall_mem_set hkept ?_
    intro run epoch hwait
    cases hmoves with
    | exec hmove =>
      refine waits_of_acquireMove hbooks.keys hbooks.fresh (acquireMove_of_waitSettled hmove ?_)
      exact pc_of_waitsFor hwait
    | replenish => cases hwait
    | sweep _ hserves | reclaim _ hserves | close hserves =>
      rw [waitsFor_of_serves hserves] at hwait
      cases hwait

theorem waits_of_pool (h : Reachable (poolSystem cfg lc) s) :
    s.Waits := by
  refine h.invariant (P := Sys.Waits) ?_ ?_
  · rintro s ⟨now, dirs, hnew⟩ t ht run epoch hwait
    rw [newPool_waitsFor hnew t ht] at hwait
    cases hwait
  · rintro s s' hs hwaits ⟨a, ha⟩
    exact hwaits.step hs ha

theorem acquireMove_of_warming {p p' : Pool} {run : Nat} {req : RestoreRequest} {pc : WarmPc}
    (h : ExecMove p c .acquire ch p' c' (.warming run req pc)) :
    ∃ dir id, AcquireMove p c.key (.cold run dir id) p' := by
  generalize hpc : ExecPc.warming run req pc = pc' at h
  cases h with
  | acquire =>
    have hmove := acquireLocked_moves p c.key
    generalize p.acquireLocked c.key = r at hpc hmove
    obtain ⟨a, p'⟩ := r
    cases a with
    | cold g dir id =>
      cases hpc
      exact ⟨dir, id, hmove⟩
    | _ => cases hpc
  | tear h => cases h
  | torn h => cases h

section Restores

variable {cfg : Config} {lc : Launcher} {s : Sys} {run : Nat} {key : Key}

/-- A live run is counted as warming while a thread restores for it. -/
theorem exists_restoring_iff (hs : Reachable (poolSystem cfg lc) s)
    (hlive : (key, run) ∈ s.pool.runs) :
    0 < (s.pool.heap run).warming ↔ ∃ t ∈ s.threads, t.restoring = some run := by
  have hbooks := books_of_pool hs
  have hwarming := hbooks.warming_eq hlive
  constructor
  · intro hpos
    have hsum : 0 < total (Stake.warmed (only (key, run))) (s.threads.map Thread.stake) := by
      rw [← hwarming]
      exact hpos
    obtain ⟨st, hst, hshare⟩ := exists_pos_of_total_pos hsum
    obtain ⟨t, ht, rfl⟩ := List.mem_map.mp hst
    refine ⟨t, ht, ?_⟩
    unfold Stake.warmed only at hshare
    rw [t.restoring_eq]
    cases hwarm : t.stake.warm with
    | none =>
      rw [hwarm] at hshare
      exact absurd hshare (lt_irrefl 0)
    | some w =>
      rw [hwarm, Option.elim_some] at hshare
      split at hshare
      · rename_i hentry
        rw [Option.map_some, hentry]
      · exact absurd hshare (lt_irrefl 0)
  · rintro ⟨t, ht, hrestoring⟩
    rw [t.restoring_eq] at hrestoring
    obtain ⟨w, hw, hrun⟩ := Option.map_eq_some_iff.mp hrestoring
    have hpos := (hbooks.warm_live (List.mem_map_of_mem ht) hw).2
    rw [hrun] at hpos
    exact hpos

theorem restoring_lt_nextRun (hs : Reachable (poolSystem cfg lc) s) (ht : t ∈ s.threads)
    (h : t.restoring = some run) : run < s.pool.nextRun := by
  have hbooks := books_of_pool hs
  rw [t.restoring_eq] at h
  obtain ⟨w, hw, rfl⟩ := Option.map_eq_some_iff.mp h
  exact hbooks.fresh _ (hbooks.warm_live (List.mem_map_of_mem ht) hw).1

theorem restores_alone {dir : SlashPath} {id : String} {p' : Pool}
    (hs : Reachable (poolSystem cfg lc) s)
    (h : AcquireMove s.pool key (.cold run dir id) p') :
    (∀ t ∈ s.threads, t.restoring ≠ some run) ∧ (p'.heap run).warming = 1 := by
  have hbooks := books_of_pool hs
  cases h with
  | same hend => rcases hend with hend | ⟨e, hend⟩ <;> cases hend
  | unparked _ _ hend =>
    rcases hend with ⟨-, hend⟩ | ⟨e, hend⟩
    · cases hend
    · cases hend
  | @cold _ q _ _ hrun _ hidle hw =>
    have hafter : (p'.heap run).warming = (q.heap run).warming + 1 := by
      rw [hw.heap, Function.update_self]
    rw [hafter]
    cases hrun with
    | found hlookup =>
      have hlive := (lookup_eq_some_iff hbooks.keys).mp hlookup
      have hnonneg : 0 ≤ (s.pool.heap run).warming := (hbooks.counters_nonneg hlive).2
      refine ⟨?_, by omega⟩
      intro t ht hrestoring
      have hpos := (exists_restoring_iff hs hlive).mpr ⟨t, ht, hrestoring⟩
      omega
    | created =>
      rw [Pool.setRun_heap_self]
      refine ⟨?_, rfl⟩
      intro t ht hrestoring
      exact absurd (restoring_lt_nextRun hs ht hrestoring) (lt_irrefl _)

end Restores

/-- **No `acquire` waits for a restore that is not there, and none starts a second one**: in every
state of a pool, a goroutine that is blocked on a settled channel which is not closed waits for the
current channel of its run, the run's `warming` is above zero and some goroutine is restoring a VM
for it; and a turn of `acquire`'s loop starts a restore only when no goroutine is restoring a VM
for the run, which has one restore in flight then.
SRCLINE: pool.go:392-492, runpool.go:61-64, replenish.go:98-145 -/
theorem acquire_waits_for_restore {cfg : Config} {lc : Launcher} {s : Sys}
    (h : Reachable (poolSystem cfg lc) s) :
    (∀ (i : Nat) (c : ExecCall) (run epoch : Nat),
      s.threads[i]? = some (.exec c (.waitSettled run epoch)) → ¬epoch < (s.pool.heap run).settled →
        epoch = (s.pool.heap run).settled ∧ 0 < (s.pool.heap run).warming ∧
        ∃ t ∈ s.threads, t.restoring = some run) ∧
    ∀ (i : Nat) (ch : Choice) (s' : Sys) (c c' : ExecCall) (run : Nat)
      (req : RestoreRequest) (pc : WarmPc),
      s.threads[i]? = some (.exec c .acquire) → sysStep s (.run i ch) = some s' →
      s'.threads[i]? = some (.exec c' (.warming run req pc)) →
        (∀ t ∈ s.threads, t.restoring ≠ some run) ∧ (s'.pool.heap run).warming = 1 := by
  constructor
  · intro i c run epoch hi hopen
    have hthread := List.mem_of_getElem? hi
    obtain ⟨-, hawaits, hlive⟩ := waits_of_pool h _ hthread run epoch rfl
    rcases hawaits with hclosed | ⟨hcurrent, hwarming⟩
    · exact absurd hclosed hopen
    · obtain ⟨key, hmem⟩ := hlive hopen
      exact ⟨hcurrent, hwarming, (exists_restoring_iff h hmem).mp hwarming⟩
  · intro i ch s' c c' run req pc hi hstep hi'
    have hbooks := books_of_pool h
    cases sysStep_moves hstep with
    | spawn hrun => exact absurd rfl (hrun i ch)
    | @run _ _ t t' p' hit hthread =>
      rw [hi] at hit
      cases hit
      have hself : t' = .exec c' (.warming run req pc) := by
        have hlt : i < s.threads.length := (List.getElem?_eq_some_iff.mp hi).1
        rw [List.getElem?_set_self hlt] at hi'
        exact Option.some.inj hi'
      subst hself
      cases threadStep_moves hthread with
      | exec hmove =>
        obtain ⟨dir, id, hcold⟩ := acquireMove_of_warming hmove
        exact restores_alone h hcold
      | sweep _ hserves | reclaim _ hserves | close hserves => cases hserves

/-- The second `Exec` on "a" finds the restore of the first in flight. -/
def waitA : List Action :=
  .callExec "a" 0 :: List.replicate 6 (.run 1 .go) ++
    [.callExec "a" 0, .run 2 .go, .run 2 .go, .run 2 (.visit "a" ⟨0, false⟩)] ++
    List.replicate 4 (.run 2 .go)

/-- It waits for the run's first settled channel, and the first `Exec` is restoring a VM for the
run. -/
theorem acquire_waits_for_restore_second :
    ∃ s c, Reachable (poolSystem (smallConfig 0) smallLauncher) s ∧
      s.threads[2]? = some (.exec c (.waitSettled 0 0)) ∧ 0 < (s.pool.heap 0).warming ∧
      ∃ t ∈ s.threads, t.restoring = some 0 := by
  obtain ⟨s, hs, hP⟩ := exists_reachable_of_runSmall 0 waitA
    (fun s => decide (s.threads[2]? = some (Thread.exec ⟨"a", 0, some 1800000000000, false, false⟩
      (.waitSettled 0 0)) ∧ ¬0 < (s.pool.heap 0).settled)) (by decide +kernel)
  obtain ⟨hwait, hopen⟩ := of_decide_eq_true hP
  obtain ⟨-, hwarming, hrestore⟩ := (acquire_waits_for_restore hs).1 2 _ 0 0 hwait hopen
  exact ⟨s, _, hs, hwait, hwarming, hrestore⟩

end ServerlessHarness.VmPool
