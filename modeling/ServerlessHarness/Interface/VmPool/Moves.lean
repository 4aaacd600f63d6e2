import ServerlessHarness.Interface.VmPool.Sections
import ServerlessHarness.Model.VmPool.Goroutines

/-!
# The steps of the goroutines, inverted

`Moves` says what a step of a goroutine can do, once for every result that looks at the runs: it is
one critical section, or a statement between two of them, which leaves the map of runs and the runs
alone. The moves of an `Exec` (`ExecMove`) keep its program counters as well, since what an `Exec`
returns is decided there.
-/

set_option autoImplicit false

namespace ServerlessHarness.VmPool

open Library

/-- What a step of `sweep` does to the runs. -/
inductive SweepMove (p p' : Pool) : Prop where
  | same (h : SameRuns p p')
  | visit {now budget budget' : Int} {e : Key × Nat} {b b' : ReclaimBatch}
      (hlookup : p.runs.lookup e.1 = some e.2) (h : Visits now e budget b p budget' b' p')

/-- The run, the gate and the outcome of an `Exec` whose teardown has released the budget. -/
def ExecPc.tearing : ExecPc → Option (Nat × Bool × Option ExecOutcome)
  | .barrier run _ gated out | .submit run _ gated out | .reaping run _ gated out
  | .teardown run _ gated out | .destroying run _ gated out => some (run, gated, out)
  | _ => none

/-- A step of an `Exec`.
SRCLINE: pool.go:245-381, 392-492 -/
inductive ExecMove (p : Pool) (c : ExecCall) :
    ExecPc → Choice → Pool → ExecCall → ExecPc → Prop where
  | sweep {pc pc' : SweepPc} {ch : Choice} {p' : Pool} (h : SweepMove p p') :
      ExecMove p c (.sweep pc) ch p' c (.sweep pc')
  | swept : ExecMove p c (.sweep .finished) .go p c .checkKey
  | reject {e : RefusalError} (h : checkKey c.key = .error e) :
      ExecMove p c .checkKey .go p c (.done (.refused e))
  | accept (h : checkKey c.key = .ok ()) :
      ExecMove p c .checkKey .go p
        { c with deadline := some (p.now + (clampTimeoutS c.timeoutS).1 * second) } .acquire
  | acquire (free : p.mu.isSome = false) :
      ExecMove p c .acquire .go (p.acquireLocked c.key).2 c
        (.ofAcquired c (p.acquireLocked c.key).1)
  | settled {run epoch : Nat} (h : epoch < (p.heap run).settled) :
      ExecMove p c (.waitSettled run epoch) .go p c .acquire
  | leaveWait {run epoch : Nat} (h : c.runDone = true) :
      ExecMove p c (.waitSettled run epoch) .abort p c (.done (c.classify .aborted))
  | warm {run : Nat} {req : RestoreRequest} {pc pc' : WarmPc} {ch : Choice} {p' : Pool}
      (h : warmStep p req pc ch = some (p', pc')) :
      ExecMove p c (.warming run req pc) ch p' c (.warming run req pc')
  | settleCold {run : Nat} {req : RestoreRequest} {vm : VM} (free : p.mu.isSome = false) :
      ExecMove p c (.warming run req (.restored vm)) .go (p.settleCold run (some vm)) c
        (.gate run vm)
  | settleFailed {run : Nat} {req : RestoreRequest} (free : p.mu.isSome = false) :
      ExecMove p c (.warming run req .failed) .go (p.settleCold run none) c
        (.done (c.classify (.refused (.restore c.key))))
  | passGate {run : Nat} {vm : VM} : ExecMove p c (.gate run vm) .go p c (.held run vm false)
  | takeGate {run : Nat} {vm : VM} (h : (p.heap run).execGate = false) :
      ExecMove p c (.gate run vm) .go (p.setRun run { p.heap run with execGate := true }) c
        (.held run vm true)
  | leaveGate {run : Nat} {vm : VM} (h : c.runDone = true) :
      ExecMove p c (.gate run vm) .abort p c (.destroy run vm false none)
  | mismatch {run : Nat} {vm : VM} {gated : Bool} (h : vm.key ≠ c.key) :
      ExecMove p c (.held run vm gated) .go p c
        (.destroy run vm gated (some (.keyMismatch vm.key c.key)))
  | resume {run : Nat} {vm : VM} {gated : Bool} {p' : Pool} (h : vm.key = c.key)
    (same : SameRuns p p') :
      ExecMove p c (.held run vm gated) .go p' c (.resuming run vm gated)
  | resumed {run : Nat} {vm : VM} {gated : Bool} :
      ExecMove p c (.resuming run vm gated) .go p c (.running run vm gated)
  | resumeFailed {run : Nat} {vm : VM} {gated : Bool} :
      ExecMove p c (.resuming run vm gated) .fail p c
        (.destroy run vm gated (some (c.classify (.refused (.resume c.key)))))
  | ran {run : Nat} {vm : VM} {gated : Bool} {ch : Choice} {out : ExecOutcome}
      (h : out = .ok ∨ out = .runError) :
      ExecMove p c (.running run vm gated) ch p c (.destroy run vm gated (some (c.classify out)))
  | destroy {run : Nat} {vm : VM} {gated : Bool} {out : Option ExecOutcome} {pc' : ExecPc}
      (h : pc'.tearing = some (run, gated, out)) :
      ExecMove p c (.destroy run vm gated out) .go (p.destroyLocked c.key) c pc'
  | tear {run : Nat} {gated : Bool} {out : Option ExecOutcome} {pc pc' : ExecPc} {ch : Choice}
    {p' : Pool}
      (h : pc.tearing = some (run, gated, out)) (h' : pc'.tearing = some (run, gated, out))
      (same : SameRuns p p') : ExecMove p c pc ch p' c pc'
  | torn {run : Nat} {gated : Bool} {out : Option ExecOutcome} {pc : ExecPc} {ch : Choice}
    {p' : Pool}
      (h : pc.tearing = some (run, gated, out)) (same : SameRuns p p') :
      ExecMove p c pc ch p' c (.afterTeardown c run gated out)
  | openGate {run : Nat} {out : ExecOutcome} :
      ExecMove p c (.openGate run out) .go (p.setRun run { p.heap run with execGate := false }) c
        (.done out)

/-- A step of a replenish callback.
SRCLINE: replenish.go:65-145 -/
inductive ReplenishMove (p : Pool) (key : Key) (tm : Nat) :
    ReplenishPc → Choice → Pool → ReplenishPc → Prop where
  | forget : ReplenishMove p key tm .forget .go (p.forgetPending key tm) .start
  | skip {p' : Pool} (h : p.replenishOneLocked key = (none, p')) :
      ReplenishMove p key tm .start .go p' .done
  | start {p' : Pool} {run : Nat} {dir : SlashPath} {id : String}
      (h : p.replenishOneLocked key = (some (run, dir, id), p')) :
      ReplenishMove p key tm .start .go p' (.warming run ⟨some run, key, dir, id⟩ .mkdir)
  | warm {run : Nat} {req : RestoreRequest} {pc pc' : WarmPc} {ch : Choice} {p' : Pool}
      (h : warmStep p req pc ch = some (p', pc')) :
      ReplenishMove p key tm (.warming run req pc) ch p' (.warming run req pc')
  | settle {run : Nat} {req : RestoreRequest} {pc : WarmPc} {vm : Option VM} {pc' : ReplenishPc}
      (hvm : pc = .failed ∧ vm = none ∨ ∃ v, pc = .restored v ∧ vm = some v)
      (h : pc' = .finish ∨ ∃ d, pc' = .draining d) :
      ReplenishMove p key tm (.warming run req pc) .go (p.settleReplenish run vm).2 pc'
  | finish {pc pc' : ReplenishPc} {ch : Choice} {p' : Pool}
    (hpc : pc = .finish ∨ ∃ d, pc = .draining d)
      (h : pc' = .done ∨ pc' = .finish ∨ ∃ d, pc' = .draining d) (same : SameRuns p p') :
      ReplenishMove p key tm pc ch p' pc'

/-- The goroutine works for one run: it is an `Exec` or a replenish callback. -/
def Thread.serves : Thread → Bool
  | .exec _ _ => true
  | .replenish _ _ _ => true
  | _ => false

/-- A step of a goroutine. -/
inductive Moves (p : Pool) : Thread → Choice → Pool → Thread → Prop where
  | exec {c c' : ExecCall} {pc pc' : ExecPc} {ch : Choice} {p' : Pool}
    (h : ExecMove p c pc ch p' c' pc') :
      Moves p (.exec c pc) ch p' (.exec c' pc')
  | replenish {key : Key} {tm : Nat} {pc pc' : ReplenishPc} {ch : Choice} {p' : Pool}
      (h : ReplenishMove p key tm pc ch p' pc') :
        Moves p (.replenish key tm pc) ch p' (.replenish key tm pc')
  | sweep {t t' : Thread} {ch : Choice} {p' : Pool} (h : SweepMove p p') (ht' : t'.serves = false) :
      Moves p t ch p' t'
  | reclaim {key : Key} {d : Detach} {b : ReclaimBatch} {out : ReclaimOutcome} {t t' : Thread}
    {p' : Pool}
      (h : p.reclaimLocked key d = (b, out, p')) (ht' : t'.serves = false) :
        Moves p t (.detach d) p' t'
  | close {t t' : Thread} {order : List VM} (ht' : t'.serves = false) :
      Moves p t (.victims order) p.closeLocked t'

/-- What a step does to the map of runs. -/
inductive MapMove (p p' : Pool) : Prop where
  | same (h : p'.runs = p.runs)
  | created {key : Key} (h : p'.runs = p.runs ++ [(key, p.nextRun)])
  | dropped {e : Key × Nat} (hlookup : p.runs.lookup e.1 = some e.2)
    (hidle : (p.heap e.2).busy = false)
      (h : p'.runs = p.runs.filter fun x => x.1 ≠ e.1)

/-- The goroutine has just been started. -/
def Thread.starting : Thread → Bool
  | .exec c (.sweep .start) => c.deadline.isNone && !c.timedOut && !c.ctxDone
  | .replenish _ _ .forget => true
  | .ticker (.sweep .start) => true
  | .reclaim _ .lock => true
  | .close .lock => true
  | .probe .lock => true
  | _ => false

/-- A step of the pool and its environment. -/
inductive SysMove (s : Sys) : Action → Sys → Prop where
  | clock {d : Nat} : SysMove s (.tick d) { s with pool := { s.pool with now := s.pool.now + d } }
  | spawn {a : Action} {t : Thread} {timers : List ReplenishTimer} {ticker : Option Int}
      (ha : ∀ i ch, a ≠ .run i ch) (ht : t.starting = true) :
      SysMove s a ({ s with pool := { s.pool with timers := timers, ticker := ticker } }.spawn t)
  | expire {i : Nat} {c : ExecCall} {pc : ExecPc} (hi : s.threads[i]? = some (.exec c pc))
      (hdeadline : ∃ deadline ∈ c.deadline, deadline ≤ s.pool.now) :
      SysMove s (.timeout i)
        { s with threads := s.threads.set i (.exec { c with timedOut := true } pc) }
  | cancel {i : Nat} {c : ExecCall} {pc : ExecPc} (hi : s.threads[i]? = some (.exec c pc)) :
      SysMove s (.cancel i)
        { s with threads := s.threads.set i (.exec { c with ctxDone := true } pc) }
  | run {i : Nat} {ch : Choice} {t t' : Thread} {p' : Pool} (hi : s.threads[i]? = some t)
      (h : threadStep s.pool i t ch = some (p', t')) :
        SysMove s (.run i ch) ⟨p', s.threads.set i t'⟩

variable {ch : Choice} {key : Key} {me : Nat}

section Steps

variable {p p' : Pool}

/-! ## Statements between two critical sections -/

theorem sameRuns_of_drainStep {d d' : Drain} (h : drainStep p d ch = some (p', d')) :
    SameRuns p p' := by
  unfold drainStep at h
  split at h
  · cases h
    exact ⟨rfl, rfl, rfl, rfl⟩
  · split at h
    · cases h
      exact ⟨rfl, rfl, rfl, rfl⟩
    · cases h
      exact ⟨rfl, rfl, rfl, rfl⟩
    · cases h

theorem sameRuns_of_warmStep {req : RestoreRequest} {pc pc' : WarmPc}
    (h : warmStep p req pc ch = some (p', pc')) : SameRuns p p' := by
  unfold warmStep at h
  split at h
  · cases h
    exact ⟨rfl, rfl, rfl, rfl⟩
  · cases h
    exact ⟨rfl, rfl, rfl, rfl⟩
  · obtain ⟨inode, -, heq⟩ := Option.map_eq_some_iff.mp h
    cases heq
    exact ⟨rfl, rfl, rfl, rfl⟩
  · obtain ⟨inode, -, heq⟩ := Option.map_eq_some_iff.mp h
    cases heq
    exact ⟨rfl, rfl, rfl, rfl⟩
  · cases h
    exact ⟨rfl, rfl, rfl, rfl⟩
  · cases h

theorem sameRuns_of_drain {α : Type} {d : Drain} {done a : α} {f : Drain → α}
    (h : (if d.finished then some (p, done) else (drainStep p d ch).map fun r => (r.1, f r.2)) =
      some (p', a)) : SameRuns p p' ∧ (a = done ∨ ∃ d', a = f d') := by
  split at h
  · cases h
    exact ⟨.refl p, .inl rfl⟩
  · obtain ⟨⟨mid, d'⟩, hdrain, heq⟩ := Option.map_eq_some_iff.mp h
    cases heq
    exact ⟨sameRuns_of_drainStep hdrain, .inr ⟨d', rfl⟩⟩

/-! ## The goroutines -/

theorem sweepStep_moves {pc pc' : SweepPc} (h : sweepStep p me pc ch = some (p', pc')) :
    SweepMove p p' := by
  unfold sweepStep at h
  split at h
  -- start
  · cases h
    exact .same (.refl p)
  -- lock
  · split at h
    · cases h
    · cases h
      exact .same ⟨rfl, rfl, rfl, rfl⟩
  -- visiting
  · rename_i now todo budget b key d
    split at h
    · cases h
    · rename_i hgo
      have hbudget : 0 ≤ budget := le_of_lt (not_le.mp (not_or.mp hgo).1)
      split at h
      rename_i hvisit
      cases h
      cases hlookup : p.runs.lookup key with
      | none =>
        rw [sweepVisit_of_none hlookup] at hvisit
        cases hvisit
        exact .same (.refl p)
      | some g => exact .visit (e := (key, g)) hlookup (visits_of_sweepVisit hlookup hbudget hvisit)
  · split at h
    · cases h
      exact .same ⟨rfl, rfl, rfl, rfl⟩
    · cases h
  -- enqueue
  · split at h
    · cases h
    · split at h
      · cases h
        exact .same (.refl p)
      · split at h
        · cases h
          exact .same ⟨rfl, rfl, rfl, rfl⟩
        · cases h
          exact .same (.refl p)
  -- draining
  · exact .same (sameRuns_of_drain h).1
  · cases h

/-- Every step of `Exec` is a move. -/
theorem execStep_moves {c c' : ExecCall} {pc pc' : ExecPc}
    (h : execStep p c pc ch = some (p', c', pc')) : ExecMove p c pc ch p' c' pc' := by
  unfold execStep at h
  split at h
  -- checkKey
  · split at h
    · rename_i hkey
      cases h
      exact .reject hkey
    · rename_i hkey
      cases h
      exact .accept hkey
  -- acquire
  · split at h
    · cases h
    · rename_i hmu
      cases h
      exact .acquire (eq_false_of_ne_true hmu)
  -- waitSettled
  · split at h
    · rename_i hlt
      cases h
      exact .settled hlt
    · cases h
  · split at h
    · rename_i hdone
      cases h
      exact .leaveWait hdone
    · cases h
  -- warming
  · split at h
    · cases h
    · rename_i hmu
      cases h
      exact .settleCold (eq_false_of_ne_true hmu)
  · split at h
    · cases h
    · rename_i hmu
      cases h
      exact .settleFailed (eq_false_of_ne_true hmu)
  · obtain ⟨⟨mid, wpc⟩, hstep, heq⟩ := Option.map_eq_some_iff.mp h
    cases heq
    exact .warm hstep
  -- gate
  · split at h
    · cases h
      exact .passGate
    · split at h
      · cases h
      · rename_i hgate
        cases h
        exact .takeGate (eq_false_of_ne_true hgate)
  · split at h
    · rename_i hdone
      cases h
      exact .leaveGate hdone.2
    · cases h
  -- held
  · split at h
    · rename_i hkey
      cases h
      exact .mismatch hkey
    · rename_i hkey
      cases h
      exact .resume (not_not.mp hkey) ⟨rfl, rfl, rfl, rfl⟩
  -- resuming and running
  · cases h
    exact .resumed
  · cases h
    exact .resumeFailed
  · cases h
    exact .ran (.inl rfl)
  · cases h
    exact .ran (.inr rfl)
  -- destroy
  · split at h
    · cases h
    · split at h
      · cases h
        exact .destroy rfl
      · cases h
        exact .destroy rfl
  -- barrier
  · cases h
    exact .tear rfl rfl ⟨rfl, rfl, rfl, rfl⟩
  · cases h
    exact .tear rfl rfl ⟨rfl, rfl, rfl, rfl⟩
  -- submit
  · split at h
    · cases h
    · split at h
      · cases h
        exact .tear rfl rfl ⟨rfl, rfl, rfl, rfl⟩
      · split at h
        · cases h
          exact .torn rfl ⟨rfl, rfl, rfl, rfl⟩
        · cases h
          exact .tear rfl rfl ⟨rfl, rfl, rfl, rfl⟩
  -- reaping, teardown and destroying
  · cases h
    exact .torn rfl ⟨rfl, rfl, rfl, rfl⟩
  · cases h
    exact .tear rfl rfl ⟨rfl, rfl, rfl, rfl⟩
  · cases h
    exact .torn rfl ⟨rfl, rfl, rfl, rfl⟩
  -- openGate
  · cases h
    exact .openGate
  · cases h

theorem replenishStep_moves {tm : Nat} {pc pc' : ReplenishPc}
    (h : replenishStep p key tm pc ch = some (p', pc')) : ReplenishMove p key tm pc ch p' pc' := by
  unfold replenishStep at h
  split at h
  -- forget
  · split at h
    · cases h
    · cases h
      exact .forget
  -- start
  · split at h
    · cases h
    · split at h
      · rename_i hlocked
        cases h
        exact .skip hlocked
      · rename_i hlocked
        cases h
        exact .start hlocked
  -- warming
  · rename_i run req vm
    split at h
    · cases h
    · have hsettle : ∀ pc', (pc' = .finish ∨ ∃ d, pc' = .draining d) →
          ReplenishMove p key tm (.warming run req (.restored vm)) .go
            (p.settleReplenish run (some vm)).2
            pc' :=
        fun pc' => .settle (.inr ⟨vm, rfl, rfl⟩)
      split at h
      · rename_i heq
        rw [heq] at hsettle
        cases h
        exact hsettle _ (.inl rfl)
      · rename_i heq
        rw [heq] at hsettle
        cases h
        exact hsettle _ (.inr ⟨_, rfl⟩)
  · split at h
    · cases h
    · cases h
      exact .settle (.inl ⟨rfl, rfl⟩) (.inl rfl)
  · obtain ⟨⟨mid, wpc⟩, hstep, heq⟩ := Option.map_eq_some_iff.mp h
    cases heq
    exact .warm hstep
  -- draining
  · obtain ⟨hsame, hpc⟩ := sameRuns_of_drain h
    exact .finish (.inr ⟨_, rfl⟩) (.inr hpc) hsame
  -- finish
  · cases h
    exact .finish (.inl rfl) (.inl rfl) ⟨rfl, rfl, rfl, rfl⟩
  · cases h

theorem tickerStep_moves {pc pc' : TickerPc} (h : tickerStep p me pc ch = some (p', pc')) :
    SweepMove p p' := by
  unfold tickerStep at h
  split at h
  · cases h
    exact .same (.refl p)
  · obtain ⟨⟨mid, spc⟩, hsweep, heq⟩ := Option.map_eq_some_iff.mp h
    cases heq
    exact sweepStep_moves hsweep
  · split at h
    · cases h
    · cases h
      unfold Pool.armTickerLocked
      split
      · exact .same (.refl p)
      · exact .same ⟨rfl, rfl, rfl, rfl⟩
  · cases h

theorem reclaimStep_moves {pc pc' : ReclaimPc} (h : reclaimStep p key pc ch = some (p', pc')) :
    Moves p (.reclaim key pc) ch p' (.reclaim key pc') := by
  unfold reclaimStep at h
  split at h
  · split at h
    · cases h
    · split at h
      rename_i hlocked
      cases h
      exact .reclaim hlocked rfl
  · exact .sweep (.same (sameRuns_of_drain (f := fun d => ReclaimPc.draining d _) h).1) rfl
  · cases h

theorem closeStep_moves {pc pc' : ClosePc} (h : closeStep p pc ch = some (p', pc')) :
    Moves p (.close pc) ch p' (.close pc') := by
  unfold closeStep at h
  split at h
  -- lock
  · split at h
    · cases h
    · cases h
      exact .close rfl
  · split at h
    · cases h
      exact .sweep (.same (.refl p)) rfl
    · cases h
  -- waitWarms
  · split at h
    · cases h
      exact .sweep (.same (.refl p)) rfl
    · cases h
  -- draining
  · exact .sweep (.same (sameRuns_of_drain h).1) rfl
  -- closeQueue and waitReclaim
  · cases h
    exact .sweep (.same ⟨rfl, rfl, rfl, rfl⟩) rfl
  · split at h
    · cases h
      exact .sweep (.same (.refl p)) rfl
    · cases h
  -- closeReaper and waitReaper
  · cases h
    exact .sweep (.same ⟨rfl, rfl, rfl, rfl⟩) rfl
  · split at h
    · cases h
      exact .sweep (.same (.refl p)) rfl
    · cases h
  · cases h

theorem sameRuns_of_loopStep {pc pc' : LoopPc} (h : loopStep p pc ch = some (p', pc')) :
    SameRuns p p' := by
  unfold loopStep at h
  split at h
  · split at h
    · cases h
      exact ⟨rfl, rfl, rfl, rfl⟩
    · split at h
      · cases h
        exact ⟨rfl, rfl, rfl, rfl⟩
      · cases h
  · exact (sameRuns_of_drain h).1
  · cases h

theorem sameRuns_of_workerStep {pc pc' : WorkerPc} (h : workerStep p pc ch = some (p', pc')) :
    SameRuns p p' := by
  unfold workerStep at h
  split at h
  · split at h
    · cases h
    · split at h
      · cases h
        exact ⟨rfl, rfl, rfl, rfl⟩
      · split at h
        · cases h
          exact ⟨rfl, rfl, rfl, rfl⟩
        · cases h
  · cases h
    exact ⟨rfl, rfl, rfl, rfl⟩
  · cases h

theorem sameRuns_of_probeStep {pc pc' : ProbePc} (h : probeStep p pc ch = some (p', pc')) :
    SameRuns p p' := by
  unfold probeStep at h
  split at h
  -- lock
  · split at h
    · cases h
    · split at h
      · cases h
        exact .refl p
      · cases h
        exact ⟨rfl, rfl, rfl, rfl⟩
  -- warming
  · cases h
    exact .refl p
  · cases h
    exact .refl p
  · obtain ⟨⟨mid, wpc⟩, hstep, heq⟩ := Option.map_eq_some_iff.mp h
    cases heq
    exact sameRuns_of_warmStep hstep
  -- resume and running
  · cases h
    exact ⟨rfl, rfl, rfl, rfl⟩
  · cases h
    exact .refl p
  · cases h
    exact .refl p
  -- draining
  · exact (sameRuns_of_drain (f := fun d => ProbePc.draining d _) h).1
  · cases h

/-- INTERNAL: **what a step of a goroutine can do**. -/
theorem threadStep_moves {t t' : Thread} (h : threadStep p me t ch = some (p', t')) :
    Moves p t ch p' t' := by
  unfold threadStep at h
  split at h
  · cases h
    exact .exec .swept
  · obtain ⟨⟨mid, pc'⟩, hstep, heq⟩ := Option.map_eq_some_iff.mp h
    cases heq
    exact .exec (.sweep (sweepStep_moves hstep))
  · obtain ⟨⟨mid, c', pc'⟩, hstep, heq⟩ := Option.map_eq_some_iff.mp h
    cases heq
    exact .exec (execStep_moves hstep)
  · obtain ⟨⟨mid, pc'⟩, hstep, heq⟩ := Option.map_eq_some_iff.mp h
    cases heq
    exact .replenish (replenishStep_moves hstep)
  · obtain ⟨⟨mid, pc'⟩, hstep, heq⟩ := Option.map_eq_some_iff.mp h
    cases heq
    exact .sweep (tickerStep_moves hstep) rfl
  · obtain ⟨⟨mid, pc'⟩, hstep, heq⟩ := Option.map_eq_some_iff.mp h
    cases heq
    exact reclaimStep_moves hstep
  · obtain ⟨⟨mid, pc'⟩, hstep, heq⟩ := Option.map_eq_some_iff.mp h
    cases heq
    exact closeStep_moves hstep
  · obtain ⟨⟨mid, pc'⟩, hstep, heq⟩ := Option.map_eq_some_iff.mp h
    cases heq
    exact .sweep (.same (sameRuns_of_loopStep hstep)) rfl
  · obtain ⟨⟨mid, pc'⟩, hstep, heq⟩ := Option.map_eq_some_iff.mp h
    cases heq
    exact .sweep (.same (sameRuns_of_workerStep hstep)) rfl
  · obtain ⟨⟨mid, pc'⟩, hstep, heq⟩ := Option.map_eq_some_iff.mp h
    cases heq
    exact .sweep (.same (sameRuns_of_probeStep hstep)) rfl

/-! ## The map of runs -/

theorem mapMove_of_sweepMove (h : SweepMove p p') : MapMove p p' := by
  cases h with
  | same h => exact .same h.runs
  | @visit now _ _ e _ _ hlookup h =>
    rcases h.runs with hruns | ⟨hruns, -⟩
    · exact .same hruns
    · by_cases hsweep : p.sweepable now e.2 = true
      · obtain ⟨hbusy, -⟩ := (Bool.and_eq_true _ _).mp hsweep
        exact .dropped hlookup (Bool.not_eq_true' _ ▸ hbusy) hruns
      · rw [h.spared (eq_false_of_ne_true hsweep)]
        exact .same rfl

theorem mapMove_of_acquireMove {a : Acquired} (h : AcquireMove p key a p') : MapMove p p' := by
  have hrun : ∀ {g : Nat} {q : Pool} {rp : RunPool}, RunMove p key g q → Writes q g rp p' →
      MapMove p p' := by
    intro g q rp hmove hw
    cases hmove with
    | found => exact .same hw.runs
    | created => exact .created hw.runs
  cases h with
  | same => exact .same rfl
  | warm hmove _ hw | unparked hmove _ _ hw | cold hmove _ _ hw => exact hrun hmove hw

/-- INTERNAL: **only a run that is not busy leaves the map**. -/
theorem mapMove_of_moves {t t' : Thread} (h : Moves p t ch p' t') : MapMove p p' := by
  cases h with
  | exec h =>
    cases h with
    | sweep h => exact mapMove_of_sweepMove h
    | acquire => exact mapMove_of_acquireMove (acquireLocked_moves p _)
    | warm h => exact .same (sameRuns_of_warmStep h).runs
    | @settleCold run _ vm =>
      obtain ⟨_, _, hw⟩ := settleCold_writes p run (some vm)
      exact .same hw.runs
    | @settleFailed run =>
      obtain ⟨_, _, hw⟩ := settleCold_writes p run none
      exact .same hw.runs
    | destroy =>
      rcases destroyLocked_writes p _ with hsame | ⟨_, _, _, -, hw⟩
      · exact .same hsame.runs
      · exact .same hw.runs
    | resume _ same | tear _ _ same | torn _ same => exact .same same.runs
    | _ => exact .same rfl
  | replenish h =>
    cases h with
    | forget =>
      rcases forgetPending_writes p _ _ with hsame | ⟨_, _, hw⟩
      · exact .same hsame.runs
      · exact .same hw.runs
    | skip h =>
      rcases replenishOneLocked_none h with hsame | ⟨_, _, _, hw⟩
      · exact .same hsame.runs
      · exact .same hw.runs
    | start h => exact .same (replenishOneLocked_some h).2.2.2.2.runs
    | warm h => exact .same (sameRuns_of_warmStep h).runs
    | @settle run _ _ vm =>
      obtain ⟨_, _, _, -, hw⟩ := settleReplenish_writes p run vm
      exact .same hw.runs
    | finish _ _ same => exact .same same.runs
  | sweep h => exact mapMove_of_sweepMove h
  | @reclaim key _ _ _ _ _ _ h =>
    rcases reclaimLocked_frame h with hsame | ⟨g, hlookup, -, -, hruns⟩
    · exact .same hsame.runs
    · rcases hruns with hruns | ⟨hruns, hidle⟩
      · exact .same hruns
      · exact .dropped (e := (key, g)) hlookup hidle hruns
  | close => exact .same rfl

end Steps

theorem updateCall_eq_some {s s' : Sys} {i : Nat} {f : ExecCall → Option ExecCall}
    (h : s.updateCall i f = some s') :
    ∃ c c' pc, s.threads[i]? = some (.exec c pc) ∧ f c = some c' ∧
      s' = { s with threads := s.threads.set i (.exec c' pc) } := by
  unfold Sys.updateCall at h
  split at h
  · rename_i c pc hi
    obtain ⟨c', hc', heq⟩ := Option.map_eq_some_iff.mp h
    exact ⟨c, c', pc, hi, hc', heq.symm⟩
  · cases h

/-- INTERNAL: **what a step of the pool and its environment can do**. -/
theorem sysStep_moves {s s' : Sys} {a : Action} (h : sysStep s a = some s') : SysMove s a s' := by
  unfold sysStep at h
  split at h
  · cases h
  · split at h
    -- new calls
    · cases h
      exact .spawn (t := .exec _ (.sweep .start)) (fun _ _ heq => nomatch heq) rfl
    · cases h
      exact .spawn (t := .reclaim _ .lock) (fun _ _ heq => nomatch heq) rfl
    · cases h
      exact .spawn (t := .close .lock) (fun _ _ heq => nomatch heq) rfl
    · cases h
      exact .spawn (t := .probe .lock) (fun _ _ heq => nomatch heq) rfl
    -- the clock and the timers
    · cases h
      exact .clock
    · split at h
      · cases h
        exact .spawn (t := .replenish _ _ .forget) (fun _ _ heq => nomatch heq) rfl
      · cases h
    · split at h
      · cases h
      · split at h
        · cases h
          exact .spawn (t := .ticker (.sweep .start)) (fun _ _ heq => nomatch heq) rfl
        · cases h
    -- contexts
    · obtain ⟨c, c', pc, hi, hc', rfl⟩ := updateCall_eq_some h
      split at hc'
      · cases hc'
      · rename_i deadline hdeadline
        split at hc'
        · rename_i hle
          cases hc'
          exact .expire hi ⟨deadline, hdeadline, hle⟩
        · cases hc'
    · obtain ⟨c, c', pc, hi, hc', rfl⟩ := updateCall_eq_some h
      cases hc'
      exact .cancel hi
    -- a goroutine
    · split at h
      · cases h
      · rename_i hi
        obtain ⟨⟨p', t'⟩, hstep, heq⟩ := Option.map_eq_some_iff.mp h
        cases heq
        exact .run hi hstep

end ServerlessHarness.VmPool
