import Mathlib.Algebra.Order.Group.Int
import ServerlessHarness.Model.VmPool.Pool

/-!
# The critical sections, inverted

What each critical section of `Model.VmPool.Pool` does to the map of runs and to the runs, said
once for every result that looks at them: it writes some fields of one run (`Writes`), or it leaves
them alone (`SameRuns`). `Interface.VmPool.Moves` puts the sections together into the steps of the
goroutines.
-/

set_option autoImplicit false

namespace ServerlessHarness.VmPool

open Library

/-- The map of runs, the runs and the configuration are the same. -/
structure SameRuns (p p' : Pool) : Prop where
  cfg : p'.cfg = p.cfg
  runs : p'.runs = p.runs
  heap : p'.heap = p.heap
  nextRun : p'.nextRun = p.nextRun

theorem SameRuns.refl (p : Pool) : SameRuns p p := ⟨rfl, rfl, rfl, rfl⟩

/-- One run is written, and the map and the configuration are the same. -/
structure Writes (p : Pool) (g : Nat) (rp : RunPool) (p' : Pool) : Prop where
  cfg : p'.cfg = p.cfg
  runs : p'.runs = p.runs
  heap : p'.heap = Function.update p.heap g rp
  nextRun : p'.nextRun = p.nextRun

/-- `runLocked` finds the run of `key`, or creates it.
SRCLINE: pool.go:557-577 -/
inductive RunMove (p : Pool) (key : Key) : Nat → Pool → Prop where
  | found {g : Nat} (h : p.runs.lookup key = some g) : RunMove p key g p
  | created {dir : SlashPath} (h : p.runs.lookup key = none)
    (hadmits : p.admitLocked true = .ok ()) :
      RunMove p key p.nextRun
        (Pool.setRun { p with nextRun := p.nextRun + 1, runs :=
          p.runs ++ [(key, p.nextRun)] } p.nextRun
          (.fresh key dir p.now))

/-- One turn of `acquire`'s loop: `q` is the pool with the run of `key` in it.
SRCLINE: pool.go:396-459 -/
inductive AcquireMove (p : Pool) (key : Key) : Acquired → Pool → Prop where
  | same {a : Acquired} (h : a = .closed ∨ ∃ e, a = .refused e) : AcquireMove p key a p
  | warm {g : Nat} {q p' : Pool} {vm : VM} {rest : List VM} (hrun : RunMove p key g q)
      (hready : (q.heap g).ready = rest ++ [vm])
      (hw : Writes q g { q.heap g with
        lastExec := q.now, ready := rest, inFlight := (q.heap g).inFlight + 1 } p') :
      AcquireMove p key (.warm g vm) p'
  | unparked {g : Nat} {q p' : Pool} {a : Acquired} (hrun : RunMove p key g q)
      (hready : (q.heap g).ready = [])
      (h : 0 < (q.heap g).warming ∧ a = .wait g (q.heap g).settled ∨ ∃ e, a = .refused e)
      (hw : Writes q g { q.heap g with lastExec := q.now, parked := false } p') :
        AcquireMove p key a p'
  | cold {g : Nat} {q p' : Pool} {id : String} (hrun : RunMove p key g q)
    (hready : (q.heap g).ready = [])
      (hwarming : (q.heap g).warming ≤ 0)
      (hw : Writes q g { q.heap g with
        lastExec := q.now, parked := false, warming := (q.heap g).warming + 1 } p') :
      AcquireMove p key (.cold g (q.heap g).dir id) p'

/-- The run is not busy, and no `Exec` has come for `StandbyIdle`. -/
def Pool.sweepable (p : Pool) (now : Int) (g : Nat) : Bool :=
  !(p.heap g).busy && decide (p.cfg.standbyIdle ≤ now - (p.heap g).lastExec)

/-- The standbys that a sweep at `now` may take from one run. -/
def Pool.due (p : Pool) (now : Int) (g : Nat) : Int :=
  if p.sweepable now g then ((p.heap g).ready.length : Int) else 0

/-- What the visit of the entry `e` does, with the budget `budget` left. -/
structure Visits (now : Int) (e : Key × Nat) (budget : Int) (b : ReclaimBatch) (p : Pool)
    (budget' : Int)
    (b' : ReclaimBatch) (p' : Pool) : Prop where
  cfg : p'.cfg = p.cfg
  nextRun : p'.nextRun = p.nextRun
  runs : p'.runs = p.runs ∨ p'.runs = p.runs.filter (fun x => x.1 ≠ e.1) ∧
    (p'.heap e.2).parked = (p.heap e.2).parked ∧ (p'.heap e.2).ready = [] ∧
    p.cfg.workspaceIdle ≤ now - (p.heap e.2).lastExec
  fields : ∃ ready pending parked,
    p'.heap e.2 = { p.heap e.2 with ready := ready, pending := pending, parked := parked }
  others : ∀ g, g ≠ e.2 → p'.heap g = p.heap g
  taken : ∃ taken, b'.vms = b.vms ++ taken ∧ (p.heap e.2).ready = taken ++ (p'.heap e.2).ready ∧
    (taken.length : Int) = min budget (p.due now e.2) ∧ budget' = budget - taken.length
  spared : p.sweepable now e.2 = false → p' = p
  parked : (p'.heap e.2).parked = (p.heap e.2).parked ∨
    (p'.heap e.2).parked = true ∧ (p'.heap e.2).ready = []

variable {key : Key}

section Steps

variable {p p' : Pool}

theorem Pool.detachWorkspace_frame {dir : SlashPath} {d : Detach} {r : Option (Option SlashPath)}
    (h : p.detachWorkspace dir d = (r, p')) : SameRuns p p' := by
  unfold detachWorkspace at h
  dsimp only at h
  split at h
  · cases h
    exact ⟨rfl, rfl, rfl, rfl⟩
  · split at h
    · cases h
      exact ⟨rfl, rfl, rfl, rfl⟩
    · cases h
      exact ⟨rfl, rfl, rfl, rfl⟩

/-! ## The critical section of `acquire` -/

theorem runLocked_moves {g : Nat} (h : p.runLocked key = .ok (g, p')) :
    RunMove p key g p' := by
  unfold Pool.runLocked at h
  split at h
  · rename_i hlookup
    cases h
    exact .found hlookup
  · rename_i hlookup
    split at h
    · cases h
    · rename_i hadmits
      split at h
      · cases h
      · cases h
        exact .created hlookup hadmits

theorem acquireLocked_moves (p : Pool) (key : Key) :
    AcquireMove p key (p.acquireLocked key).1 (p.acquireLocked key).2 := by
  unfold Pool.acquireLocked
  split
  · exact .same (.inl rfl)
  · split
    · exact .same (.inr ⟨_, rfl⟩)
    · rename_i g q hrun
      have hmove := runLocked_moves hrun
      dsimp only
      split
      · rename_i vm hlast
        exact .warm hmove (List.dropLast_append_getLast? vm hlast).symm ⟨rfl, rfl, rfl, rfl⟩
      · rename_i hnone
        have hready : (q.heap g).ready = [] := List.getLast?_eq_none_iff.mp hnone
        split
        · rename_i hwarming
          exact .unparked hmove hready (.inl ⟨hwarming, rfl⟩) ⟨rfl, rfl, rfl, rfl⟩
        · rename_i hwarming
          split
          · exact .unparked hmove hready (.inr ⟨_, rfl⟩) ⟨rfl, rfl, rfl, rfl⟩
          · refine .cold hmove hready (not_lt.mp hwarming) ⟨rfl, rfl, ?_, rfl⟩
            unfold Pool.nextIDLocked Pool.setRun
            exact Function.update_idem ..

/-! ## The other critical sections -/

theorem setRun_schedule_writes (p : Pool) (g : Nat) (rp : RunPool) :
    ∃ pending, Writes p g { rp with pending := pending }
      ((p.setRun g rp).scheduleReplenishLocked g) := by
  have hsame : Writes p g { rp with pending := rp.pending } (p.setRun g rp) := ⟨rfl, rfl, rfl, rfl⟩
  unfold Pool.scheduleReplenishLocked
  dsimp only
  split
  · exact ⟨_, hsame⟩
  · split
    · exact ⟨_, hsame⟩
    · rw [Pool.setRun_heap_self]
      refine ⟨rp.pending ++ [p.nextTimer], rfl, rfl, ?_, rfl⟩
      unfold Pool.setRun
      exact Function.update_idem ..

theorem forgetPending_writes (p : Pool) (key : Key) (tm : Nat) :
    SameRuns p (p.forgetPending key tm) ∨
    ∃ g pending, Writes p g { p.heap g with pending := pending } (p.forgetPending key tm) := by
  unfold Pool.forgetPending
  split
  · exact .inl (.refl p)
  · exact .inr ⟨_, _, rfl, rfl, rfl, rfl⟩

theorem destroyLocked_writes (p : Pool) (key : Key) :
    SameRuns p (p.destroyLocked key) ∨
    ∃ g inFlight pending, inFlight ≤ (p.heap g).inFlight ∧
      Writes p g { p.heap g with inFlight := inFlight, pending := pending }
        (p.destroyLocked key) := by
  unfold Pool.destroyLocked
  split
  · exact .inl (.refl p)
  · rename_i g _
    right
    obtain ⟨pending, hw⟩ := setRun_schedule_writes p g
      (if (p.heap g).inFlight > 0 then
        { p.heap g with inFlight := (p.heap g).inFlight - 1 } else p.heap g)
    dsimp only
    split at hw
    · rename_i hpos
      rw [if_pos hpos]
      exact ⟨g, _, pending, Int.sub_le_self _ (by decide), hw⟩
    · rename_i hpos
      rw [if_neg hpos]
      exact ⟨g, _, pending, le_refl _, hw⟩

theorem settleCold_writes (p : Pool) (run : Nat) (vm : Option VM) :
    ∃ inFlight backoff, Writes p run
      { (p.heap run).settle with inFlight := inFlight, backoff := backoff }
        (p.settleCold run vm) := by
  cases vm <;> exact ⟨_, _, rfl, rfl, rfl, rfl⟩

theorem settleReplenish_writes (p : Pool) (run : Nat) (vm : Option VM) :
    ∃ ready backoff pending,
      (ready = (p.heap run).ready ∨ ∃ v, vm = some v ∧ ready = (p.heap run).ready ++ [v]) ∧
      Writes p run { (p.heap run).settle with ready := ready, backoff := backoff, pending :=
        pending }
        (p.settleReplenish run vm).2 := by
  unfold Pool.settleReplenish
  cases vm with
  | none =>
    obtain ⟨pending, hw⟩ := setRun_schedule_writes p run
      { (p.heap run).settle with backoff := nextBackoff (p.heap run).settle.backoff }
    exact ⟨_, _, pending, .inl rfl, hw⟩
  | some v =>
    dsimp only
    split
    · exact ⟨_, _, _, .inl rfl, rfl, rfl, rfl, rfl⟩
    · obtain ⟨pending, hw⟩ := setRun_schedule_writes p run
        { (p.heap run).settle with backoff := 0, ready := (p.heap run).settle.ready ++ [v] }
      exact ⟨_, _, pending, .inr ⟨v, rfl, rfl⟩, hw⟩

theorem replenishOneLocked_none (h : p.replenishOneLocked key = (none, p')) :
    SameRuns p p' ∨
    ∃ g backoff pending, Writes p g
      { p.heap g with backoff := backoff, pending := pending } p' := by
  unfold Pool.replenishOneLocked at h
  split at h
  · cases h
    exact .inl (.refl p)
  · rename_i g _
    dsimp only at h
    split at h
    · cases h
      exact .inl (.refl p)
    · split at h
      · cases h
        exact .inl (.refl p)
      · split at h
        · cases h
          obtain ⟨pending, hw⟩ := setRun_schedule_writes p g
            { p.heap g with backoff := nextBackoff (p.heap g).backoff }
          exact .inr ⟨g, _, pending, hw⟩
        · cases h

theorem replenishOneLocked_some {run : Nat} {dir : SlashPath} {id : String}
    (h : p.replenishOneLocked key = (some (run, dir, id), p')) :
    p.runs.lookup key = some run ∧ p.closed = false ∧
    ((p.heap run).ready.length : Int) + (p.heap run).warming < p.cfg.standbyDepth ∧
    p.admitLocked false = .ok () ∧
    Writes p run { p.heap run with warming := (p.heap run).warming + 1 } p' := by
  unfold Pool.replenishOneLocked at h
  split at h
  · cases h
  · rename_i g hlookup
    dsimp only at h
    split at h
    · cases h
    · rename_i hopen
      split at h
      · cases h
      · rename_i hdepth
        split at h
        · cases h
        · rename_i hadmits
          cases h
          exact ⟨hlookup, eq_false_of_ne_true hopen, not_le.mp hdepth, hadmits, rfl, rfl, rfl, rfl⟩

theorem reclaimLocked_frame {d : Detach} {b : ReclaimBatch} {out : ReclaimOutcome}
    (h : p.reclaimLocked key d = (b, out, p')) :
    SameRuns p p' ∨ ∃ g, p.runs.lookup key = some g ∧ p'.nextRun = p.nextRun ∧
      p'.heap = Function.update p.heap g { p.heap g with ready := [], pending := [] } ∧
      (p'.runs = p.runs ∨ p'.runs = p.runs.filter (fun x => x.1 ≠ key) ∧
        (p.heap g).busy = false) := by
  unfold Pool.reclaimLocked at h
  split at h
  · cases h
    exact .inl (.refl p)
  · rename_i g hlookup
    right
    dsimp only at h
    have htaken : Writes p g { p.heap g with ready := [], pending := [] }
        ((p.setRun g { p.heap g with ready := [] }).stopPending g) := by
      refine ⟨rfl, rfl, ?_, rfl⟩
      unfold Pool.stopPending
      rw [Pool.setRun_heap_self]
      unfold Pool.setRun
      exact Function.update_idem ..
    generalize (p.setRun g { p.heap g with ready := [] }).stopPending g = mid at h htaken
    split at h
    · cases h
      exact ⟨g, hlookup, htaken.nextRun, htaken.heap, .inl htaken.runs⟩
    · rename_i hbusy
      have hidle : (p.heap g).busy = false := by
        rw [htaken.heap, Function.update_self] at hbusy
        exact eq_false_of_ne_true hbusy
      split at h
      · rename_i hdetach
        cases h
        obtain ⟨-, hruns, hheap, hnext⟩ := Pool.detachWorkspace_frame hdetach
        exact ⟨g, hlookup, hnext.trans htaken.nextRun, hheap.trans htaken.heap,
          .inl (hruns.trans htaken.runs)⟩
      · rename_i q hdetach
        cases h
        obtain ⟨-, hruns, hheap, hnext⟩ := Pool.detachWorkspace_frame hdetach
        have hdelete : (q.deleteRun key).runs = p.runs.filter fun x => x.1 ≠ key := by
          unfold Pool.deleteRun
          rw [hruns, htaken.runs]
        exact ⟨g, hlookup, hnext.trans htaken.nextRun, hheap.trans htaken.heap,
          .inr ⟨hdelete, hidle⟩⟩

end Steps

section Visit

variable {p p' : Pool} {now budget budget' : Int} {b b' : ReclaimBatch} {e : Key × Nat} {d : Detach}

theorem Visits.skip (hb : 0 ≤ budget) (h : p.sweepable now e.2 = false) :
    Visits now e budget b p budget b p where
  cfg := rfl
  nextRun := rfl
  runs := .inl rfl
  fields := ⟨_, _, _, rfl⟩
  others := fun _ _ => rfl
  taken := by
    refine ⟨[], (List.append_nil _).symm, rfl, ?_, (sub_zero _).symm⟩
    unfold Pool.due
    rw [if_neg (by rw [h]; decide)]
    exact (min_eq_right hb).symm
  spared := fun _ => rfl
  parked := .inl rfl

theorem take_of_sweepable (hb : 0 ≤ budget) (h : p.sweepable now e.2 = true) :
    (((p.heap e.2).ready.take (min budget ((p.heap e.2).ready.length : Int)).toNat).length : Int) =
      min budget (p.due now e.2) ∧
    min budget ((p.heap e.2).ready.length : Int) = min budget (p.due now e.2) := by
  have hdue : p.due now e.2 = (p.heap e.2).ready.length := by
    unfold Pool.due
    rw [if_pos h]
  rw [hdue, List.length_take]
  omega

/-- INTERNAL: **the body of the loop**. -/
theorem visits_of_sweepVisit (hlookup : p.runs.lookup e.1 = some e.2) (hb : 0 ≤ budget)
    (h : p.sweepVisit now e.1 d budget b = (budget', b', p')) :
    Visits now e budget b p budget' b' p' := by
  unfold Pool.sweepVisit at h
  rw [hlookup] at h
  dsimp only at h
  split at h
  · rename_i hbusy
    cases h
    refine .skip hb ?_
    unfold Pool.sweepable
    rw [hbusy]
    rfl
  · rename_i hbusy
    split at h
    · rename_i hidle
      cases h
      refine .skip hb ?_
      unfold Pool.sweepable
      rw [decide_eq_false (not_le.mpr hidle), Bool.and_false]
    · rename_i hidle
      have hsweep : p.sweepable now e.2 = true := by
        unfold Pool.sweepable
        rw [eq_false_of_ne_true hbusy, decide_eq_true (not_lt.mp hidle)]
        rfl
      obtain ⟨hlength, hmin⟩ := take_of_sweepable hb hsweep
      generalize (min budget ((p.heap e.2).ready.length : Int)).toNat = n at h hlength
      have hspared : ∀ q : Pool, p.sweepable now e.2 = false → q = p := by
        intro q hfalse
        rw [hsweep] at hfalse
        cases hfalse
      have htaken : budget - min budget ((p.heap e.2).ready.length : Int) =
          budget - ((p.heap e.2).ready.take n).length := by
        rw [hlength, hmin]
      have hsplit := (List.take_append_drop n (p.heap e.2).ready).symm
      rw [htaken] at h
      split at h
      · cases h
        have hself := p.setRun_heap_self e.2 { p.heap e.2 with ready := (p.heap e.2).ready.drop n }
        refine ⟨rfl, rfl, .inl rfl, ⟨_, _, _, hself⟩, fun g hg => p.setRun_heap_of_ne hg _, ?_,
          hspared _, ?_⟩
        · refine ⟨_, rfl, ?_, hlength, rfl⟩
          rw [hself]
          exact hsplit
        · rw [hself]
          exact .inl rfl
      · rename_i hready
        have hnone : (p.heap e.2).ready.drop n = [] := not_not.mp hready
        -- whatever becomes of the run, it has no standby left
        have hemptied : ∀ (b'' : ReclaimBatch) (q : Pool) (parked : Bool),
            b''.vms = b.vms ++ (p.heap e.2).ready.take n → q.cfg = p.cfg → q.nextRun = p.nextRun →
            (q.runs = p.runs ∨ q.runs = p.runs.filter (fun x => x.1 ≠ e.1) ∧
              parked = (p.heap e.2).parked ∧ p.cfg.workspaceIdle ≤ now - (p.heap e.2).lastExec) →
            (parked = (p.heap e.2).parked ∨ parked = true) →
            (∀ g, g ≠ e.2 → q.heap g = p.heap g) →
            q.heap e.2 = { p.heap e.2 with ready := [], pending := [], parked := parked } →
              Visits now e budget b p (budget - ((p.heap e.2).ready.take n).length) b'' q := by
          intro b'' q parked hvms hcfg hnext hruns hparked hothers hself
          refine ⟨hcfg, hnext, ?_, ⟨_, _, _, hself⟩, hothers, ⟨_, hvms, ?_, hlength, rfl⟩,
            hspared q, ?_⟩
          · rw [hself]
            rcases hruns with hruns | ⟨hruns, hparked, hold⟩
            · exact .inl hruns
            · exact .inr ⟨hruns, hparked, rfl, hold⟩
          · rw [hself]
            show (p.heap e.2).ready = (p.heap e.2).ready.take n ++ []
            rw [← hnone]
            exact hsplit
          · rw [hself]
            rcases hparked with hparked | hparked
            · exact .inl hparked
            · exact .inr ⟨hparked, rfl⟩
        -- the pool after the pending timers are stopped
        generalize hmid : (p.setRun e.2
          { p.heap e.2 with ready := (p.heap e.2).ready.drop n }).stopPending
          e.2 = mid at h
        have hsame : mid.cfg = p.cfg ∧ mid.nextRun = p.nextRun ∧ mid.runs = p.runs := by
          rw [← hmid]
          exact ⟨rfl, rfl, rfl⟩
        obtain ⟨hcfg, hnext, hruns⟩ := hsame
        have hself : mid.heap e.2 = { p.heap e.2 with ready := [], pending := [] } := by
          rw [← hmid]
          unfold Pool.stopPending
          rw [Pool.setRun_heap_self, Pool.setRun_heap_self, hnone]
        have hother : ∀ g, g ≠ e.2 → mid.heap g = p.heap g := by
          intro g hg
          rw [← hmid]
          unfold Pool.stopPending
          rw [Pool.setRun_heap_of_ne _ hg]
          exact Pool.setRun_heap_of_ne p hg _
        split at h
        · rename_i hold
          rw [hcfg] at hold
          split at h
          · rename_i hdetach
            cases h
            obtain ⟨hcfg', hruns', hheap', hnext'⟩ := Pool.detachWorkspace_frame hdetach
            rw [← hheap'] at hself hother
            exact hemptied _ _ _ rfl (hcfg'.trans hcfg) (hnext'.trans hnext)
              (.inl (hruns'.trans hruns))
              (.inl rfl) hother hself
          · rename_i q hdetach
            cases h
            obtain ⟨hcfg', hruns', hheap', hnext'⟩ := Pool.detachWorkspace_frame hdetach
            have hdelete : (q.deleteRun e.1).runs = p.runs.filter fun x => x.1 ≠ e.1 := by
              unfold Pool.deleteRun
              rw [hruns', hruns]
            rw [← hheap'] at hself hother
            exact hemptied _ (q.deleteRun e.1) _ rfl (hcfg'.trans hcfg) (hnext'.trans hnext)
              (.inr ⟨hdelete, rfl, hold⟩) (.inl rfl) hother hself
        · cases h
          refine hemptied _ _ true rfl hcfg hnext (.inl hruns) (.inr rfl) ?_ ?_
          · intro g hg
            rw [Pool.setRun_heap_of_ne _ hg]
            exact hother g hg
          · rw [Pool.setRun_heap_self, hself]

theorem Visits.heap_eq (h : Visits now e budget b p budget' b' p') :
    p'.heap = Function.update p.heap e.2 (p'.heap e.2) := by
  funext g
  by_cases hg : g = e.2
  · rw [hg, Function.update_self]
  · rw [Function.update_of_ne hg, h.others g hg]

theorem sweepVisit_of_none (hlookup : p.runs.lookup key = none) :
    p.sweepVisit now key d budget b = (budget, b, p) := by
  unfold Pool.sweepVisit
  rw [hlookup]

end Visit

end ServerlessHarness.VmPool
