import ServerlessHarness.Interface.VmPool.Moves
import ServerlessHarness.Interface.VmPool.Observations

/-!
# What a step does to the runs and their marks

The mark `parked` of a run is not in the ledger: the books balance without it. `Marked` is the
second reading of the goroutines' steps, as changes to the map of runs, to the marks and to the VMs
that a run is charged for: nothing grows (`Slims`), a run is parked, charged with one of its VMs in
another way, refilled, revived by an `Exec` of its key, or created.
-/

set_option autoImplicit false

namespace ServerlessHarness.VmPool

open Library

/-- The run has no ready, in-flight or warming VM. -/
def RunPool.Empty (rp : RunPool) : Prop := rp.ready = [] ∧ rp.inFlight ≤ 0 ∧ rp.warming ≤ 0

/-- The same mark, and no VM more than before. -/
structure RunPool.Slims (rp rp' : RunPool) : Prop where
  parked : rp'.parked = rp.parked
  ready : rp.ready = [] → rp'.ready = []
  inFlight : rp'.inFlight ≤ rp.inFlight
  warming : rp'.warming ≤ rp.warming

theorem RunPool.Slims.refl (rp : RunPool) : rp.Slims rp := ⟨rfl, id, le_refl _, le_refl _⟩

variable {rp : RunPool} {ch : Choice}

theorem RunPool.Slims.empty {rp' : RunPool} (h : rp.Slims rp') (hempty : rp.Empty) : rp'.Empty :=
  ⟨h.ready hempty.1, le_trans h.inFlight hempty.2.1, le_trans h.warming hempty.2.2⟩

/-- No run is added, and no run grows. -/
structure Pool.Slims (p p' : Pool) : Prop where
  runs : p'.runs.Sublist p.runs
  heap : ∀ g, (p.heap g).Slims (p'.heap g)

namespace Pool

variable {p p' : Pool}

theorem Slims.of_same (h : SameRuns p p') : p.Slims p' where
  runs := by
    rw [h.runs]
  heap := by
    intro g
    rw [h.heap]
    exact RunPool.Slims.refl _

theorem Slims.of_update {g : Nat} (hruns : p'.runs.Sublist p.runs)
    (hheap : p'.heap = Function.update p.heap g rp) (h : (p.heap g).Slims rp) : p.Slims p' where
  runs := hruns
  heap := by
    intro g'
    rw [hheap]
    by_cases hg : g' = g
    · subst hg
      rw [Function.update_self]
      exact h
    · rw [Function.update_of_ne hg]
      exact RunPool.Slims.refl _

theorem Slims.of_writes {g : Nat} (hw : Writes p g rp p') (h : (p.heap g).Slims rp) :
    p.Slims p' := by
  refine .of_update ?_ hw.heap h
  rw [hw.runs]

theorem slims_forgetPending (p : Pool) (key : Key) (tm : Nat) :
    p.Slims (p.forgetPending key tm) := by
  rcases forgetPending_writes p key tm with hsame | ⟨g, pending, hw⟩
  · exact .of_same hsame
  · exact .of_writes hw ⟨rfl, id, le_refl _, le_refl _⟩

theorem slims_destroyLocked (p : Pool) (key : Key) : p.Slims (p.destroyLocked key) := by
  rcases destroyLocked_writes p key with hsame | ⟨g, inFlight, pending, hle, hw⟩
  · exact .of_same hsame
  · exact .of_writes hw ⟨rfl, id, hle, le_refl _⟩

theorem slims_reclaimLocked {key : Key} {d : Detach} {b : ReclaimBatch} {out : ReclaimOutcome}
    (h : p.reclaimLocked key d = (b, out, p')) : p.Slims p' := by
  rcases reclaimLocked_frame h with hsame | ⟨g, -, -, hheap, hruns⟩
  · exact .of_same hsame
  · refine .of_update ?_ hheap ⟨rfl, fun _ => rfl, le_refl _, le_refl _⟩
    rcases hruns with hruns | ⟨hruns, -⟩
    · rw [hruns]
    · rw [hruns]
      exact List.filter_sublist

theorem slims_closeLocked (p : Pool) : p.Slims p.closeLocked where
  runs := List.Sublist.refl _
  heap := by
    intro g
    unfold closeLocked
    dsimp only
    split
    · exact ⟨rfl, fun _ => rfl, le_refl _, le_refl _⟩
    · exact RunPool.Slims.refl _

end Pool

/-! ## Marks -/

/-- What a step of goroutine `t` does to the runs. -/
inductive Marked (t : Thread) (p p' : Pool) : Prop where
  | slims (h : p.Slims p')
  | park {g : Nat} {rp : RunPool} (hruns : p'.runs = p.runs)
      (hheap : p'.heap = Function.update p.heap g rp) (hparked : rp.parked = true)
        (hempty : rp.Empty)
  | charge {g : Nat} {rp : RunPool} (hruns : p'.runs = p.runs)
      (hheap : p'.heap = Function.update p.heap g rp) (hparked : rp.parked = (p.heap g).parked)
      (hbusy : ¬(p.heap g).Empty)
  | refill {key : Key} {tm g : Nat} {rp : RunPool} (ht : t = .replenish key tm .start)
      (hlookup : p.runs.lookup key = some g) (hopen : p.closed = false)
      (hdepth : ((p.heap g).ready.length : Int) + (p.heap g).warming < p.cfg.standbyDepth)
      (hadmits : p.admitLocked false = .ok ()) (hruns : p'.runs = p.runs)
      (hheap : p'.heap = Function.update p.heap g rp) (hparked : rp.parked = (p.heap g).parked)
  | revive {c : ExecCall} {g : Nat} {rp : RunPool} (ht : t = .exec c .acquire)
      (hlookup : p.runs.lookup c.key = some g) (hready : (p.heap g).ready = [])
      (hruns : p'.runs = p.runs) (hheap : p'.heap = Function.update p.heap g rp)
      (hparked : rp.parked = false)
  | create {c : ExecCall} {rp : RunPool} (ht : t = .exec c .acquire)
      (hlookup : p.runs.lookup c.key = none) (hroom : p.unparkedRunsLocked < p.cfg.maxRuns)
      (hruns : p'.runs = p.runs ++ [(c.key, p.nextRun)])
      (hheap : p'.heap = Function.update p.heap p.nextRun rp) (hparked : rp.parked = false)

section Steps

variable {p p' : Pool} {t : Thread}

theorem marked_of_same (h : SameRuns p p') : Marked t p p' := .slims (.of_same h)

theorem visits_marked {now budget budget' : Int} {e : Key × Nat} {b b' : ReclaimBatch}
    (h : Visits now e budget b p budget' b' p') : Marked t p p' := by
  obtain ⟨ready, pending, parked, hself⟩ := h.fields
  obtain ⟨taken, -, hready, -, -⟩ := h.taken
  have hslims : (p'.heap e.2).parked = (p.heap e.2).parked → (p.heap e.2).Slims (p'.heap e.2) := by
    intro hparked
    refine ⟨hparked, ?_, by rw [hself], by rw [hself]⟩
    intro hnil
    rw [hnil] at hready
    exact (List.append_eq_nil_iff.mp hready.symm).2
  rcases h.runs with hruns | ⟨hruns, hparked, -⟩
  · rcases h.parked with hparked | ⟨hparked, hempty⟩
    · refine .slims (.of_update ?_ h.heap_eq (hslims hparked))
      rw [hruns]
    · by_cases hsweep : p.sweepable now e.2 = true
      · obtain ⟨hbusy, -⟩ := (Bool.and_eq_true _ _).mp hsweep
        rw [Bool.not_eq_true', ← Bool.not_eq_true] at hbusy
        obtain ⟨hinFlight, hwarming⟩ := RunPool.counters_of_not_busy hbusy
        refine .park hruns h.heap_eq hparked ⟨hempty, ?_, ?_⟩
        · rw [hself]
          exact not_lt.mp hinFlight
        · rw [hself]
          exact not_lt.mp hwarming
      · rw [h.spared (Bool.eq_false_of_not_eq_true hsweep)]
        exact marked_of_same (.refl p)
  · refine .slims (.of_update ?_ h.heap_eq (hslims hparked))
    rw [hruns]
    exact List.filter_sublist

theorem sweepMove_marked (h : SweepMove p p') : Marked t p p' := by
  cases h with
  | same h => exact marked_of_same h
  | visit _ h => exact visits_marked h

theorem room_of_admitLocked (h : p.admitLocked true = .ok ()) :
    p.unparkedRunsLocked < p.cfg.maxRuns := by
  unfold Pool.admitLocked at h
  dsimp only at h
  split at h
  · cases h
  · rename_i hroom
    rw [not_and, not_le] at hroom
    exact hroom rfl

theorem acquireMove_marked {c : ExecCall} {a : Acquired} (h : AcquireMove p c.key a p') :
    Marked (.exec c .acquire) p p' := by
  -- the run that was found or created, with nothing to take from its ready list
  have hcold : ∀ {g : Nat} {q p' : Pool} {rp : RunPool}, RunMove p c.key g q →
      (q.heap g).ready = [] →
        Writes q g rp p' → rp.parked = false → Marked (.exec c .acquire) p p' := by
    intro g q p' rp hrun hready hw hparked
    cases hrun with
    | found hlookup => exact .revive rfl hlookup hready hw.runs hw.heap hparked
    | created hlookup hadmits =>
      refine .create rfl hlookup (room_of_admitLocked hadmits) hw.runs ?_ hparked
      rw [hw.heap]
      exact Function.update_idem _ _ _
  cases h with
  | same => exact marked_of_same (.refl p)
  | warm hrun hready hw =>
    cases hrun with
    | found hlookup =>
      refine .charge hw.runs hw.heap rfl ?_
      intro hempty
      rw [hempty.1] at hready
      exact absurd hready (by simp)
    | created =>
      rw [Pool.setRun_heap_self] at hready
      exact absurd hready (by simp [RunPool.fresh])
  | unparked hrun hready _ hw => exact hcold hrun hready hw rfl
  | cold hrun hready _ hw => exact hcold hrun hready hw rfl

theorem not_empty_of_warming (hwarm : 1 ≤ rp.warming) : ¬rp.Empty := by
  intro hempty
  have := hempty.2.2
  omega

theorem settleCold_marked {run : Nat} (hwarm : 1 ≤ (p.heap run).warming) (vm : Option VM) :
    Marked t p (p.settleCold run vm) := by
  obtain ⟨inFlight, backoff, hw⟩ := settleCold_writes p run vm
  exact .charge hw.runs hw.heap rfl (not_empty_of_warming hwarm)

theorem settleReplenish_marked {run : Nat} (hwarm : 1 ≤ (p.heap run).warming) (vm : Option VM) :
    Marked t p (p.settleReplenish run vm).2 := by
  obtain ⟨ready, backoff, pending, -, hw⟩ := settleReplenish_writes p run vm
  exact .charge hw.runs hw.heap rfl (not_empty_of_warming hwarm)

theorem execMove_marked {c c' : ExecCall} {pc pc' : ExecPc}
    (hwarm : ∀ w, (pc.stake c.key).warm = some w → 1 ≤ (p.heap w.entry.2).warming)
    (h : ExecMove p c pc ch p' c' pc') : Marked (.exec c pc) p p' := by
  have hgate : ∀ (run : Nat) (b : Bool),
      p.Slims (p.setRun run { p.heap run with execGate := b }) := by
    intro run b
    have hw : Writes p run { p.heap run with execGate := b }
        (p.setRun run { p.heap run with execGate := b }) := ⟨rfl, rfl, rfl, rfl⟩
    exact .of_writes hw ⟨rfl, id, le_refl _, le_refl _⟩
  cases h with
  | sweep h => exact sweepMove_marked h
  | acquire => exact acquireMove_marked (acquireLocked_moves p c.key)
  | warm h => exact marked_of_same (sameRuns_of_warmStep h)
  | settleCold | settleFailed => exact settleCold_marked (hwarm _ rfl) _
  | takeGate | openGate => exact .slims (hgate _ _)
  | destroy => exact .slims (Pool.slims_destroyLocked p c.key)
  | resume _ same | tear _ _ same | torn _ same => exact marked_of_same same
  | _ => exact marked_of_same (.refl p)

theorem replenishMove_marked {key : Key} {tm : Nat} {pc pc' : ReplenishPc}
    (hwarm : ∀ w, (pc.stake key).warm = some w → 1 ≤ (p.heap w.entry.2).warming)
    (h : ReplenishMove p key tm pc ch p' pc') : Marked (.replenish key tm pc) p p' := by
  cases h with
  | forget => exact .slims (Pool.slims_forgetPending p key tm)
  | skip h =>
    rcases replenishOneLocked_none h with hsame | ⟨g, backoff, pending, hw⟩
    · exact marked_of_same hsame
    · exact .slims (.of_writes hw ⟨rfl, id, le_refl _, le_refl _⟩)
  | start h =>
    obtain ⟨hlookup, hopen, hdepth, hadmits, hw⟩ := replenishOneLocked_some h
    exact .refill rfl hlookup hopen hdepth hadmits hw.runs hw.heap rfl
  | warm h => exact marked_of_same (sameRuns_of_warmStep h)
  | settle => exact settleReplenish_marked (hwarm _ rfl) _
  | finish _ _ same => exact marked_of_same same

theorem threadStep_marked {me : Nat} {t' : Thread} {l : List Stake} (b : Books p.ledger l)
    (ht : t.stake ∈ l) (h : threadStep p me t ch = some (p', t')) :
    Marked t p p' := by
  have hwarm : ∀ w, t.stake.warm = some w → 1 ≤ (p.heap w.entry.2).warming := by
    intro w hw
    exact (b.warm_live ht hw).2
  cases threadStep_moves h with
  | exec hmove => exact execMove_marked hwarm hmove
  | replenish hmove => exact replenishMove_marked hwarm hmove
  | sweep hmove => exact sweepMove_marked hmove
  | reclaim hlocked => exact .slims (Pool.slims_reclaimLocked hlocked)
  | close => exact .slims (Pool.slims_closeLocked p)

end Steps

theorem Thread.joins_of_starting {t : Thread} (h : t.starting = true) : Joins t.stake := by
  unfold Thread.starting at h
  split at h
  · exact ⟨.inl rfl⟩
  · exact ⟨.inr (.inl rfl)⟩
  · exact ⟨.inr (.inr (.inl rfl))⟩
  · exact ⟨.inr (.inr (.inr (.inl rfl)))⟩
  · exact ⟨.inr (.inr (.inr (.inr (.inr rfl))))⟩
  · exact ⟨.inr (.inr (.inr (.inr (.inl rfl))))⟩
  · cases h

theorem sysStep_cases {s s' : Sys} {a : Action} (h : sysStep s a = some s') :
    ((∃ now timers ticker,
        s'.pool = { s.pool with now := now, timers := timers, ticker := ticker }) ∧
      (s'.threads = s.threads ∨ (∃ t, Joins t.stake ∧ s'.threads = s.threads ++ [t]) ∨
        ∃ i c c' pc, s.threads[i]? = some (.exec c pc) ∧
          s'.threads = s.threads.set i (.exec c' pc))) ∨
    ∃ i ch t t', a = .run i ch ∧ s.threads[i]? = some t ∧
      threadStep s.pool i t ch = some (s'.pool, t') ∧ s'.threads = s.threads.set i t' := by
  cases sysStep_moves h with
  | clock => exact .inl ⟨⟨_, _, _, rfl⟩, .inl rfl⟩
  | spawn _ ht => exact .inl ⟨⟨_, _, _, rfl⟩, .inr (.inl ⟨_, Thread.joins_of_starting ht, rfl⟩)⟩
  | expire hi | cancel hi => exact .inl ⟨⟨_, _, _, rfl⟩, .inr (.inr ⟨_, _, _, _, hi, rfl⟩)⟩
  | run hi hstep => exact .inr ⟨_, _, _, _, rfl, hi, hstep, rfl⟩

/-- INTERNAL: **what a step of a reachable pool does to the runs**: nothing, or what `Marked` says
of a step of one goroutine. -/
theorem sysStep_marked {cfg : Config} {lc : Launcher} {s s' : Sys} {a : Action}
    (hs : Reachable (poolSystem cfg lc) s) (h : sysStep s a = some s') :
    (s'.pool.runs = s.pool.runs ∧ s'.pool.heap = s.pool.heap) ∨
    ∃ i ch t, a = .run i ch ∧ s.threads[i]? = some t ∧ Marked t s.pool s'.pool := by
  rcases sysStep_cases h with ⟨⟨now, timers, ticker, heq⟩, -⟩ | ⟨i, ch, t, t', ha, hi, hstep, -⟩
  · left
    rw [heq]
    exact ⟨rfl, rfl⟩
  · right
    have ht : t.stake ∈ s.threads.map Thread.stake := List.mem_map_of_mem (List.mem_of_getElem? hi)
    exact ⟨i, ch, t, ha, hi, threadStep_marked (books_of_pool hs) ht hstep⟩

end ServerlessHarness.VmPool
