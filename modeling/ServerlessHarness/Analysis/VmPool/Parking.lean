import ServerlessHarness.Interface.VmPool.Marks

/-!
# Parked runs

`MaxRuns` is a ceiling on new runs: `admitLocked` compares the number of unparked runs with it
where a run is created, and an `Exec` on a run that exists is never refused for it. So reviving
parked runs can take the number of unparked runs above the ceiling, and nothing else can.

A parked run is one whose last VM a sweep has taken. What keeps it empty is that every path that
gives it a VM clears the mark first; the replenish callback does not look at the mark, and a
callback that has fired before the sweep stopped the timers gives the parked run a VM.
-/

set_option autoImplicit false

namespace ServerlessHarness.VmPool

open Library

/-! ## The ceiling on runs -/

/-- A pool, and the runs that have lost their mark `parked` since they were created. -/
structure Tracked where
  sys : Sys
  revived : Nat → Bool

/-- One step of the pool, with the runs that it revives noted. -/
def trackStep (x : Tracked) (a : Action) : Option Tracked :=
  (sysStep x.sys a).map fun s' =>
    ⟨s', fun g => x.revived g || ((x.sys.pool.heap g).parked && !(s'.pool.heap g).parked)⟩

/-- Every run of a pool made from `cfg` and `lc`, with the revived runs noted. -/
def trackedSystem (cfg : Config) (lc : Launcher) : TransitionSystem Tracked :=
  .ofStep (fun x => (∃ now dirs, newPool cfg lc now dirs = .ok x.sys) ∧ ∀ g, x.revived g = false)
    trackStep

/-- The runs that are not marked parked and were not revived. -/
def Tracked.neverParked (x : Tracked) : Nat :=
  x.sys.pool.runs.countP fun e => !(x.sys.pool.heap e.2).parked && !x.revived e.2

/-- The step takes the mark `parked` from the run `g`. -/
def Revives (s s' : Sys) (g : Nat) : Prop :=
  (s.pool.heap g).parked = true ∧ (s'.pool.heap g).parked = false

/-- The action is the critical section of an `Exec` on the key of the run `g`, which has no ready
VM. -/
def ByExecOf (s : Sys) (a : Action) (g : Nat) : Prop :=
  ∃ i ch c, a = .run i ch ∧ s.threads[i]? = some (.exec c .acquire) ∧
    s.pool.runs.lookup c.key = some g ∧ (s.pool.heap g).ready = []

variable {a : Action} {cfg : Config} {lc : Launcher} {s : Sys} {x : Tracked}

theorem trackStep_eq_some {x' : Tracked} (h : trackStep x a = some x') :
    sysStep x.sys a = some x'.sys ∧ ∀ g, x'.revived g =
      (x.revived g || ((x.sys.pool.heap g).parked && !(x'.sys.pool.heap g).parked)) := by
  obtain ⟨s', hs, heq⟩ := Option.map_eq_some_iff.mp h
  cases heq
  exact ⟨hs, fun _ => rfl⟩

theorem reachable_of_tracked (h : Reachable (trackedSystem cfg lc) x) :
    Reachable (poolSystem cfg lc) x.sys := by
  induction h with
  | init h => exact .init h.1
  | step _ hn ih =>
    obtain ⟨a, ha⟩ := hn
    exact .step ih ⟨a, (trackStep_eq_some ha).1⟩

theorem countP_le_of_sublist {α : Type} {l l' : List α} {f f' : α → Bool} (hl : l'.Sublist l)
    (hf : ∀ e ∈ l', f' e = true → f e = true) : l'.countP f' ≤ l.countP f :=
  le_trans (List.countP_mono_left hf) (hl.countP_le)

theorem countP_append_le {α : Type} {l : List α} {e : α} {f f' : α → Bool}
    (hf : ∀ x ∈ l, f' x = true → f x = true) : (l ++ [e]).countP f' ≤ l.countP f + 1 := by
  rw [List.countP_append]
  have hone : [e].countP f' ≤ 1 := List.countP_le_length
  have hold : l.countP f' ≤ l.countP f := List.countP_mono_left hf
  omega

theorem newPool_runs {now : Int} {dirs : DirTree} (h : newPool cfg lc now dirs = .ok s) :
    s.pool.runs = [] ∧ (∀ g, (s.pool.heap g).parked = false) ∧ 0 < s.pool.cfg.maxRuns := by
  unfold newPool at h
  split at h
  · cases h
  · rename_i cfg' hcfg
    split at h
    · cases h
    · split at h
      · cases h
      · cases h
        have hpos := maxRuns_pos_of_normalize hcfg
        unfold Pool.armTickerLocked
        dsimp only
        split
        · exact ⟨rfl, fun _ => rfl, hpos⟩
        · exact ⟨rfl, fun _ => rfl, hpos⟩

section Runs

variable {cfg : Config} {lc : Launcher} {s s' : Sys} {a : Action}

/-- INTERNAL: **how the runs change, seen from their marks**: no run loses the mark or is added, or
an `Exec` revives one, or a run is created below the ceiling. -/
theorem runs_cases (hs : Reachable (poolSystem cfg lc) s) (h : sysStep s a = some s') :
    (s'.pool.runs.Sublist s.pool.runs ∧
      ∀ g, (s'.pool.heap g).parked = false → (s.pool.heap g).parked = false) ∨
    (∃ g, ByExecOf s a g ∧ s'.pool.runs = s.pool.runs ∧
      ∀ g', g' ≠ g → (s'.pool.heap g').parked = (s.pool.heap g').parked) ∨
    (∃ key, s.pool.unparkedRunsLocked < s.pool.cfg.maxRuns ∧
      s'.pool.runs = s.pool.runs ++ [(key, s.pool.nextRun)] ∧
      ∀ g', g' ≠ s.pool.nextRun → (s'.pool.heap g').parked = (s.pool.heap g').parked) := by
  -- a run whose mark is the same or set
  have hupdate : ∀ {g : Nat} {rp : RunPool}, s'.pool.heap = Function.update s.pool.heap g rp →
      (rp.parked = false → (s.pool.heap g).parked = false) →
        ∀ g', (s'.pool.heap g').parked = false → (s.pool.heap g').parked = false := by
    intro g rp hheap hparked g' hg'
    rw [hheap] at hg'
    by_cases hg : g' = g
    · subst hg
      rw [Function.update_self] at hg'
      exact hparked hg'
    · rw [Function.update_of_ne hg] at hg'
      exact hg'
  have hother : ∀ {g : Nat} {rp : RunPool}, s'.pool.heap = Function.update s.pool.heap g rp →
      ∀ g', g' ≠ g → (s'.pool.heap g').parked = (s.pool.heap g').parked := by
    intro g rp hheap g' hg
    rw [hheap, Function.update_of_ne hg]
  rcases sysStep_marked hs h with ⟨hruns, hheap⟩ | ⟨i, ch, t, ha, hi, hmarked⟩
  · left
    rw [hruns, hheap]
    exact ⟨List.Sublist.refl _, fun _ hg => hg⟩
  · cases hmarked with
    | slims hslims =>
      left
      refine ⟨hslims.runs, ?_⟩
      intro g hg
      rw [← (hslims.heap g).parked]
      exact hg
    | park hruns hheap hparked _ =>
      left
      rw [hruns]
      refine ⟨List.Sublist.refl _, hupdate hheap ?_⟩
      intro hfalse
      rw [hparked] at hfalse
      cases hfalse
    | charge hruns hheap hparked _ =>
      left
      rw [hruns]
      refine ⟨List.Sublist.refl _, hupdate hheap ?_⟩
      rw [hparked]
      exact id
    | refill _ _ _ _ _ hruns hheap hparked =>
      left
      rw [hruns]
      refine ⟨List.Sublist.refl _, hupdate hheap ?_⟩
      rw [hparked]
      exact id
    | revive ht hlookup hready hruns hheap _ =>
      right
      left
      rw [ht] at hi
      exact ⟨_, ⟨i, ch, _, ha, hi, hlookup, hready⟩, hruns, hother hheap⟩
    | create _ _ hroom hruns hheap _ =>
      right
      right
      exact ⟨_, hroom, hruns, hother hheap⟩

theorem ne_nextRun (hs : Reachable (poolSystem cfg lc) s) {e : Key × Nat} (he : e ∈ s.pool.runs) :
    e.2 ≠ s.pool.nextRun :=
  Nat.ne_of_lt ((books_of_pool hs).fresh e he)

theorem byExecOf_of_revives (hs : Reachable (poolSystem cfg lc) s) (h : sysStep s a = some s')
    {g : Nat}
    {key : Key} (hlive : (key, g) ∈ s.pool.runs) (hg : Revives s s' g) : ByExecOf s a g := by
  obtain ⟨hparked, hclear⟩ := hg
  rcases runs_cases hs h with ⟨-, hmarks⟩ | ⟨g', hexec, -, hmarks⟩ | ⟨_, -, -, hmarks⟩
  · rw [hmarks g hclear] at hparked
    cases hparked
  · by_cases hgg : g = g'
    · rw [hgg]
      exact hexec
    · rw [← hmarks g hgg, hclear] at hparked
      cases hparked
  · rw [← hmarks g (ne_nextRun hs hlive), hclear] at hparked
    cases hparked

/-- Only a revival takes the count up past the bound. -/
theorem unparkedRunsLocked_step (hs : Reachable (poolSystem cfg lc) s) (h : sysStep s a = some s') :
    s'.pool.unparkedRunsLocked ≤ s.pool.unparkedRunsLocked ∨
    s'.pool.unparkedRunsLocked ≤ s.pool.cfg.maxRuns ∨
    ∃ key g, (key, g) ∈ s.pool.runs ∧ Revives s s' g := by
  unfold Pool.unparkedRunsLocked
  rcases runs_cases hs h with ⟨hruns, hmarks⟩ | ⟨g, -, hruns, hmarks⟩ | ⟨key, hroom, hruns, hmarks⟩
  · left
    rw [Nat.cast_le]
    refine countP_le_of_sublist hruns ?_
    intro e _ he
    rw [Bool.not_eq_true'] at he ⊢
    exact hmarks _ he
  · by_cases hrevive : ∃ key, (key, g) ∈ s.pool.runs ∧ Revives s s' g
    · obtain ⟨key, hlive, hg⟩ := hrevive
      exact .inr (.inr ⟨key, g, hlive, hg⟩)
    · left
      rw [Nat.cast_le, hruns]
      refine countP_le_of_sublist (List.Sublist.refl _) ?_
      intro e hlive he
      rw [Bool.not_eq_true'] at he ⊢
      by_cases hg : e.2 = g
      · by_contra hparked
        rw [Bool.not_eq_false] at hparked
        subst hg
        exact hrevive ⟨e.1, hlive, hparked, he⟩
      · rw [← hmarks _ hg]
        exact he
  · right
    left
    rw [hruns]
    unfold Pool.unparkedRunsLocked at hroom
    have hle : (s.pool.runs ++ [(key, s.pool.nextRun)]).countP
        (fun e => !(s'.pool.heap e.2).parked) ≤
          s.pool.runs.countP (fun e => !(s.pool.heap e.2).parked) + 1 := by
      refine countP_append_le ?_
      intro e hlive he
      rw [← hmarks _ (ne_nextRun hs hlive)]
      exact he
    omega

theorem neverParked_step {x' : Tracked} (hx : Reachable (poolSystem cfg lc) x.sys)
    (h : trackStep x a = some x') (hle : (x.neverParked : Int) ≤ x.sys.pool.cfg.maxRuns) :
    (x'.neverParked : Int) ≤ x.sys.pool.cfg.maxRuns := by
  obtain ⟨hstep, hrevived⟩ := trackStep_eq_some h
  -- a run that is counted now has not lost its mark
  have hcounted : ∀ e : Key × Nat,
      (!(x'.sys.pool.heap e.2).parked && !x'.revived e.2) = true →
        (!(x.sys.pool.heap e.2).parked && !x.revived e.2) = true := by
    intro e he
    rw [hrevived] at he
    grind
  unfold Tracked.neverParked at hle ⊢
  have hkeep : x'.sys.pool.runs.Sublist x.sys.pool.runs →
      x'.sys.pool.runs.countP (fun e => !(x'.sys.pool.heap e.2).parked && !x'.revived e.2) ≤
        x.sys.pool.runs.countP fun e => !(x.sys.pool.heap e.2).parked && !x.revived e.2 := by
    intro hsub
    exact countP_le_of_sublist hsub fun e _ => hcounted e
  rcases runs_cases hx hstep with ⟨hruns, -⟩ | ⟨_, -, hruns, -⟩ | ⟨key, hroom, hruns, -⟩
  · have := hkeep hruns
    omega
  · have := hkeep (by rw [hruns])
    omega
  · have happend := countP_append_le
      (e := (key, x.sys.pool.nextRun)) fun e (_ : e ∈ x.sys.pool.runs) =>
      hcounted e
    have hunparked : x.sys.pool.runs.countP
        (fun e => !(x.sys.pool.heap e.2).parked && !x.revived e.2) ≤
          x.sys.pool.runs.countP fun e => !(x.sys.pool.heap e.2).parked := by
      refine List.countP_mono_left ?_
      intro e _ he
      exact ((Bool.and_eq_true _ _).mp he).1
    rw [hruns]
    unfold Pool.unparkedRunsLocked at hroom
    omega

end Runs

/-- An `Exec` on "a" that takes 90 seconds: the next sweep parks "a". -/
def idleA : List Action :=
  .callExec "a" 0 :: List.replicate 12 (.run 1 .go) ++
    .tick 90000000000 :: List.replicate 5 (.run 1 .go)

/-- "a" is parked by the sweep of an `Exec` on "b"; after it and one on "c", an `Exec` on "a"
revives it. -/
def reviveA : List Action :=
  idleA ++
    [.callExec "b" 0, .run 2 .go, .run 2 .go, .run 2 (.visit "a" ⟨0, false⟩), .run 2 .go,
      .run 2 .go, .run 2 .go, .run 2 .go,
      .callExec "c" 0, .run 3 .go, .run 3 .go, .run 3 (.visit "a" ⟨0, false⟩),
      .run 3 (.visit "b" ⟨0, false⟩), .run 3 .go, .run 3 .go, .run 3 .go, .run 3 .go,
      .callExec "a" 0, .run 4 .go, .run 4 .go, .run 4 (.visit "a" ⟨0, false⟩),
      .run 4 (.visit "b" ⟨0, false⟩), .run 4 (.visit "c" ⟨0, false⟩), .run 4 .go, .run 4 .go,
      .run 4 .go, .run 4 .go]

/-- **MaxRuns refuses only new runs**: in every state of a pool, the runs that are not marked
parked and were not revived are at most `MaxRuns`; a step that raises the number of unparked runs
leaves it at most `MaxRuns` or revives a run; and a run is revived only by an `Exec` on its own key
that found no ready VM.
SRCLINE: budget.go:40-73, pool.go:392-445, 557-577 -/
theorem max_runs_bounds_new_runs {cfg cfg' : Config} {lc : Launcher}
    (hcfg : cfg.normalize = .ok cfg')
    {x : Tracked} (h : Reachable (trackedSystem cfg lc) x) :
    (x.neverParked : Int) ≤ cfg'.maxRuns ∧
    ∀ a s', sysStep x.sys a = some s' →
      (s'.pool.unparkedRunsLocked ≤ x.sys.pool.unparkedRunsLocked ∨
        s'.pool.unparkedRunsLocked ≤ cfg'.maxRuns ∨
        ∃ key g, (key, g) ∈ x.sys.pool.runs ∧ Revives x.sys s' g) ∧
      ∀ key g, (key, g) ∈ x.sys.pool.runs → Revives x.sys s' g → ByExecOf x.sys a g := by
  have hcfgOf : ∀ {x : Tracked}, Reachable (trackedSystem cfg lc) x → x.sys.pool.cfg = cfg' := by
    intro x hx
    have hnormal := (frame_of_pool (reachable_of_tracked hx)).1
    rw [hcfg] at hnormal
    exact (Except.ok.inj hnormal).symm
  constructor
  · refine h.invariant (P := fun x => (x.neverParked : Int) ≤ cfg'.maxRuns) ?_ ?_
    · rintro x ⟨⟨now, dirs, hnew⟩, hnone⟩
      obtain ⟨hruns, -, hpos⟩ := newPool_runs hnew
      rw [← hcfgOf (.init ⟨⟨now, dirs, hnew⟩, hnone⟩)]
      unfold Tracked.neverParked
      rw [hruns]
      exact le_of_lt hpos
    · rintro x x' hx hle ⟨a, ha⟩
      rw [← hcfgOf hx] at hle ⊢
      exact neverParked_step (reachable_of_tracked hx) ha hle
  · intro a s' hstep
    rw [← hcfgOf h]
    exact ⟨unparkedRunsLocked_step (reachable_of_tracked h) hstep,
      fun _ _ hlive hg => byExecOf_of_revives (reachable_of_tracked h) hstep hlive hg⟩

/-- With "a" revived, three runs are unparked, and the two that never were parked are at the
ceiling. -/
theorem max_runs_bounds_new_runs_two :
    ∃ x, Reachable (trackedSystem (smallConfig 0) smallLauncher) x ∧
      x.sys.pool.unparkedRunsLocked = 3 ∧ x.neverParked = 2 ∧ (x.neverParked : Int) ≤ 2 := by
  obtain ⟨x, hx, hP⟩ : ∃ x, Reachable (trackedSystem (smallConfig 0) smallLauncher) x ∧
      decide (x.sys.pool.unparkedRunsLocked = 3 ∧ x.neverParked = 2) = true :=
    exists_reachable_of_small trackStep (fun s => ⟨s, fun _ => false⟩) 0
      (fun _ hnew => ⟨⟨0, .empty, hnew⟩, fun _ => rfl⟩) reviveA _ (by decide +kernel)
  have hnormal : (smallConfig 0).normalize = .ok (smallConfig 0).withDefaults := rfl
  obtain ⟨hthree, htwo⟩ := of_decide_eq_true hP
  exact ⟨x, hx, hthree, htwo, (max_runs_bounds_new_runs hnormal hx).1⟩

/-- The number of unparked runs can exceed `MaxRuns`: "a" is parked, "b" and "c" are created, and
an `Exec` on "a" revives it. -/
theorem unparked_exceeds_max_runs :
    ∃ s, Reachable (poolSystem (smallConfig 0) smallLauncher) s ∧
      s.pool.cfg.maxRuns < s.pool.unparkedRunsLocked := by
  obtain ⟨s, hs, hP⟩ := exists_reachable_of_runSmall 0 reviveA
    (fun s => decide (s.pool.cfg.maxRuns < s.pool.unparkedRunsLocked)) (by decide +kernel)
  exact ⟨s, hs, of_decide_eq_true hP⟩

/-! ## A parked run is empty -/

/-- The action is no replenish callback that is about to warm a VM for a parked run. -/
def leavesParked (s : Sys) : Action → Bool
  | .run i _ =>
    match s.threads[i]? with
    | some (.replenish key _ .start) =>
      (s.pool.runs.lookup key).all fun g =>
        !(s.pool.heap g).parked || s.pool.closed ||
          decide (s.pool.cfg.standbyDepth ≤ (s.pool.heap g).ready.length +
            (s.pool.heap g).warming) ||
          !(s.pool.admitLocked false).isOk
    | _ => true
  | _ => true

/-- Every parked run is empty. -/
def Pool.ParkedEmpty (p : Pool) : Prop := ∀ g, (p.heap g).parked = true → (p.heap g).Empty

section Parked

variable {p p' : Pool} {g : Nat} {rp : RunPool}

theorem Pool.ParkedEmpty.update (h : p.ParkedEmpty) (hheap : p'.heap = Function.update p.heap g rp)
    (hrp : rp.parked = true → rp.Empty) : p'.ParkedEmpty := by
  intro g' hg'
  rw [hheap] at hg' ⊢
  by_cases hg : g' = g
  · subst hg
    rw [Function.update_self] at hg' ⊢
    exact hrp hg'
  · rw [Function.update_of_ne hg] at hg' ⊢
    exact h g' hg'

theorem not_leavesParked {i tm g : Nat} {ch : Choice} {key : Key} (ha : a = .run i ch)
    (hi : s.threads[i]? = some (.replenish key tm .start))
    (hlookup : s.pool.runs.lookup key = some g) (hparked : (s.pool.heap g).parked = true)
    (hopen : s.pool.closed = false)
    (hdepth : ((s.pool.heap g).ready.length : Int) + (s.pool.heap g).warming <
      s.pool.cfg.standbyDepth)
    (hadmits : s.pool.admitLocked false = .ok ()) : ¬leavesParked s a = true := by
  subst ha
  unfold leavesParked
  simp [hi, hlookup, hparked, hopen, hadmits, Except.isOk, Except.toBool, hdepth]

theorem parkedEmpty_step {s' : Sys} (hs : Reachable (poolSystem cfg lc) s)
    (hguard : leavesParked s a = true) (h : sysStep s a = some s') (hempty : s.pool.ParkedEmpty) :
    s'.pool.ParkedEmpty := by
  rcases sysStep_marked hs h with ⟨-, hheap⟩ | ⟨i, ch, t, ha, hi, hmarked⟩
  · intro g hg
    rw [hheap] at hg ⊢
    exact hempty g hg
  · cases hmarked with
    | slims hslims =>
      intro g hg
      rw [(hslims.heap g).parked] at hg
      exact (hslims.heap g).empty (hempty g hg)
    | park _ hheap _ hnew => exact hempty.update hheap fun _ => hnew
    | charge _ hheap hparked hbusy =>
      refine hempty.update hheap ?_
      intro hg
      rw [hparked] at hg
      exact absurd (hempty _ hg) hbusy
    | refill ht hlookup hopen hdepth hadmits _ hheap hparked =>
      refine hempty.update hheap ?_
      intro hg
      rw [hparked] at hg
      subst ht
      exact absurd hguard (not_leavesParked ha hi hlookup hg hopen hdepth hadmits)
    | revive _ _ _ _ hheap hparked =>
      refine hempty.update hheap ?_
      intro hg
      rw [hparked] at hg
      cases hg
    | create _ _ _ _ hheap hparked =>
      refine hempty.update hheap ?_
      intro hg
      rw [hparked] at hg
      cases hg

end Parked

/-- **A parked run has no VM**, in every run in which no replenish callback starts a warming for a
run that is marked parked.
SRCLINE: replenish.go:50-145, sweep.go:56-97, budget.go:20-34 -/
theorem parked_run_has_no_vm {cfg : Config} {lc : Launcher} {s : Sys}
    (h : Reachable (.ofStep (poolSystem cfg lc).init (guarded leavesParked sysStep)) s)
    {key : Key} {g : Nat} (hlive : (key, g) ∈ s.pool.runs)
      (hparked : (s.pool.heap g).parked = true) :
    (s.pool.heap g).ready = [] ∧ (s.pool.heap g).inFlight = 0 ∧ (s.pool.heap g).warming = 0 := by
  have hempty : s.pool.ParkedEmpty := by
    refine h.invariant (P := fun s => s.pool.ParkedEmpty) ?_ ?_
    · rintro s ⟨now, dirs, hnew⟩ g hg
      rw [(newPool_runs hnew).2.1 g] at hg
      cases hg
    · rintro s s' hs hempty ⟨a, ha⟩
      obtain ⟨hguard, hstep⟩ := guarded_eq_some.mp ha
      exact parkedEmpty_step hs.of_guarded hguard hstep hempty
  obtain ⟨hready, hinFlight, hwarming⟩ := hempty g hparked
  obtain ⟨hinFlight', hwarming'⟩ := (books_of_pool h.of_guarded).counters_nonneg hlive
  exact ⟨hready, le_antisymm hinFlight hinFlight', le_antisymm hwarming hwarming'⟩

/-- After the sweep of an `Exec` on "b", the run of "a" is parked and empty. -/
theorem parked_run_has_no_vm_a :
    ∃ s, Reachable (poolSystem (smallConfig 0) smallLauncher) s ∧ (s.pool.heap 0).parked = true ∧
      (s.pool.heap 0).ready = [] ∧ (s.pool.heap 0).inFlight = 0 ∧ (s.pool.heap 0).warming = 0 := by
  obtain ⟨s, hs, hP⟩ : ∃ s, Reachable (.ofStep (poolSystem (smallConfig 0) smallLauncher).init
      (guarded leavesParked sysStep)) s ∧
      (decide (("a", 0) ∈ s.pool.runs) && (s.pool.heap 0).parked) = true :=
    exists_reachable_of_small (guarded leavesParked sysStep) id 0 (fun _ hnew => ⟨0, .empty, hnew⟩)
      (idleA ++
        [.callExec "b" 0, .run 2 .go, .run 2 .go, .run 2 (.visit "a" ⟨0, false⟩), .run 2 .go])
      _ (by decide +kernel)
  obtain ⟨hlive, hparked⟩ := (Bool.and_eq_true _ _).mp hP
  exact ⟨s, hs.of_guarded, hparked, parked_run_has_no_vm hs (of_decide_eq_true hlive) hparked⟩

/-- A callback that fired before the sweep stopped the timers warms a VM for the parked run. -/
theorem parked_run_warms_vm :
    ∃ s, Reachable (poolSystem (smallConfig 0) smallLauncher) s ∧ s.pool.mu = none ∧
      ∃ key g, (key, g) ∈ s.pool.runs ∧ (s.pool.heap g).parked = true ∧
        (s.pool.heap g).warming = 1 := by
  obtain ⟨s, hs, hP⟩ := exists_reachable_of_runSmall 0
    (idleA ++
      [.tick 200000000, .fireReplenish ⟨0, "a", 90200000000⟩,
        .callExec "b" 0, .run 3 .go, .run 3 .go, .run 3 (.visit "a" ⟨0, false⟩), .run 3 .go,
        .run 2 .go, .run 2 .go])
    (fun s => decide (s.pool.mu = none) && decide (("a", 0) ∈ s.pool.runs) &&
      (s.pool.heap 0).parked &&
      decide ((s.pool.heap 0).warming = 1)) (by decide +kernel)
  simp only [Bool.and_eq_true, decide_eq_true_eq] at hP
  exact ⟨s, hs, hP.1.1.1, "a", 0, hP.1.1.2, hP.1.2, hP.2⟩

end ServerlessHarness.VmPool
