import ServerlessHarness.Interface.VmPool.Moves
import ServerlessHarness.Model.VmPool.Counters

/-!
# The pool with its counters

A run with counters is a run of the pool (`reachable_of_counted`). `CountMove` says what a step can
do.
-/

set_option autoImplicit false

namespace ServerlessHarness.VmPool

open Library

theorem acquireTurn_eq (p : Pool) (key : Key) (v : AcquireLocals) :
    ((p.acquireTurn key v).acquired, (p.acquireTurn key v).pool) = p.acquireLocked key := by
  unfold Pool.acquireTurn Pool.acquireLocked
  by_cases hclosed : p.closed = true
  · rw [if_pos hclosed, if_pos hclosed]
  · rw [if_neg hclosed, if_neg hclosed]
    cases hrun : p.runLocked key with
    | error e => rfl
    | ok x =>
      obtain ⟨g, q⟩ := x
      dsimp only
      cases hready : (q.heap g).ready.getLast? with
      | some vm => rfl
      | none =>
        dsimp only
        by_cases hwarming : (q.heap g).warming > 0
        · rw [if_pos hwarming, if_pos hwarming]
        · rw [if_neg hwarming, if_neg hwarming]
          cases hadmits : Pool.admitLocked (q.setRun g _) false <;> rfl

/-- How a turn of `acquire`'s loop may end, and what it counts then. -/
inductive TurnMove (v : AcquireLocals) (t : Turn) : Prop where
  | early (acquired : t.acquired = .closed ∨ ∃ e, t.acquired = .refused e) (locals : t.locals = v)
      (cold : t.cold = none) (warm : t.warm = false)
  | warm {run : Nat} {vm : VM} (acquired : t.acquired = .warm run vm) (locals : t.locals = v)
      (cold : t.cold = none) (warm : t.warm = !v.counted)
  | cold (acquired : ∀ run vm, t.acquired ≠ .warm run vm) (locals : t.locals.counted = true)
      (cold : t.cold.isSome = !v.counted) (warm : t.warm = false)

theorem acquireTurn_moves (p : Pool) (key : Key) (v : AcquireLocals) :
    TurnMove v (p.acquireTurn key v) := by
  have hlocals : ∀ cause : ColdCause,
      (if v.counted = true then v else ⟨true, some cause⟩ : AcquireLocals).counted = true := by
    intro cause
    split
    · assumption
    · rfl
  have hcold : ∀ cause : ColdCause,
      (if v.counted = true then none else some cause : Option ColdCause).isSome = !v.counted := by
    intro cause
    cases v.counted <;> rfl
  unfold Pool.acquireTurn
  split
  · exact .early (.inl rfl) rfl rfl rfl
  · dsimp only
    split
    · exact .early (.inr ⟨_, rfl⟩) rfl rfl rfl
    · split
      · exact .warm rfl rfl rfl rfl
      · split
        · exact .cold (fun _ _ h => nomatch h) (hlocals _) (hcold _) rfl
        · split
          · exact .cold (fun _ _ h => nomatch h) (hlocals _) (hcold _) rfl
          · exact .cold (fun _ _ h => nomatch h) (hlocals _) (hcold _) rfl

/-- A step of the pool, its counters and its environment. -/
inductive CountMove (s : Counted) : Action → Counted → Prop where
  | pay {i : Nat} {ch : Choice} {n : Notes} {o : Owed} (hn : s.notes[i]? = some n)
      (howed : n.owed = some o) : CountMove s (.run i ch) (s.pay i n o)
  | run {i : Nat} {ch : Choice} {n : Notes} {t t' : Thread} {p' : Pool}
      (hn : s.notes[i]? = some n) (howed : n.owed = none) (hi : s.sys.threads[i]? = some t)
      (h : threadStep s.sys.pool i t ch = some (p', t')) :
      CountMove s (.run i ch) (s.note i n t ch ⟨p', s.sys.threads.set i t'⟩)
  | other {a : Action} {sys : Sys} (ha : ∀ i ch, a ≠ .run i ch) (h : sysStep s.sys a = some sys) :
      CountMove s a
        { s with
          sys := sys
          notes := s.notes ++ List.replicate (sys.threads.length - s.notes.length) .fresh }

variable {s : Counted}

/-- INTERNAL: **what a step can do**. -/
theorem countStep_moves {s' : Counted} {a : Action} (h : countStep s a = some s') :
    CountMove s a s' := by
  unfold countStep at h
  split at h
  · split at h
    · rename_i hi hn
      split at h
      · rename_i howed
        cases h
        exact .pay hn howed
      · rename_i howed
        obtain ⟨sys, hstep, heq⟩ := Option.map_eq_some_iff.mp h
        subst heq
        cases sysStep_moves hstep with
        | spawn hrun => exact absurd rfl (hrun _ _)
        | run hi' hthread =>
          rw [hi] at hi'
          cases hi'
          exact .run hn howed hi hthread
    · cases h
  · rename_i hrun
    obtain ⟨sys, hstep, heq⟩ := Option.map_eq_some_iff.mp h
    subst heq
    exact .other hrun hstep

theorem reachable_of_counted {cfg : Config} {lc : Launcher}
    (h : Reachable (countedSystem cfg lc) s) : Reachable (poolSystem cfg lc) s.sys := by
  induction h with
  | init h =>
    obtain ⟨now, dirs, sys, hnew, rfl⟩ := h
    exact .init ⟨now, dirs, hnew⟩
  | @step s s' _ hnext ih =>
    obtain ⟨a, ha⟩ := hnext
    unfold countStep at ha
    split at ha
    · split at ha
      · split at ha
        · cases ha
          exact ih
        · obtain ⟨sys, hstep, rfl⟩ := Option.map_eq_some_iff.mp ha
          exact .step ih ⟨_, hstep⟩
      · cases ha
    · obtain ⟨sys, hstep, rfl⟩ := Option.map_eq_some_iff.mp ha
      exact .step ih ⟨_, hstep⟩

theorem length_notes {cfg : Config} {lc : Launcher} (h : Reachable (countedSystem cfg lc) s) :
    s.notes.length = s.sys.threads.length := by
  refine h.invariant (P := fun s => s.notes.length = s.sys.threads.length) ?_ ?_
  · rintro s ⟨now, dirs, sys, -, rfl⟩
    exact List.length_replicate
  · rintro s s' - hlength ⟨a, ha⟩
    cases countStep_moves ha with
    | pay => exact (List.length_set ..).trans hlength
    | run =>
      show (s.notes.set ..).length = (s.sys.threads.set ..).length
      rw [List.length_set, List.length_set]
      exact hlength
    | @other _ sys _ hstep =>
      have hgrows : s.sys.threads.length ≤ sys.threads.length := by
        cases sysStep_moves hstep with
        | clock => exact le_refl _
        | spawn => exact (List.length_append ..).symm ▸ Nat.le_add_right _ _
        | expire | cancel | run => exact le_of_eq (List.length_set ..).symm
      show (s.notes ++ _).length = sys.threads.length
      rw [List.length_append, List.length_replicate]
      omega

end ServerlessHarness.VmPool
