import Mathlib.Logic.Relation

/-!
# Transition systems, their invariants and their refinements

Generic tools for a program that takes step after step. A `TransitionSystem` is a
set of initial states and a step relation; `Reachable` is what its runs visit. An
invariant is proved from what one step preserves (`Reachable.invariant`), a property
of the runs whose steps all meet a condition is a property of the restricted system
(`TransitionSystem.restrict`), and a refinement maps every step of a concrete system
to zero or more steps of an abstract one, so that the abstract invariants hold of the
concrete states (`Refines.reachable`).

A system given by an executable step function is run on a list of actions with
`runActions`; `reachable_of_runActions` turns such a run into reachability.
-/

set_option autoImplicit false

namespace ServerlessHarness.Library

universe u v w

/-- A set of initial states and a step relation. -/
structure TransitionSystem (σ : Type u) where
  init : σ → Prop
  next : σ → σ → Prop

/-- The states that some run visits. -/
inductive Reachable {σ : Type u} (S : TransitionSystem σ) : σ → Prop where
  | init {s : σ} : S.init s → Reachable S s
  | step {s t : σ} : Reachable S s → S.next s t → Reachable S t

section Invariants

variable {σ : Type u} {τ : Type v} {S : TransitionSystem σ}

/-- INTERNAL: **the invariant rule**: what holds initially and is preserved by every
step from a reachable state holds of every reachable state. -/
theorem Reachable.invariant {P : σ → Prop} (h0 : ∀ s, S.init s → P s)
    (hstep : ∀ s t, Reachable S s → P s → S.next s t → P t) {s : σ} (h : Reachable S s) :
    P s := by
  induction h with
  | init h => exact h0 _ h
  | step hs hn ih => exact hstep _ _ hs ih hn

theorem Reachable.trans {s t : σ} (h : Reachable S s)
    (hst : Relation.ReflTransGen S.next s t) : Reachable S t := by
  induction hst with
  | refl => exact h
  | tail _ hn ih => exact .step ih hn

/-- The runs of `S` whose steps all meet `G`, as a system of its own. -/
def TransitionSystem.restrict (S : TransitionSystem σ) (G : σ → σ → Prop) :
    TransitionSystem σ where
  init := S.init
  next s t := S.next s t ∧ G s t

theorem Reachable.of_restrict {G : σ → σ → Prop} {s : σ} (h : Reachable (S.restrict G) s) :
    Reachable S s := by
  induction h with
  | init h => exact .init h
  | step _ hn ih => exact .step ih hn.1

/-- `f` maps initial states to initial states and every step of `C` to zero or more steps
of `A`. The local invariant `I` of `C` is proved along the way: the argument for a step may
use it, and that the image of the state is reachable. -/
structure Refines (C : TransitionSystem σ) (A : TransitionSystem τ) (f : σ → τ) (I : σ → Prop) :
    Prop where
  init : ∀ s, C.init s → A.init (f s) ∧ I s
  step : ∀ s t, Reachable A (f s) → I s → C.next s t →
    Relation.ReflTransGen A.next (f s) (f t) ∧ I t

/-- A refinement carries reachable states over. -/
theorem Refines.reachable {C : TransitionSystem σ} {A : TransitionSystem τ} {f : σ → τ}
    {I : σ → Prop} (hr : Refines C A f I) {s : σ} (h : Reachable C s) :
    Reachable A (f s) ∧ I s := by
  induction h with
  | init h =>
    obtain ⟨hA, hI⟩ := hr.init _ h
    exact ⟨.init hA, hI⟩
  | step _ hn ih =>
    obtain ⟨hsteps, hI⟩ := hr.step _ _ ih.1 ih.2 hn
    exact ⟨ih.1.trans hsteps, hI⟩

end Invariants

section Executable

variable {σ : Type u} {α : Type w}

/-- The system of an executable step function, one step for each enabled action. -/
def TransitionSystem.ofStep (init : σ → Prop) (step : σ → α → Option σ) :
    TransitionSystem σ where
  init := init
  next s t := ∃ a, step s a = some t

/-- Runs a list of actions; `none` as soon as one of them is not enabled. -/
def runActions (step : σ → α → Option σ) : σ → List α → Option σ
  | s, [] => some s
  | s, a :: as => (step s a).bind fun t => runActions step t as

/-- The step function that takes only the actions which meet `G`. -/
def guarded (G : σ → α → Bool) (step : σ → α → Option σ) (s : σ) (a : α) : Option σ :=
  if G s a then step s a else none

variable {init : σ → Prop} {step : σ → α → Option σ} {G G' : σ → α → Bool} {s t : σ}
  {as : List α}

theorem guarded_eq_some {a : α} :
    guarded G step s a = some t ↔ G s a = true ∧ step s a = some t := by
  unfold guarded
  split <;> simp_all

/-- A run of the guarded system is one of the system. -/
theorem Reachable.of_guarded (h : Reachable (.ofStep init (guarded G step)) s) :
    Reachable (.ofStep init step) s := by
  induction h with
  | init h => exact .init h
  | step _ hn ih =>
    obtain ⟨a, ha⟩ := hn
    exact .step ih ⟨a, (guarded_eq_some.mp ha).2⟩

theorem runActions_of_guarded :
    ∀ {s t : σ}, runActions (guarded G step) s as = some t → runActions step s as = some t := by
  induction as with
  | nil =>
    intro s t h
    exact h
  | cons a as ih =>
    intro s t h
    obtain ⟨m, hm, hrest⟩ := Option.bind_eq_some_iff.mp h
    exact Option.bind_eq_some_iff.mpr ⟨m, (guarded_eq_some.mp hm).2, ih hrest⟩

theorem Reachable.guarded_mono (hG : ∀ s a, G s a = true → G' s a = true)
    (h : Reachable (.ofStep init (guarded G step)) s) :
    Reachable (.ofStep init (guarded G' step)) s := by
  induction h with
  | init h => exact .init h
  | step _ hn ih =>
    obtain ⟨a, ha⟩ := hn
    obtain ⟨hGa, hstep⟩ := guarded_eq_some.mp ha
    exact .step ih ⟨a, guarded_eq_some.mpr ⟨hG _ _ hGa, hstep⟩⟩

/-- A run of actions from a reachable state ends in one. -/
theorem reachable_of_runActions :
    ∀ {s t : σ}, Reachable (TransitionSystem.ofStep init step) s →
      runActions step s as = some t → Reachable (TransitionSystem.ofStep init step) t := by
  induction as with
  | nil =>
    intro s t hs h
    cases h
    exact hs
  | cons a as ih =>
    intro s t hs h
    obtain ⟨m, hm, hrest⟩ := Option.bind_eq_some_iff.mp h
    exact ih (.step hs ⟨a, hm⟩) hrest

/-- A computed run gives a reachable state with what was computed of it. -/
theorem exists_reachable_of_runActions (h0 : init s) (as : List α) (P : σ → Bool)
    (h : (runActions step s as).map P = some true) :
    ∃ t, Reachable (TransitionSystem.ofStep init step) t ∧ P t = true := by
  obtain ⟨t, ht, hP⟩ := Option.map_eq_some_iff.mp h
  exact ⟨t, reachable_of_runActions (.init h0) ht, hP⟩

/-- The same for the next step. -/
theorem exists_step_of_runActions (h0 : init s) (as : List α) (a : α) (P : σ → σ → Bool)
    (h : (runActions step s as).map (fun t => (step t a).any (P t)) = some true) :
    ∃ t t', Reachable (TransitionSystem.ofStep init step) t ∧ step t a = some t' ∧
      P t t' = true := by
  obtain ⟨t, ht, hnext⟩ := exists_reachable_of_runActions h0 as _ h
  cases hstep : step t a with
  | none =>
    rw [hstep] at hnext
    cases hnext
  | some t' =>
    rw [hstep] at hnext
    exact ⟨t, t', ht, hstep, hnext⟩

end Executable

end ServerlessHarness.Library
