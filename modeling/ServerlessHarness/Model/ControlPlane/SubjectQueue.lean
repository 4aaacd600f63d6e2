import ServerlessHarness.Library.OrderedMap

/-!
# One operation at a time for each subject

`SubjectQueue` chains the operations of a subject by promises: the operation of a call runs when
the tail of the call before it has settled, its own tail settles after it, whatever the outcome,
and the last tail removes the subject from the map. Calls are numbered in the order they are made.
Each reaction to a settled promise is a microtask of its call; microtasks run in any order here, of
which the order of the runtime is one.
-/

set_option autoImplicit false

namespace ServerlessHarness.ControlPlane

open Library

universe u

/-- How a promise settles. -/
inductive Outcome (ρ : Type u) where
  | fulfilled (value : ρ)
  | rejected (reason : ρ)
deriving DecidableEq, Repr

/-- How far a call is: its operation waits, runs or has settled; then `next`, which the caller
holds, has settled; then the tail; then the clean-up has run. -/
inductive Phase (ρ : Type u) where
  | queued
  | running
  | settled (o : Outcome ρ)
  | returned (o : Outcome ρ)
  | tailed (o : Outcome ρ)
  | cleaned (o : Outcome ρ)
deriving DecidableEq, Repr

/-- A call of `run`; `prev` is the call whose tail it found in the map.
SRCLINE: subject-document.ts:195-197 -/
structure QueuedCall (ρ : Type u) where
  subject : String
  prev : Option ℕ
  phase : Phase ρ
deriving DecidableEq, Repr

inductive QueueEvent (ρ : Type u) where
  | started (i : ℕ)
  | settled (i : ℕ) (o : Outcome ρ)
  | returned (i : ℕ) (o : Outcome ρ)
deriving DecidableEq, Repr

/-- `chains` holds, for each subject, the call whose tail is in the map. -/
structure SubjectQueue (ρ : Type u) where
  calls : List (QueuedCall ρ)
  chains : OrderedMap String ℕ
  log : List (QueueEvent ρ)

variable {ρ : Type u}

/-- The tail of the call has settled. -/
def Phase.finished : Phase ρ → Bool
  | .tailed _ => true
  | .cleaned _ => true
  | _ => false

def SubjectQueue.finished (q : SubjectQueue ρ) (i : ℕ) : Bool :=
  (q.calls[i]?).any fun c => c.phase.finished

/-- SRCLINE: subject-document.ts:195-199 -/
def SubjectQueue.runCall (q : SubjectQueue ρ) (subject : String) : SubjectQueue ρ :=
  { q with
    calls := q.calls ++ [⟨subject, q.chains.get subject, .queued⟩]
    chains := q.chains.set subject q.calls.length }

def SubjectQueue.setPhase (q : SubjectQueue ρ) (i : ℕ) (phase : Phase ρ) : SubjectQueue ρ :=
  { q with calls := q.calls.modify i fun c => { c with phase } }

/-- The operation of a call settles, at any time after it was started. -/
def SubjectQueue.settle (q : SubjectQueue ρ) (i : ℕ) (o : Outcome ρ) : SubjectQueue ρ :=
  match (q.calls[i]?).map QueuedCall.phase with
  | some .running => { q.setPhase i (.settled o) with log := q.log ++ [.settled i o] }
  | _ => q

/-- The next microtask of a call, if there is one: `prev.then(op, op)` starts the operation, `next`
settles as it did, `next.catch` settles, and the clean-up compares the tails.
SRCLINE: subject-document.ts:196-204 -/
def SubjectQueue.microtask (q : SubjectQueue ρ) (i : ℕ) : Option (SubjectQueue ρ) :=
  (q.calls[i]?).bind fun c =>
    match c.phase with
    | .queued =>
      if c.prev.all q.finished then
        some { q.setPhase i .running with log := q.log ++ [.started i] }
      else none
    | .running => none
    | .settled o => some { q.setPhase i (.returned o) with log := q.log ++ [.returned i o] }
    | .returned o => some (q.setPhase i (.tailed o))
    | .tailed o =>
      let cleaned := q.setPhase i (.cleaned o)
      if q.chains.get c.subject = some i then
        some { cleaned with chains := q.chains.erase c.subject }
      else some cleaned
    | .cleaned _ => none

inductive QueueAction (ρ : Type u) where
  | runCall (subject : String)
  | settle (i : ℕ) (o : Outcome ρ)
  | microtask (i : ℕ)

/-- The subject that an action calls `run` for. -/
def QueueAction.called : QueueAction ρ → Option String
  | .runCall subject => some subject
  | _ => none

def SubjectQueue.step (q : SubjectQueue ρ) : QueueAction ρ → SubjectQueue ρ
  | .runCall subject => q.runCall subject
  | .settle i o => q.settle i o
  | .microtask i => (q.microtask i).getD q

/-- A queue after a sequence of calls, settlements and microtasks. -/
def SubjectQueue.after (actions : List (QueueAction ρ)) : SubjectQueue ρ :=
  actions.foldl SubjectQueue.step ⟨[], .empty, []⟩

end ServerlessHarness.ControlPlane
