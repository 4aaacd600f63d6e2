import ServerlessHarness.Library.OrderedMap

/-!
# Routing and admission

What the supervisor knows of its workers when a connection arrives (`WorkerView`), whether it admits
the connection, and which worker it prefers: the one with the fewest turns in flight, or under
`stickyBySession` the one to which the session is pinned.
-/

set_option autoImplicit false

namespace ServerlessHarness.Supervisor

open Library

/-- SRCLINE: routing.ts:2-10 -/
structure WorkerView where
  id : ℕ
  inFlight : ℕ
  healthy : Bool
deriving DecidableEq, Repr

/-- One round of the loop of `pickLeastLoaded`.
SRCLINE: routing.ts:32-37 -/
def betterOf (best : Option WorkerView) (wv : WorkerView) : Option WorkerView :=
  if !wv.healthy then best
  else
    match best with
    | none => some wv
    | some b => if wv.inFlight < b.inFlight then some wv else some b

/-- Fewest turns in flight; the lowest id among equals.
SRCLINE: routing.ts:30-39 -/
def pickLeastLoaded (workers : List WorkerView) : Option ℕ :=
  (workers.foldl betterOf none).map WorkerView.id

/-- SRCLINE: routing.ts:17-27 -/
inductive RoutingPolicy where
  | leastInFlight
  | stickyBySession (maxPins : ℕ)
deriving DecidableEq, Repr

/-- SRCLINE: routing.ts:48, 90 -/
def RoutingPolicy.needsHead : RoutingPolicy → Bool
  | .leastInFlight => false
  | .stickyBySession _ => true

/-- The worker of each session, the least recently used first.
SRCLINE: routing.ts:72 -/
abbrev Pins := OrderedMap String ℕ

/-- `while (pins.size > maxPins)`: the oldest entries go.
SRCLINE: routing.ts:81-85 -/
def evict (maxPins : ℕ) (pins : Pins) : Pins :=
  (pins.keys.take (pins.keys.length - maxPins)).foldl OrderedMap.erase pins

/-- SRCLINE: routing.ts:75-86 -/
def remember (maxPins : ℕ) (pins : Pins) (sid : String) (id : ℕ) : Pins :=
  evict maxPins ((pins.erase sid).set sid id)

/-- The preferred worker, and the pins after the call.
SRCLINE: routing.ts:49, 91-104 -/
def RoutingPolicy.pick (policy : RoutingPolicy) (pins : Pins) (workers : List WorkerView)
    (sessionId : Option String) : Option ℕ × Pins :=
  match policy, sessionId with
  | .leastInFlight, _ => (pickLeastLoaded workers, pins)
  | .stickyBySession _, none => (pickLeastLoaded workers, pins)
  | .stickyBySession maxPins, some sid =>
    match (pins.get sid).filter fun id => workers.any fun wv => wv.id = id && wv.healthy with
    | some pinned => (some pinned, remember maxPins pins sid pinned)
    | none =>
      match pickLeastLoaded workers with
      | some chosen => (some chosen, remember maxPins pins sid chosen)
      | none => (none, pins)

/-- No healthy worker is below the cap.
SRCLINE: admission.ts:18-20 -/
def isSaturated (workers : List WorkerView) (turnsPerWorker : ℕ) : Bool :=
  !workers.any fun wv => wv.healthy && decide (wv.inFlight < turnsPerWorker)

end ServerlessHarness.Supervisor
