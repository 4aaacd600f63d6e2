import ServerlessHarness.Library.ScoredSet
import ServerlessHarness.Library.Transition

/-!
# The lease set of a sandbox pod

`RedisLeaseStore` keeps the leases of a pod in one sorted set: a member for each holder, scored with
the time at which its lease expires. `acquire` is one script, which the server executes at once;
`load`, `heartbeat` and `release` are commands of their own.

`leaseSystem` is every interleaving of these commands by any number of holders with distinct ids
and one cap. A command is executed at any time after it was sent, also after its holder sent others
or crashed, and each holder reads its own clock.
-/

set_option autoImplicit false

namespace ServerlessHarness.Sandbox

open Library

/-- The lease set of a pod: holder ids, scored with their expiry. -/
abbrev LeaseSet := ScoredSet String

/-- SRCLINE: sandbox-lease.ts:10-12 -/
def activeCount (members : List (String × ℕ)) (now : ℕ) : ℕ :=
  (members.filter fun m => now < m.2).length

/-- `ACQUIRE_LUA`: sweeps, then adds the holder if there is room.
SRCLINE: sandbox-lease.ts:28-34 -/
def acquireLua (set : LeaseSet) (now cap : ℕ) (holderId : String) (expiry : ℕ) : Bool × LeaseSet :=
  let swept := set.zremUpTo now
  if swept.zcard < cap then (true, swept.zadd holderId expiry) else (false, swept)

/-- SRCLINE: sandbox-lease.ts:74-78 -/
def load (set : LeaseSet) (now : ℕ) : ℕ × LeaseSet :=
  let swept := set.zremUpTo now
  (swept.zcard, swept)

/-- SRCLINE: sandbox-lease.ts:79-87 -/
def acquire (set : LeaseSet) (now cap : ℕ) (holderId : String) (ttlMs : ℕ) : Bool × LeaseSet :=
  acquireLua set now cap holderId (now + ttlMs)

/-- SRCLINE: sandbox-lease.ts:88-91 -/
def heartbeat (set : LeaseSet) (now : ℕ) (holderId : String) (ttlMs : ℕ) : LeaseSet :=
  set.zadd holderId (now + ttlMs)

/-- SRCLINE: sandbox-lease.ts:92-95 -/
def release (set : LeaseSet) (holderId : String) : LeaseSet := set.zrem holderId

/-! ## Holders -/

/-- A holder: whether it has taken a lease and not given it up, and how many of its heartbeats and
releases are under way. -/
structure Holder where
  id : String
  holding : Bool
  renewals : ℕ
  releases : ℕ
deriving DecidableEq

/-- The lease set of the pod and the holders. -/
structure LeaseSys where
  set : LeaseSet
  holders : List Holder

/-- What can happen: a holder appears; somebody asks for the load; a holder that has no lease tries
to take one, and may miss the reply; a holder sends a heartbeat or its release, or crashes; a
heartbeat or a release that was sent is executed. -/
inductive LeaseAction where
  | join (id : String)
  | load (now : ℕ)
  | acquire (i : ℕ) (now ttlMs : ℕ) (replied : Bool)
  | beat (i : ℕ)
  | finish (i : ℕ)
  | crash (i : ℕ)
  | renew (i : ℕ) (now ttlMs : ℕ)
  | drop (i : ℕ)
deriving DecidableEq

/-- A step of the holder `i`. -/
def LeaseSys.turn (s : LeaseSys) (i : ℕ) (f : Holder → Option (LeaseSet × Holder)) :
    Option LeaseSys :=
  (s.holders[i]?).bind fun h => (f h).map fun r => ⟨r.1, s.holders.set i r.2⟩

/-- One step: a heartbeat is sent while the lease is held, and the release at its end.
SRCLINE: select-sandbox.ts:433-465, run-leaf.ts:442-448, 560-575 -/
def leaseStep (cap : ℕ) (s : LeaseSys) : LeaseAction → Option LeaseSys
  | .join id =>
    if id ∈ s.holders.map Holder.id then none
    else some { s with holders := s.holders ++ [⟨id, false, 0, 0⟩] }
  | .load now => some { s with set := (load s.set now).2 }
  | .acquire i now ttlMs replied => s.turn i fun h =>
    if h.holding then none
    else
      let r := acquire s.set now cap h.id ttlMs
      some (r.2, { h with holding := r.1 && replied })
  | .beat i => s.turn i fun h =>
    if h.holding then some (s.set, { h with renewals := h.renewals + 1 }) else none
  | .finish i => s.turn i fun h =>
    if h.holding then some (s.set, { h with holding := false, releases := h.releases + 1 })
    else none
  | .crash i => s.turn i fun h => some (s.set, { h with holding := false })
  | .renew i now ttlMs => s.turn i fun h =>
    if 0 < h.renewals then
      some (heartbeat s.set now h.id ttlMs, { h with renewals := h.renewals - 1 })
    else none
  | .drop i => s.turn i fun h =>
    if 0 < h.releases then some (release s.set h.id, { h with releases := h.releases - 1 })
    else none

/-- No leases and no holders. -/
def LeaseSys.empty : LeaseSys := ⟨.empty, []⟩

/-- The runs whose actions all meet `G`. -/
def leaseSystem (cap : ℕ) (G : LeaseSys → LeaseAction → Bool) : TransitionSystem LeaseSys :=
  .ofStep (· = LeaseSys.empty) (guarded G (leaseStep cap))

end ServerlessHarness.Sandbox
