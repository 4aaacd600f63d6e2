import ServerlessHarness.Library.Framing
import ServerlessHarness.Library.OrderedMap
import ServerlessHarness.Model.Protocol

/-!
# The dedup cache of the worker

The terminal frames of completed execs by request id, each with the fingerprint of its exec; the
least recently used entry goes first. An entry also names the exec that it was put for, of which
the source keeps the fingerprint only.
-/

set_option autoImplicit false

namespace ServerlessHarness.RemoteWorker

open Library Protocol

/-- SRCLINE: sandbox.proto:19-27 -/
inductive Frame where
  | hello (hello : Hello)
  | heartbeat
  | chunk (chunk : Chunk)
  | exit (exit : End)
  | error (error : ExecError)
deriving DecidableEq, Repr

/-- SRCLINE: loop.go:741-745 -/
def endFrame (reqId : ℕ) (code : Int) (truncated : Bool) : Frame := .exit ⟨reqId, code, truncated⟩

/-- SRCLINE: loop.go:747-749 -/
def errFrame (reqId : ℕ) (message : String) : Frame := .error ⟨reqId, message⟩

/-- `[]byte(command)`. -/
def bytesOf (s : String) : List UInt8 := s.toUTF8.data.toList

/-- What is hashed.
SRCLINE: cache.go:31-46 -/
def fingerprintInput (command : String) (stdin : List UInt8) (timeoutS : ℕ) (streaming : Bool) :
    List UInt8 :=
  framed 8 (bytesOf command) ++
    (framed 8 stdin ++ (bigEndian 8 timeoutS ++ [if streaming then 1 else 0]))

section Cache

variable {Digest : Type}

/-- SRCLINE: cache.go:30-49 -/
def fingerprint (sha256 : List UInt8 → Digest) (e : Exec) : Digest :=
  sha256 (fingerprintInput e.command e.stdin e.timeoutS e.streaming)

/-- SRCLINE: cache.go:51-54 -/
structure Entry (Digest : Type) where
  fingerprint : Digest
  frame : Frame
  exec : Exec

/-- SRCLINE: cache.go:66-71 -/
structure Cache (Digest : Type) where
  max : ℕ
  order : List ℕ
  items : OrderedMap ℕ (Entry Digest)

/-- SRCLINE: cache.go:12 -/
def cacheSize : ℕ := 256

/-- SRCLINE: cache.go:73-78 -/
def newCache (max : ℕ) : Cache Digest :=
  ⟨if max = 0 then cacheSize else max, [], .empty⟩

/-- SRCLINE: cache.go:114-121 -/
def Cache.touch (c : Cache Digest) (reqId : ℕ) : Cache Digest :=
  { c with order := if reqId ∈ c.order then c.order.erase reqId ++ [reqId] else c.order }

/-- What `Lookup` returns: nothing, an entry for another exec, or the entry. -/
inductive Found (Digest : Type) where
  | miss
  | collision
  | hit (entry : Entry Digest)

/-- SRCLINE: cache.go:83-95 -/
def Cache.lookup [DecidableEq Digest] (c : Cache Digest) (reqId : ℕ) (fp : Digest) :
    Found Digest × Cache Digest :=
  match c.items.get reqId with
  | none => (.miss, c)
  | some entry => if entry.fingerprint ≠ fp then (.collision, c) else (.hit entry, c.touch reqId)

/-- SRCLINE: cache.go:106-110 -/
def evict (max : ℕ) : List ℕ → OrderedMap ℕ (Entry Digest) → List ℕ × OrderedMap ℕ (Entry Digest)
  | [], items => ([], items)
  | oldest :: order, items =>
    if max < (oldest :: order).length then evict max order (items.erase oldest)
    else (oldest :: order, items)

/-- SRCLINE: cache.go:97-111 -/
def Cache.put (c : Cache Digest) (reqId : ℕ) (entry : Entry Digest) : Cache Digest :=
  let c := if c.items.has reqId then c.touch reqId else { c with order := c.order ++ [reqId] }
  let (order, items) := evict c.max c.order (c.items.set reqId entry)
  { c with order := order, items := items }

/-! ## What is in the cache -/

theorem items_lookup [DecidableEq Digest] (c : Cache Digest) (reqId : ℕ) (fp : Digest) :
    (c.lookup reqId fp).2.items = c.items := by
  unfold Cache.lookup
  split
  · rfl
  · split
    · rfl
    · rfl

theorem lookup_hit [DecidableEq Digest] {c : Cache Digest} {reqId : ℕ} {fp : Digest}
    {entry : Entry Digest}
    (h : (c.lookup reqId fp).1 = .hit entry) :
    c.items.get reqId = some entry ∧ entry.fingerprint = fp := by
  unfold Cache.lookup at h
  split at h
  · cases h
  · rename_i found hfound
    split at h
    · cases h
    · rename_i hfp
      cases h
      exact ⟨hfound, not_not.mp hfp⟩

theorem get_evict {max : ℕ} {order : List ℕ} {items : OrderedMap ℕ (Entry Digest)} {k : ℕ}
    {entry : Entry Digest} (h : (evict max order items).2.get k = some entry) :
    items.get k = some entry := by
  induction order generalizing items with
  | nil => exact h
  | cons oldest order ih =>
    rw [evict] at h
    split at h
    · exact (OrderedMap.get_erase_eq_some (ih h)).2
    · exact h

theorem get_put {c : Cache Digest} {reqId k : ℕ} {entry found : Entry Digest}
    (h : (c.put reqId entry).items.get k = some found) :
    k = reqId ∧ found = entry ∨ c.items.get k = some found := by
  have hset : (c.items.set reqId entry).get k = some found := by
    unfold Cache.put at h
    split at h
    · exact get_evict h
    · exact get_evict h
  by_cases hk : k = reqId
  · rw [hk, OrderedMap.get_set_self] at hset
    exact Or.inl ⟨hk, (Option.some.inj hset).symm⟩
  · rw [OrderedMap.get_set_ne hk] at hset
    exact Or.inr hset

end Cache

end ServerlessHarness.RemoteWorker
