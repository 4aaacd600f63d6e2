import ServerlessHarness.Library.Slices
import ServerlessHarness.Model.RemoteWorker.Cache

/-!
# The dedup cache in memory

The cache again, with its order as the slice that the source has: `touch` builds the new order with
two appends to the part before the id, and `Put` appends in place while the array has room. `spare`
is the room of a new array, which Go chooses.
-/

set_option autoImplicit false

namespace ServerlessHarness.RemoteWorker

open Library

/-- SRCLINE: cache.go:66-71 -/
structure CacheMemory (Digest : Type) where
  max : ℕ
  heap : List (List ℕ)
  order : Slice
  items : OrderedMap ℕ (Entry Digest)

section

variable {Digest : Type} (spare : ℕ → ℕ)

/-- The ids of the order, the least recently used first. -/
def CacheMemory.ids (c : CacheMemory Digest) : List ℕ := c.order.read c.heap

/-- SRCLINE: cache.go:73-78 -/
def newCacheMemory (max : Int) : CacheMemory Digest :=
  ⟨if max ≤ 0 then cacheSize else max.toNat, [[]], ⟨0, 0, 0, 0⟩, .empty⟩

/-- SRCLINE: cache.go:114-121 -/
def CacheMemory.touch (c : CacheMemory Digest) (reqId : ℕ) : CacheMemory Digest :=
  if reqId ∈ c.ids then
    let i := c.ids.idxOf reqId
    let (heap, front) := Slice.append spare 0 c.heap (c.order.upTo i)
      ((c.order.after (i + 1)).read c.heap)
    let (heap, order) := Slice.append spare 0 heap front [reqId]
    { c with heap := heap, order := order }
  else c

/-- SRCLINE: cache.go:83-95 -/
def CacheMemory.lookup [DecidableEq Digest] (c : CacheMemory Digest) (reqId : ℕ) (fp : Digest) :
    Found Digest × CacheMemory Digest :=
  match c.items.get reqId with
  | none => (.miss, c)
  | some entry =>
    if entry.fingerprint ≠ fp then (.collision, c) else (.hit entry, c.touch spare reqId)

/-- SRCLINE: cache.go:106-110 -/
def evictSlice (max : ℕ) (heap : List (List ℕ)) :
    ℕ → Slice → OrderedMap ℕ (Entry Digest) → Slice × OrderedMap ℕ (Entry Digest)
  | 0, order, items => (order, items)
  | n + 1, order, items =>
    if max < order.length then
      evictSlice max heap n (order.after 1) (items.erase ((order.read heap).headD 0))
    else (order, items)

/-- Every round takes one id, so that there are at most as many rounds as ids.
SRCLINE: cache.go:97-111 -/
def CacheMemory.put (c : CacheMemory Digest) (reqId : ℕ) (entry : Entry Digest) :
    CacheMemory Digest :=
  let c :=
    if c.items.has reqId then c.touch spare reqId
    else
      let (heap, order) := Slice.append spare 0 c.heap c.order [reqId]
      { c with heap := heap, order := order }
  let (order, items) := evictSlice c.max c.heap c.order.length c.order (c.items.set reqId entry)
  { c with order := order, items := items }

end

end ServerlessHarness.RemoteWorker
