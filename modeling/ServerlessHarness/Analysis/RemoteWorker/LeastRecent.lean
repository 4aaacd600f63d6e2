import ServerlessHarness.Interface.RemoteWorker.CacheMemory
import ServerlessHarness.Library.Recency
import Mathlib.Data.List.Induction

/-!
# The cache forgets what was used least recently

After any calls, the ids in the cache are the most recently used ones, as many as fit; a `Put` uses
its id and so does a lookup that hits. What the cache has for an id is what was last put for it.
-/

set_option autoImplicit false

namespace ServerlessHarness.RemoteWorker

open Library

inductive CacheCall (Digest : Type) where
  | put (reqId : ℕ) (entry : Entry Digest)
  | lookup (reqId : ℕ) (fp : Digest)

def CacheCall.putFor {Digest : Type} (reqId : ℕ) : CacheCall Digest → Option (Entry Digest)
  | .put id entry => if reqId = id then some entry else none
  | .lookup _ _ => none

/-- The last entry that was put for an id. -/
def lastPut {Digest : Type} (calls : List (CacheCall Digest)) (reqId : ℕ) : Option (Entry Digest) :=
  calls.reverse.findSome? (CacheCall.putFor reqId)

section

variable {Digest : Type}

/-! ## The cache without memory -/

/-- What a lookup that hits uses. -/
def Found.uses (reqId : ℕ) : Found Digest → List ℕ
  | .miss => []
  | .collision => []
  | .hit _ => [reqId]

theorem lastPut_append (calls : List (CacheCall Digest)) (call : CacheCall Digest) (reqId : ℕ) :
    lastPut (calls ++ [call]) reqId = (call.putFor reqId).or (lastPut calls reqId) := by
  rw [lastPut, List.reverse_append, List.reverse_singleton, List.singleton_append,
    List.findSome?_cons]
  cases call.putFor reqId <;> rfl

theorem lastPut_append_put_self (calls : List (CacheCall Digest)) (reqId : ℕ)
    (entry : Entry Digest) :
    lastPut (calls ++ [.put reqId entry]) reqId = some entry := by
  rw [lastPut_append, CacheCall.putFor, if_pos rfl]
  rfl

theorem lastPut_append_put_ne (calls : List (CacheCall Digest)) {id reqId : ℕ}
    (entry : Entry Digest)
    (h : reqId ≠ id) : lastPut (calls ++ [.put id entry]) reqId = lastPut calls reqId := by
  rw [lastPut_append, CacheCall.putFor, if_neg h]
  rfl

theorem lastPut_append_lookup (calls : List (CacheCall Digest)) (id : ℕ) (fp : Digest) (reqId : ℕ) :
    lastPut (calls ++ [.lookup id fp]) reqId = lastPut calls reqId := by
  rw [lastPut_append]
  rfl

/-- The loop drops the oldest ids over the bound. -/
theorem evict_eq (max : ℕ) (order : List ℕ) (items : OrderedMap ℕ (Entry Digest)) :
    (evict max order items).1 = order.drop (order.length - max) ∧
      ∀ k, (evict max order items).2.get k =
        if k ∈ order.take (order.length - max) then none else items.get k := by
  induction order generalizing items with
  | nil =>
    refine ⟨List.drop_nil.symm, ?_⟩
    intro k
    rw [List.take_nil, if_neg List.not_mem_nil]
    rfl
  | cons oldest order ih =>
    rw [evict]
    by_cases hfull : max < (oldest :: order).length
    · obtain ⟨horder, hitems⟩ := ih (items.erase oldest)
      rw [if_pos hfull]
      rw [List.length_cons] at hfull
      have hcount : (oldest :: order).length - max = order.length - max + 1 := by
        rw [List.length_cons]
        omega
      refine ⟨?_, ?_⟩
      · rw [horder, hcount, List.drop_succ_cons]
      · intro k
        rw [hitems, hcount, List.take_succ_cons]
        by_cases hk : k = oldest
        · rw [hk, OrderedMap.get_erase_self, if_pos List.mem_cons_self, ite_self]
        · rw [OrderedMap.get_erase_ne hk]
          simp only [List.mem_cons, hk, false_or]
    · rw [if_neg hfull]
      have hcount : (oldest :: order).length - max = 0 := by omega
      rw [hcount]
      refine ⟨rfl, ?_⟩
      intro k
      rw [List.take_zero, if_neg List.not_mem_nil]

/-- What a cache of this size holds after the calls. -/
structure Recent (size : ℕ) (calls : List (CacheCall Digest)) (used : List ℕ) (c : Cache Digest) :
    Prop where
  max_eq : c.max = size
  pos : 0 < c.max
  order_eq : c.order = ((recents used).take c.max).reverse
  items_eq : ∀ k, c.items.get k = if k ∈ c.order then lastPut calls k else none
  puts : ∀ k ∈ c.order, (lastPut calls k).isSome

variable {size : ℕ} {calls : List (CacheCall Digest)} {used : List ℕ} {c : Cache Digest}

theorem Recent.nodup (h : Recent size calls used c) : c.order.Nodup := by
  rw [h.order_eq, List.nodup_reverse]
  exact (nodup_recents used).sublist (List.take_sublist _ _)

theorem Recent.length_le (h : Recent size calls used c) : c.order.length ≤ c.max := by
  rw [h.order_eq, List.length_reverse, List.length_take]
  exact Nat.min_le_left _ _

theorem Recent.has_iff (h : Recent size calls used c) (k : ℕ) : c.items.has k = true ↔
    k ∈ c.order := by
  rw [OrderedMap.has, h.items_eq]
  by_cases hk : k ∈ c.order
  · rw [if_pos hk]
    exact ⟨fun _ => hk, fun _ => h.puts k hk⟩
  · rw [if_neg hk]
    exact ⟨fun hnone => (nomatch hnone), fun hin => absurd hin hk⟩

/-- The order after a use of an id. -/
theorem Recent.used_order (h : Recent size calls used c) (reqId : ℕ) :
    ((recents (reqId :: used)).take c.max).reverse =
      (c.order.erase reqId ++ [reqId]).drop ((c.order.erase reqId ++ [reqId]).length - c.max) := by
  have hnodup : ((recents used).take c.max).Nodup :=
    (nodup_recents used).sublist (List.take_sublist _ _)
  have hreverse : ((recents used).take c.max).erase reqId = (c.order.erase reqId).reverse := by
    rw [h.nodup.erase_eq_filter, hnodup.erase_eq_filter, h.order_eq, List.filter_reverse,
      List.reverse_reverse]
  rw [take_recents_cons, hreverse, List.reverse_take, List.reverse_cons, List.reverse_reverse,
    List.length_cons, List.length_reverse, List.length_append, List.length_singleton]

theorem Recent.put_eq (h : Recent size calls used c) (reqId : ℕ) (entry : Entry Digest) :
    c.put reqId entry =
      { c with
        order := (evict c.max (c.order.erase reqId ++ [reqId]) (c.items.set reqId entry)).1
        items := (evict c.max (c.order.erase reqId ++ [reqId]) (c.items.set reqId entry)).2 } := by
  rw [Cache.put]
  by_cases hin : reqId ∈ c.order
  · rw [if_pos ((h.has_iff reqId).mpr hin), Cache.touch, if_pos hin]
  · rw [if_neg (fun hhas => hin ((h.has_iff reqId).mp hhas)), List.erase_of_not_mem hin]

/-- A put makes its id the most recent. -/
theorem Recent.put (h : Recent size calls used c) (reqId : ℕ) (entry : Entry Digest) :
    Recent size (calls ++ [.put reqId entry]) (reqId :: used) (c.put reqId entry) := by
  obtain ⟨horder, hitems⟩ :=
    evict_eq c.max (c.order.erase reqId ++ [reqId]) (c.items.set reqId entry)
  have hnodup : (c.order.erase reqId ++ [reqId]).Nodup := by
    rw [List.nodup_append_comm, List.singleton_append, List.nodup_cons]
    exact ⟨h.nodup.not_mem_erase, h.nodup.erase reqId⟩
  rw [← List.take_append_drop ((c.order.erase reqId ++ [reqId]).length - c.max)
    (c.order.erase reqId ++ [reqId])] at hnodup
  have hdisjoint := List.disjoint_of_nodup_append hnodup
  -- the new id is the last one, and at least one id fits
  have hnew : reqId ∈ (c.order.erase reqId ++ [reqId]).drop
      ((c.order.erase reqId ++ [reqId]).length - c.max) := by
    have hpos := h.pos
    rw [List.drop_append_of_le_length (by simp; omega)]
    exact List.mem_append_right _ List.mem_cons_self
  have hother : ∀ k, k ≠ reqId → (k ∈ c.order ↔
      k ∈ (c.order.erase reqId ++ [reqId]).take ((c.order.erase reqId ++ [reqId]).length - c.max) ∨
      k ∈ (c.order.erase reqId ++ [reqId]).drop
        ((c.order.erase reqId ++ [reqId]).length - c.max)) := by
    intro k hk
    rw [← List.mem_append, List.take_append_drop, List.mem_append, List.mem_erase_of_ne hk,
      List.mem_singleton]
    simp only [hk, or_false]
  rw [h.put_eq]
  refine ⟨h.max_eq, h.pos, ?_, ?_, ?_⟩
  · show (evict _ _ _).1 = _
    rw [horder, h.used_order]
  · intro k
    show (evict _ _ _).2.get k = if k ∈ (evict _ _ _).1 then _ else _
    rw [hitems, horder]
    by_cases hk : k = reqId
    · rw [hk, if_neg fun htaken => hdisjoint htaken hnew, if_pos hnew, OrderedMap.get_set_self,
        lastPut_append_put_self]
    · rw [OrderedMap.get_set_ne hk, lastPut_append_put_ne calls entry hk, h.items_eq]
      by_cases hgone : k ∈ (c.order.erase reqId ++ [reqId]).take
          ((c.order.erase reqId ++ [reqId]).length - c.max)
      · rw [if_pos hgone, if_neg fun hkept => hdisjoint hgone hkept]
      · rw [if_neg hgone]
        simp only [hother k hk, hgone, false_or]
  · intro k hin
    have hin : k ∈ (evict c.max (c.order.erase reqId ++ [reqId]) (c.items.set reqId entry)).1 := hin
    rw [horder] at hin
    by_cases hk : k = reqId
    · rw [hk, lastPut_append_put_self]
      rfl
    · rw [lastPut_append_put_ne calls entry hk]
      exact h.puts k ((hother k hk).mpr (Or.inr hin))

variable [DecidableEq Digest]

/-- A lookup that hits makes its id the most recent. -/
theorem Recent.lookup (h : Recent size calls used c) (reqId : ℕ) (fp : Digest) :
    Recent size (calls ++ [.lookup reqId fp]) ((c.lookup reqId fp).1.uses reqId ++ used)
      (c.lookup reqId fp).2 := by
  have hsame : Recent size (calls ++ [.lookup reqId fp]) used c := by
    refine ⟨h.max_eq, h.pos, h.order_eq, ?_, ?_⟩
    · intro k
      rw [lastPut_append_lookup, h.items_eq]
    · intro k hk
      rw [lastPut_append_lookup]
      exact h.puts k hk
  rw [Cache.lookup]
  cases hget : c.items.get reqId with
  | none => exact hsame
  | some entry =>
    simp only
    by_cases hfp : entry.fingerprint = fp
    · rw [if_neg (not_not.mpr hfp)]
      have hin : reqId ∈ c.order := by
        rw [← h.has_iff, OrderedMap.has, hget]
        rfl
      have htouch : c.touch reqId = { c with order := c.order.erase reqId ++ [reqId] } := by
        rw [Cache.touch, if_pos hin]
      have hmem : ∀ k, k ∈ c.order.erase reqId ++ [reqId] ↔ k ∈ c.order := by
        intro k
        rw [List.mem_append, List.mem_singleton]
        by_cases hk : k = reqId
        · simp [hk, hin]
        · rw [List.mem_erase_of_ne hk]
          simp only [hk, or_false]
      have hlength : (c.order.erase reqId ++ [reqId]).length - c.max = 0 := by
        have hle := h.length_le
        have herase := List.length_erase_of_mem hin
        have hpos := List.length_pos_of_mem hin
        rw [List.length_append, List.length_singleton]
        omega
      rw [htouch]
      refine ⟨h.max_eq, h.pos, ?_, ?_, ?_⟩
      · show c.order.erase reqId ++ [reqId] = ((recents (reqId :: used)).take c.max).reverse
        rw [h.used_order, hlength, List.drop_zero]
      · intro k
        show c.items.get k = if k ∈ c.order.erase reqId ++ [reqId] then _ else _
        simp only [hmem]
        exact hsame.items_eq k
      · intro k hk
        exact hsame.puts k ((hmem k).mp hk)
    · rw [if_pos hfp]
      exact hsame

/-! ## The cache in memory -/

variable (spare : ℕ → ℕ)

/-- A cache, and the ids that were used, the latest first. -/
structure CacheRun (Digest : Type) where
  cache : CacheMemory Digest
  used : List ℕ

def CacheRun.call (r : CacheRun Digest) : CacheCall Digest → CacheRun Digest
  | .put reqId entry => ⟨r.cache.put spare reqId entry, reqId :: r.used⟩
  | .lookup reqId fp =>
    ⟨(r.cache.lookup spare reqId fp).2, (r.cache.lookup spare reqId fp).1.uses reqId ++ r.used⟩

def cacheRun (max : Int) (calls : List (CacheCall Digest)) : CacheRun Digest :=
  calls.foldl (CacheRun.call spare) ⟨newCacheMemory max, []⟩

/-- How many entries a cache made for `max` holds. -/
def cacheCapacity (max : Int) : ℕ := if max ≤ 0 then cacheSize else max.toNat

omit [DecidableEq Digest] in
theorem recent_new (max : Int) :
    Recent (cacheCapacity max) [] [] (newCache max.toNat : Cache Digest) where
  max_eq := by
    rw [← (mirrors_new max).max_eq]
    rfl
  pos := by
    rw [← (mirrors_new max).max_eq]
    show 0 < if max ≤ 0 then cacheSize else max.toNat
    split
    · decide
    · omega
  order_eq := by
    rw [recents, List.take_nil]
    rfl
  items_eq := by
    intro k
    rfl
  puts := by
    intro k hk
    cases hk

/-- After any calls the cache holds the most recent ids. -/
theorem cacheRun_recent (max : Int) (calls : List (CacheCall Digest)) :
    ∃ c : Cache Digest, Mirrors (cacheRun spare max calls).cache c ∧
      Recent (cacheCapacity max) calls (cacheRun spare max calls).used c := by
  induction calls using List.reverseRecOn with
  | nil => exact ⟨newCache max.toNat, mirrors_new max, recent_new max⟩
  | append_singleton calls call ih =>
    obtain ⟨c, hmirrors, hrecent⟩ := ih
    rw [cacheRun, List.foldl_append, List.foldl_cons, List.foldl_nil]
    cases call with
    | put reqId entry =>
      exact ⟨c.put reqId entry, hmirrors.put reqId entry, hrecent.put reqId entry⟩
    | lookup reqId fp =>
      have hfound : (CacheMemory.lookup spare (cacheRun spare max calls).cache reqId fp).1 =
          (c.lookup reqId fp).1 := (hmirrors.lookup reqId fp).1
      refine ⟨(c.lookup reqId fp).2, (hmirrors.lookup reqId fp).2, ?_⟩
      show Recent _ _ ((CacheMemory.lookup spare (cacheRun spare max calls).cache reqId fp).1.uses
        reqId ++ (cacheRun spare max calls).used) _
      rw [hfound]
      exact hrecent.lookup reqId fp

theorem ids_cacheRun (max : Int) (calls : List (CacheCall Digest)) :
    (cacheRun spare max calls).cache.ids =
      ((recents (cacheRun spare max calls).used).take (cacheCapacity max)).reverse := by
  obtain ⟨c, hmirrors, hrecent⟩ := cacheRun_recent spare max calls
  rw [hmirrors.order_eq, hrecent.order_eq, hrecent.max_eq]

/-- What was used last is the last of the order. -/
theorem getLast?_ids {max : Int} {calls : List (CacheCall Digest)} {reqId : ℕ} {used : List ℕ}
    (h : (cacheRun spare max calls).used = reqId :: used) :
    (cacheRun spare max calls).cache.ids.getLast? = some reqId := by
  obtain ⟨c, -, hrecent⟩ := cacheRun_recent spare max calls
  have hpos := hrecent.pos
  rw [hrecent.max_eq] at hpos
  rw [ids_cacheRun, h, List.getLast?_reverse, recents]
  obtain ⟨n, hn⟩ := Nat.exists_eq_succ_of_ne_zero (Nat.ne_of_gt hpos)
  rw [hn, List.take_succ_cons]
  rfl

/-- INTERNAL: **the cache is a least recently used map.** A lookup hits exactly when the id is
among the most recently used ones that fit and what was last put for it has the fingerprint, and
this is then what it finds; a `Put` and a hit make the id the last of the order; and the order has
each id that is stored once, by its last use.
SRCLINE: cache.go:66-121 -/
theorem cache_least_recent (max : Int) (calls : List (CacheCall Digest)) :
    (∀ reqId fp entry, ((cacheRun spare max calls).cache.lookup spare reqId fp).1 = .hit entry ↔
      reqId ∈ (recents (cacheRun spare max calls).used).take (cacheCapacity max) ∧
        lastPut calls reqId = some entry ∧ entry.fingerprint = fp) ∧
    (∀ reqId entry, ((cacheRun spare max calls).cache.put spare reqId entry).ids.getLast? =
      some reqId) ∧
    (∀ reqId fp entry, ((cacheRun spare max calls).cache.lookup spare reqId fp).1 = .hit entry →
      ((cacheRun spare max calls).cache.lookup spare reqId fp).2.ids.getLast? = some reqId) ∧
    (cacheRun spare max calls).cache.ids.Nodup ∧
    (∀ k, k ∈ (cacheRun spare max calls).cache.ids ↔
      ((cacheRun spare max calls).cache.items.get k).isSome) ∧
    (cacheRun spare max calls).cache.ids =
      ((recents (cacheRun spare max calls).used).take (cacheCapacity max)).reverse := by
  have happend : ∀ call, cacheRun spare max (calls ++ [call]) =
      (cacheRun spare max calls).call spare call := by
    intro call
    rw [cacheRun, List.foldl_append, List.foldl_cons, List.foldl_nil]
    rfl
  have hids := ids_cacheRun spare max calls
  obtain ⟨c, hmirrors, hrecent⟩ := cacheRun_recent spare max calls
  refine ⟨?_, ?_, ?_, ?_, ?_, hids⟩
  · intro reqId fp entry
    have hin : reqId ∈ c.order ↔
        reqId ∈ (recents (cacheRun spare max calls).used).take (cacheCapacity max) := by
      rw [← hmirrors.order_eq, hids, List.mem_reverse]
    rw [(hmirrors.lookup reqId fp).1, ← hin]
    constructor
    · intro hhit
      obtain ⟨hget, hfp⟩ := lookup_hit hhit
      rw [hrecent.items_eq] at hget
      by_cases hstored : reqId ∈ c.order
      · rw [if_pos hstored] at hget
        exact ⟨hstored, hget, hfp⟩
      · rw [if_neg hstored] at hget
        cases hget
    · rintro ⟨hstored, hput, hfp⟩
      rw [Cache.lookup, hrecent.items_eq, if_pos hstored, hput]
      simp only [hfp, ne_eq, not_true_eq_false, if_false]
  · intro reqId entry
    have hlast := getLast?_ids spare (congrArg CacheRun.used (happend (.put reqId entry)))
    rwa [happend] at hlast
  · intro reqId fp entry hhit
    have hused : (cacheRun spare max (calls ++ [.lookup reqId fp])).used =
        reqId :: (cacheRun spare max calls).used := by
      rw [happend]
      show ((cacheRun spare max calls).cache.lookup spare reqId fp).1.uses reqId ++ _ = _
      rw [hhit]
      rfl
    have hlast := getLast?_ids spare hused
    rwa [happend] at hlast
  · rw [hmirrors.order_eq]
    exact hrecent.nodup
  · intro k
    rw [hmirrors.order_eq, hmirrors.items_eq]
    exact (hrecent.has_iff k).symm

end

end ServerlessHarness.RemoteWorker
