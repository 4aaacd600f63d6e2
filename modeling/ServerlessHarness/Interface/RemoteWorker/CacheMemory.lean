import ServerlessHarness.Model.RemoteWorker.CacheMemory

/-!
# The cache in memory is the cache

The slice tricks of the order do what they are meant to: whatever arrays are shared on the way, the
slice always reads as the list of the cache without memory (`Mirrors`).
-/

set_option autoImplicit false

namespace ServerlessHarness.RemoteWorker

open Library

section

variable {Digest : Type} {spare : ℕ → ℕ}

structure Mirrors (m : CacheMemory Digest) (c : Cache Digest) : Prop where
  max_eq : m.max = c.max
  items_eq : m.items = c.items
  valid : m.order.Valid m.heap
  order_eq : m.ids = c.order

variable {m : CacheMemory Digest} {c : Cache Digest}

theorem mirrors_new (max : Int) :
    Mirrors (newCacheMemory max : CacheMemory Digest) (newCache max.toNat) where
  max_eq := by
    show (if max ≤ 0 then cacheSize else max.toNat) = if max.toNat = 0 then cacheSize else max.toNat
    by_cases hmax : max ≤ 0
    · rw [if_pos hmax, if_pos (by omega)]
    · rw [if_neg hmax, if_neg (by omega)]
  items_eq := rfl
  valid := ⟨⟨[], rfl, Nat.le_refl 0⟩, Nat.le_refl 0⟩
  order_eq := rfl

theorem take_append_drop_idxOf {l : List ℕ} {a : ℕ} (h : a ∈ l) :
    l.take (l.idxOf a) ++ l.drop (l.idxOf a + 1) = l.erase a := by
  induction l with
  | nil => cases h
  | cons b l ih =>
    by_cases hb : b = a
    · subst hb
      rw [List.idxOf_cons_self, List.erase_cons_head]
      rfl
    · have hmem : a ∈ l := by
        rcases List.mem_cons.mp h with rfl | hmem
        · exact absurd rfl hb
        · exact hmem
      rw [List.idxOf_cons_ne _ hb, List.erase_cons_tail (by simpa using hb), ← ih hmem]
      rfl

theorem Mirrors.append (h : Mirrors m c) (reqId : ℕ) :
    Mirrors { m with
        heap := (Slice.append spare 0 m.heap m.order [reqId]).1
        order := (Slice.append spare 0 m.heap m.order [reqId]).2 }
      { c with order := c.order ++ [reqId] } := by
  obtain ⟨hvalid, hread⟩ := Slice.append_spec spare 0 h.valid [reqId]
  refine ⟨h.max_eq, h.items_eq, hvalid, ?_⟩
  show Slice.read _ _ = c.order ++ [reqId]
  rw [hread, ← h.order_eq]
  rfl

/-- The part before the id ends at its capacity, so that the first append copies unless it appends
nothing, and the second one copies then. -/
theorem Mirrors.touch (h : Mirrors m c) (reqId : ℕ) :
    Mirrors (m.touch spare reqId) (c.touch reqId) := by
  rw [CacheMemory.touch, Cache.touch, h.order_eq]
  by_cases hmem : reqId ∈ c.order
  · rw [if_pos hmem, if_pos hmem]
    have hlength : c.order.length = m.order.length := by
      rw [← h.order_eq]
      exact Slice.length_read h.valid
    have hindex : c.order.idxOf reqId ≤ m.order.length := by
      rw [← hlength]
      exact List.idxOf_le_length
    obtain ⟨hvalid, hread⟩ := Slice.append_spec spare 0 (Slice.valid_upTo h.valid hindex)
      ((m.order.after (c.order.idxOf reqId + 1)).read m.heap)
    obtain ⟨hvalid', hread'⟩ := Slice.append_spec spare 0 hvalid [reqId]
    refine ⟨h.max_eq, h.items_eq, hvalid', ?_⟩
    show Slice.read _ _ = c.order.erase reqId ++ [reqId]
    have hids : m.order.read m.heap = c.order := h.order_eq
    rw [hread', hread, Slice.read_upTo hindex, Slice.read_after, hids, take_append_drop_idxOf hmem]
  · rw [if_neg hmem, if_neg hmem]
    exact h

/-- The loop over the slice is the loop over its list. -/
theorem evictSlice_mirrors (max : ℕ) {n : ℕ} {heap : List (List ℕ)} {order : Slice} {ids : List ℕ}
    (items : OrderedMap ℕ (Entry Digest)) (hvalid : order.Valid heap) (hids : order.read heap = ids)
    (hn : order.length ≤ n) :
    (evictSlice max heap n order items).1.Valid heap ∧
      (evictSlice max heap n order items).1.read heap = (evict max ids items).1 ∧
      (evictSlice max heap n order items).2 = (evict max ids items).2 := by
  induction n generalizing order ids items with
  | zero =>
    have hlength := Slice.length_read hvalid
    have hempty : ids = [] := by
      rw [← hids]
      apply List.eq_nil_of_length_eq_zero
      omega
    subst hempty
    exact ⟨hvalid, hids, rfl⟩
  | succ n ih =>
    have hlength : ids.length = order.length := by
      rw [← hids]
      exact Slice.length_read hvalid
    rw [evictSlice]
    cases ids with
    | nil =>
      rw [if_neg (by simp at hlength; omega)]
      exact ⟨hvalid, hids, rfl⟩
    | cons oldest ids =>
      rw [List.length_cons] at hlength
      rw [evict, List.length_cons, hlength]
      by_cases hfull : max < order.length
      · rw [if_pos hfull, if_pos hfull, hids]
        apply ih
        · exact Slice.valid_after hvalid (by omega)
        · rw [Slice.read_after, hids]
          rfl
        · show order.length - 1 ≤ n
          omega
      · rw [if_neg hfull, if_neg hfull]
        exact ⟨hvalid, hids, rfl⟩

/-- The end of `Put`: the entry is stored, and the oldest ones go. -/
theorem Mirrors.store (h : Mirrors m c) (reqId : ℕ) (entry : Entry Digest) :
    Mirrors { m with
        order := (evictSlice m.max m.heap m.order.length m.order (m.items.set reqId entry)).1
        items := (evictSlice m.max m.heap m.order.length m.order (m.items.set reqId entry)).2 }
      { c with
        order := (evict c.max c.order (c.items.set reqId entry)).1
        items := (evict c.max c.order (c.items.set reqId entry)).2 } := by
  obtain ⟨hvalid, hread, hitems⟩ :=
    evictSlice_mirrors m.max (m.items.set reqId entry) h.valid h.order_eq
    (Nat.le_refl _)
  rw [h.max_eq, h.items_eq] at hread hitems
  refine ⟨h.max_eq, ?_, hvalid, ?_⟩
  · show (evictSlice m.max _ _ _ (m.items.set reqId entry)).2 = _
    rw [h.max_eq, h.items_eq]
    exact hitems
  · show (evictSlice m.max _ _ _ (m.items.set reqId entry)).1.read m.heap = _
    rw [h.max_eq, h.items_eq]
    exact hread

theorem Mirrors.put (h : Mirrors m c) (reqId : ℕ) (entry : Entry Digest) :
    Mirrors (m.put spare reqId entry) (c.put reqId entry) := by
  have hhas : m.items.has reqId = c.items.has reqId := by rw [h.items_eq]
  rw [CacheMemory.put, Cache.put, hhas]
  by_cases hstored : c.items.has reqId = true
  · rw [if_pos hstored, if_pos hstored]
    exact (h.touch reqId).store reqId entry
  · rw [if_neg hstored, if_neg hstored]
    exact (h.append reqId).store reqId entry

/-- A lookup finds the same in both. -/
theorem Mirrors.lookup [DecidableEq Digest] (h : Mirrors m c) (reqId : ℕ) (fp : Digest) :
    (m.lookup spare reqId fp).1 = (c.lookup reqId fp).1 ∧
      Mirrors (m.lookup spare reqId fp).2 (c.lookup reqId fp).2 := by
  rw [CacheMemory.lookup, Cache.lookup, h.items_eq]
  cases c.items.get reqId with
  | none => exact ⟨rfl, h⟩
  | some entry =>
    simp only
    by_cases hfp : entry.fingerprint = fp
    · rw [if_neg (not_not.mpr hfp), if_neg (not_not.mpr hfp)]
      exact ⟨rfl, h.touch reqId⟩
    · rw [if_pos hfp, if_pos hfp]
      exact ⟨rfl, h⟩

end

end ServerlessHarness.RemoteWorker
