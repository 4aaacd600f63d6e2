import Mathlib.Data.List.Dedup
import Mathlib.Data.List.Induction
import Mathlib.Data.List.Perm.Subperm
import ServerlessHarness.Interface.Supervisor.Handoff
import ServerlessHarness.Library.Recency

/-!
# Sessions keep their worker

`stickyBySession` over a sequence of picks. A pick uses its session if it finds a healthy worker:
it then pins the session to that worker, as the newest pin, and the oldest pins over the cap go. So
the pins are those of the sessions used last (`keys_pinsAfter`), and a session that is not picked
keeps the value of its pin or loses the pin (`get_pick_ne`).
-/

set_option autoImplicit false

namespace ServerlessHarness.Supervisor

open Library

/-- The arguments of one call of `pick`. -/
structure PickCall where
  workers : List WorkerView
  sessionId : Option String
deriving DecidableEq, Repr

/-- The call and the pins after it.
SRCLINE: routing.ts:91-104 -/
def PickCall.sticky (maxPins : ℕ) (pins : Pins) (call : PickCall) : Option ℕ × Pins :=
  (RoutingPolicy.stickyBySession maxPins).pick pins call.workers call.sessionId

/-- The table of a policy after a sequence of calls. -/
def pinsAfter (maxPins : ℕ) (calls : List PickCall) : Pins :=
  calls.foldl (fun pins call => (call.sticky maxPins pins).2) .empty

/-- What a call returns after the calls `before` it. -/
def picked (maxPins : ℕ) (before : List PickCall) (call : PickCall) : Option ℕ :=
  (call.sticky maxPins (pinsAfter maxPins before)).1

/-- The session that the call uses, if it can be routed to a worker. -/
def PickCall.uses (call : PickCall) : Option String :=
  if call.workers.any WorkerView.healthy then call.sessionId else none

/-- The sessions in the order of their uses, the latest first. -/
def usesOf (calls : List PickCall) : List String := (calls.filterMap PickCall.uses).reverse

variable {maxPins : ℕ} {pins : Pins} {call : PickCall} {workers : List WorkerView} {sid s : String}
  {id k : ℕ}

/-! ## One pick -/

theorem pickLeastLoaded_eq_none (h : pickLeastLoaded workers = none) :
    workers.any WorkerView.healthy = false := by
  have hsome : ∀ (l : List WorkerView) (b : WorkerView), l.foldl betterOf (some b) ≠ none := by
    intro l
    induction l with
    | nil => exact fun _ => nofun
    | cons u l ih =>
      intro b
      rw [List.foldl_cons, betterOf]
      split
      · exact ih b
      · split
        · exact ih u
        · exact ih b
  rw [pickLeastLoaded, Option.map_eq_none_iff] at h
  induction workers with
  | nil => rfl
  | cons u l ih =>
    rw [List.foldl_cons, betterOf] at h
    cases hu : u.healthy with
    | false =>
      rw [List.any_cons, hu, Bool.false_or]
      simp only [hu, Bool.not_false, if_true] at h
      exact ih h
    | true =>
      simp only [hu, Bool.not_true] at h
      exact absurd h (hsome l u)

/-- A pick for a session finds a healthy worker and pins the session to it, or there is none and the
pins stay. -/
theorem sticky_cases (maxPins : ℕ) (pins : Pins) (workers : List WorkerView) (sid : String) :
    (∃ v ∈ workers, v.healthy = true ∧
      PickCall.sticky maxPins pins ⟨workers, some sid⟩ =
        (some v.id, remember maxPins pins sid v.id)) ∨
    workers.any WorkerView.healthy = false ∧
      PickCall.sticky maxPins pins ⟨workers, some sid⟩ = (none, pins) := by
  simp only [PickCall.sticky, RoutingPolicy.pick]
  split
  · next pinned hpinned =>
    have hhealthy := (Option.filter_eq_some_iff.mp hpinned).2
    obtain ⟨v, hv, hpred⟩ := List.any_eq_true.mp hhealthy
    simp only [Bool.and_eq_true, decide_eq_true_eq] at hpred
    obtain ⟨rfl, hh⟩ := hpred
    exact .inl ⟨v, hv, hh, rfl⟩
  · cases hpick : pickLeastLoaded workers with
    | none => exact .inr ⟨pickLeastLoaded_eq_none hpick, rfl⟩
    | some chosen =>
      obtain ⟨v, hv, rfl, hh, _⟩ := pickLeastLoaded_spec hpick
      exact .inl ⟨v, hv, hh, rfl⟩

theorem sticky_of_pinned (hget : pins.get sid = some k)
    (hhealthy : ∃ v ∈ workers, v.id = k ∧ v.healthy = true) :
    (PickCall.sticky maxPins pins ⟨workers, some sid⟩).1 = some k := by
  obtain ⟨v, hv, hid, hh⟩ := hhealthy
  have hany : (workers.any fun wv => wv.id = k && wv.healthy) = true := by
    rw [List.any_eq_true]
    exact ⟨v, hv, by simp [hid, hh]⟩
  have hfilter : ((pins.get sid).filter fun id => workers.any fun wv => wv.id = id && wv.healthy) =
      some k := by
    rw [hget, Option.filter_eq_some_iff]
    exact ⟨rfl, hany⟩
  simp only [PickCall.sticky, RoutingPolicy.pick, hfilter]

/-! ## The pins -/

theorem entries_remember (maxPins : ℕ) (pins : Pins) (sid : String) (id : ℕ) :
    (remember maxPins pins sid id).entries =
      ((pins.entries.filter fun e => e.1 ≠ sid) ++ [(sid, id)]).drop
        (((pins.erase sid).set sid id).keys.length - maxPins) := by
  rw [remember, evict, OrderedMap.entries_foldl_erase, OrderedMap.entries_set_erase]

/-- INTERNAL: **a pinned session becomes the newest one**, and the cap cuts off the oldest. -/
theorem keys_remember (maxPins : ℕ) (pins : Pins) (sid : String) (id : ℕ) :
    (remember maxPins pins sid id).keys.reverse =
      (sid :: pins.keys.reverse.erase sid).take maxPins := by
  have hnodup : pins.keys.reverse.Nodup := List.nodup_reverse.mpr pins.nodup
  have hkeys : ((pins.erase sid).set sid id).keys = (pins.keys.filter fun k => k ≠ sid) ++
      [sid] := by
    rw [OrderedMap.keys, OrderedMap.entries_set_erase, OrderedMap.keys, List.map_append,
      List.filter_map]
    rfl
  have hafter : (remember maxPins pins sid id).keys =
      ((pins.erase sid).set sid id).keys.drop
        (((pins.erase sid).set sid id).keys.length - maxPins) := by
    rw [remember, evict, OrderedMap.keys, OrderedMap.entries_foldl_erase, OrderedMap.keys,
      List.map_drop]
  rw [hafter, ← List.take_reverse, hkeys, List.reverse_append, List.reverse_singleton,
    List.singleton_append, hnodup.erase_eq_filter, ← List.filter_reverse]
  congr 3
  funext k
  by_cases hk : k = sid
  · simp [hk]
  · simp [hk]

theorem get_remember (h : (remember maxPins pins sid id).get s = some k) :
    s = sid ∧ k = id ∨ s ≠ sid ∧ pins.get s = some k := by
  rw [OrderedMap.get_eq_some, entries_remember] at h
  rcases List.mem_append.mp (List.mem_of_mem_drop h) with hold | hnew
  · obtain ⟨hmem, hne⟩ := List.mem_filter.mp hold
    exact .inr ⟨of_decide_eq_true hne, OrderedMap.get_eq_some.mpr hmem⟩
  · cases List.mem_singleton.mp hnew
    exact .inl ⟨rfl, rfl⟩

/-- A call for another session leaves the pin as it is, or evicts it. -/
theorem get_pick_ne (hne : call.sessionId ≠ some s)
    (h : (call.sticky maxPins pins).2.get s = some k) : pins.get s = some k := by
  obtain ⟨workers, sessionId⟩ := call
  cases sessionId with
  | none => exact h
  | some sid =>
    rcases sticky_cases maxPins pins workers sid with ⟨v, _, _, hcall⟩ | ⟨_, hcall⟩
    · rw [hcall] at h
      rcases get_remember h with ⟨rfl, _⟩ | ⟨_, hget⟩
      · exact absurd rfl hne
      · exact hget
    · rw [hcall] at h
      exact h

/-! ## Sequences of picks -/

theorem pinsAfter_concat (calls : List PickCall) (call : PickCall) :
    pinsAfter maxPins (calls ++ [call]) = (call.sticky maxPins (pinsAfter maxPins calls)).2 := by
  rw [pinsAfter, List.foldl_append]
  rfl

theorem usesOf_append (calls more : List PickCall) : usesOf (calls ++ more) = usesOf more ++
    usesOf calls := by
  rw [usesOf, List.filterMap_append, List.reverse_append]
  rfl

/-- INTERNAL: **the pins are those of the sessions used last**, oldest first. -/
theorem keys_pinsAfter (maxPins : ℕ) (calls : List PickCall) :
    (pinsAfter maxPins calls).keys.reverse = (recents (usesOf calls)).take maxPins := by
  induction calls using List.reverseRecOn with
  | nil => exact List.take_nil.symm
  | append_singleton calls call ih =>
    obtain ⟨workers, sessionId⟩ := call
    rw [pinsAfter_concat, usesOf_append]
    have hunused : PickCall.uses ⟨workers, sessionId⟩ = none →
        usesOf [⟨workers, sessionId⟩] ++ usesOf calls = usesOf calls := by
      intro h
      simp [usesOf, h]
    cases sessionId with
    | none =>
      rw [hunused (by simp [PickCall.uses])]
      exact ih
    | some sid =>
      rcases sticky_cases maxPins
        (pinsAfter maxPins calls) workers sid with ⟨v, hv, hh, hcall⟩ | ⟨hno, hcall⟩
      · have hany : workers.any WorkerView.healthy = true := List.any_eq_true.mpr ⟨v, hv, hh⟩
        have huse : usesOf [⟨workers, some sid⟩] = [sid] := by simp [usesOf, PickCall.uses, hany]
        rw [hcall, keys_remember, ih, huse, List.singleton_append, take_recents_cons]
      · rw [hcall, hunused (by simp [PickCall.uses, hno])]
        exact ih

/-- Calls for other sessions do not pin `s` to another worker. -/
theorem get_pinsAfter_append {before between : List PickCall}
    (hbetween : ∀ call ∈ between, call.sessionId ≠ some s)
    (h : (pinsAfter maxPins (before ++ between)).get s = some k) :
    (pinsAfter maxPins before).get s = some k := by
  induction between using List.reverseRecOn with
  | nil => rwa [List.append_nil] at h
  | append_singleton between call ih =>
    rw [← List.append_assoc, pinsAfter_concat] at h
    refine ih (fun c hc => hbetween c (List.mem_append_left _ hc)) ?_
    exact get_pick_ne (hbetween call (by simp)) h

theorem mem_usesOf {calls : List PickCall} (h : s ∈ usesOf calls) : ∃ call ∈ calls,
    call.sessionId = some s := by
  obtain ⟨call, hcall, huse⟩ := List.mem_filterMap.mp (List.mem_reverse.mp h)
  unfold PickCall.uses at huse
  split at huse
  · exact ⟨call, hcall, huse⟩
  · cases huse

/-- A session whose last pick was answered keeps its pin while fewer than `maxPins` others are
picked. -/
theorem get_pinsAfter_of_few {before between : List PickCall}
    (hlast : picked maxPins before ⟨workers, some s⟩ = some k)
    (hbetween : ∀ call ∈ between, call.sessionId ≠ some s)
    (hfew : (between.filterMap PickCall.sessionId).dedup.length < maxPins) :
    (pinsAfter maxPins (before ++ ⟨workers, some s⟩ :: between)).get s = some k := by
  rcases sticky_cases maxPins (pinsAfter maxPins before) workers s with ⟨v, hv, hh, hcall⟩ | ⟨_,
    hcall⟩
  · have hk : v.id = k := by
      rw [picked, hcall] at hlast
      exact Option.some.inj hlast
    have hany : workers.any WorkerView.healthy = true := List.any_eq_true.mpr ⟨v, hv, hh⟩
    have huses : usesOf (before ++ ⟨workers, some s⟩ :: between) = usesOf between ++
        s :: usesOf before := by
      rw [List.append_cons, usesOf_append, usesOf_append]
      simp [usesOf, PickCall.uses, hany]
    have hunused : s ∉ usesOf between := by
      intro hmem
      obtain ⟨call, hin, heq⟩ := mem_usesOf hmem
      exact hbetween call hin heq
    have hsub : recents (usesOf between) ⊆ (between.filterMap PickCall.sessionId).dedup := by
      intro other hother
      rw [mem_recents] at hother
      obtain ⟨call, hin, heq⟩ := mem_usesOf hother
      exact List.mem_dedup.mpr (List.mem_filterMap.mpr ⟨call, hin, heq⟩)
    have hle := (List.Nodup.subperm (nodup_recents _) hsub).length_le
    have hmem : s ∈ (pinsAfter maxPins (before ++ ⟨workers, some s⟩ :: between)).keys := by
      rw [← List.mem_reverse, keys_pinsAfter, huses]
      exact mem_take_recents hunused (by omega) _
    cases hget : (pinsAfter maxPins (before ++ ⟨workers, some s⟩ :: between)).get s with
    | none => exact absurd hmem (OrderedMap.get_eq_none.mp hget)
    | some k' =>
      rw [List.append_cons] at hget
      have hpinned := get_pinsAfter_append hbetween hget
      rw [pinsAfter_concat, hcall] at hpinned
      rcases get_remember hpinned with ⟨_, heq⟩ | ⟨hne, _⟩
      · rw [heq, hk]
      · exact absurd rfl hne
  · rw [picked, hcall] at hlast
    cases hlast

/-- INTERNAL: **the affinity table.** After any calls it holds at most `maxPins` pins, those of the
sessions used last; a call returns a healthy worker if there is one; and a session gets the worker
of its previous pick while that one is healthy and fewer than `maxPins` other sessions were picked
since.
SRCLINE: routing.ts:29-106 -/
theorem sticky_pins (maxPins : ℕ) (calls : List PickCall) :
    (pinsAfter maxPins calls).keys.length ≤ maxPins ∧
      (pinsAfter maxPins calls).keys.reverse = (recents (usesOf calls)).take maxPins ∧
      (∀ call : PickCall, (∃ v ∈ call.workers, v.healthy = true) →
        ∃ v ∈ call.workers, v.healthy = true ∧ picked maxPins calls call = some v.id) ∧
      ∀ (between : List PickCall) (workers workers' : List WorkerView) (s : String) (k : ℕ),
        picked maxPins calls ⟨workers, some s⟩ = some k →
        (∀ call ∈ between, call.sessionId ≠ some s) →
        (between.filterMap PickCall.sessionId).dedup.length < maxPins →
        (∃ v ∈ workers', v.id = k ∧ v.healthy = true) →
        picked maxPins (calls ++ ⟨workers, some s⟩ :: between) ⟨workers', some s⟩ = some k := by
  have hkeys := keys_pinsAfter maxPins calls
  refine ⟨?_, hkeys, ?_, ?_⟩
  · rw [← List.length_reverse, hkeys, List.length_take]
    exact Nat.min_le_left _ _
  · rintro ⟨workers, sessionId⟩ ⟨u, hu, huh⟩
    have hany : workers.any WorkerView.healthy = true := List.any_eq_true.mpr ⟨u, hu, huh⟩
    cases sessionId with
    | none =>
      cases hpick : pickLeastLoaded workers with
      | none =>
        rw [pickLeastLoaded_eq_none hpick] at hany
        cases hany
      | some chosen =>
        obtain ⟨v, hv, rfl, hh, _⟩ := pickLeastLoaded_spec hpick
        exact ⟨v, hv, hh, hpick⟩
    | some sid =>
      rcases sticky_cases maxPins
        (pinsAfter maxPins calls) workers sid with ⟨v, hv, hh, hcall⟩ | ⟨hno, _⟩
      · refine ⟨v, hv, hh, ?_⟩
        rw [picked, hcall]
      · rw [hno] at hany
        cases hany
  · intro between workers workers' s k hlast hbetween hfew hhealthy
    exact sticky_of_pinned (get_pinsAfter_of_few hlast hbetween hfew) hhealthy

end ServerlessHarness.Supervisor
