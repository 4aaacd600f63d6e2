import ServerlessHarness.Model.Sandbox.Lease

/-!
# How many leases a pod has

`ACQUIRE_LUA` adds a holder only below the cap, and nothing else is meant to add one: a heartbeat
refreshes a lease that is held. But a heartbeat is a plain `ZADD`, which adds a holder that was
swept or released in the meantime. The cap holds as long as each heartbeat finds its holder in the
set.
-/

set_option autoImplicit false

namespace ServerlessHarness.Sandbox

open Library

/-! ## What a step does to the lease set -/

/-- What an action does to the set of the state `s`. -/
inductive LeaseEffect (cap : ℕ) (s : LeaseSys) : LeaseAction → LeaseSet → Prop where
  | quiet (a : LeaseAction) : LeaseEffect cap s a s.set
  | swept (a : LeaseAction) (now : ℕ) : LeaseEffect cap s a (s.set.zremUpTo now)
  | taken {i : ℕ} {h : Holder} (hi : s.holders[i]? = some h) (now ttlMs : ℕ) (replied : Bool)
      (room : (s.set.zremUpTo now).zcard < cap) :
      LeaseEffect cap s (.acquire i now ttlMs replied)
        ((s.set.zremUpTo now).zadd h.id (now + ttlMs))
  | renewed {i : ℕ} {h : Holder} (hi : s.holders[i]? = some h) (now ttlMs : ℕ) :
      LeaseEffect cap s (.renew i now ttlMs) (s.set.zadd h.id (now + ttlMs))
  | dropped (a : LeaseAction) (id : String) : LeaseEffect cap s a (s.set.zrem id)

theorem LeaseSys.turn_eq_some {s t : LeaseSys} {i : ℕ} {f : Holder → Option (LeaseSet × Holder)}
    (h : s.turn i f = some t) :
    ∃ w r, s.holders[i]? = some w ∧ f w = some r ∧ t = ⟨r.1, s.holders.set i r.2⟩ := by
  obtain ⟨w, hw, hf⟩ := Option.bind_eq_some_iff.mp h
  obtain ⟨r, hr, rfl⟩ := Option.map_eq_some_iff.mp hf
  exact ⟨w, r, hw, hr, rfl⟩

/-- What a step does to the lease set. -/
theorem leaseStep_effect {cap : ℕ} {s t : LeaseSys} {a : LeaseAction}
    (h : leaseStep cap s a = some t) : LeaseEffect cap s a t.set := by
  cases a with
  | join id =>
    simp only [leaseStep] at h
    split at h
    · cases h
    · obtain rfl := Option.some.inj h
      exact .quiet _
  | load now =>
    obtain rfl := Option.some.inj h
    exact .swept _ now
  | acquire i now ttlMs replied =>
    obtain ⟨w, r, hi, hr, rfl⟩ := LeaseSys.turn_eq_some h
    split at hr
    · cases hr
    · obtain rfl := Option.some.inj hr
      by_cases room : (s.set.zremUpTo now).zcard < cap
      · have hset : (acquire s.set now cap w.id ttlMs).2 =
            (s.set.zremUpTo now).zadd w.id (now + ttlMs) := by
          simp [acquire, acquireLua, room]
        show LeaseEffect cap s _ (acquire s.set now cap w.id ttlMs).2
        rw [hset]
        exact .taken hi now ttlMs replied room
      · have hset : (acquire s.set now cap w.id ttlMs).2 = s.set.zremUpTo now := by
          simp [acquire, acquireLua, room]
        show LeaseEffect cap s _ (acquire s.set now cap w.id ttlMs).2
        rw [hset]
        exact .swept _ now
  | beat | finish =>
    obtain ⟨w, r, hi, hr, rfl⟩ := LeaseSys.turn_eq_some h
    split at hr
    · obtain rfl := Option.some.inj hr
      exact .quiet _
    · cases hr
  | crash i =>
    obtain ⟨w, r, hi, hr, rfl⟩ := LeaseSys.turn_eq_some h
    obtain rfl := Option.some.inj hr
    exact .quiet _
  | renew i now ttlMs =>
    obtain ⟨w, r, hi, hr, rfl⟩ := LeaseSys.turn_eq_some h
    split at hr
    · obtain rfl := Option.some.inj hr
      exact .renewed hi now ttlMs
    · cases hr
  | drop i =>
    obtain ⟨w, r, hi, hr, rfl⟩ := LeaseSys.turn_eq_some h
    split at hr
    · obtain rfl := Option.some.inj hr
      exact .dropped _ w.id
    · cases hr

/-! ## The condition and what follows from it -/

/-- A heartbeat that is executed finds its holder in the set. -/
def renewsMember (s : LeaseSys) : LeaseAction → Bool
  | .renew i _ _ => (s.holders[i]?).all fun h => decide (h.id ∈ s.set.members)
  | _ => true

/-- The action is a successful `acquire` by the holder `id`. -/
def LeaseAction.takes (cap : ℕ) (s : LeaseSys) (id : String) : LeaseAction → Bool
  | .acquire i now ttlMs _ =>
    (s.holders[i]?).any fun h => decide (h.id = id) && (Sandbox.acquire s.set now cap h.id ttlMs).1
  | _ => false

variable {cap : ℕ} {s t : LeaseSys} {a : LeaseAction} {set : LeaseSet}

theorem renewsMember_renew {i : ℕ} {h : Holder} {now ttlMs : ℕ} (hi : s.holders[i]? = some h) :
    renewsMember s (.renew i now ttlMs) = true ↔ h.id ∈ s.set.members := by
  simp [renewsMember, hi]

theorem activeCount_le_zcard (set : LeaseSet) (now : ℕ) :
    activeCount set.entries now ≤ set.zcard :=
  List.length_filter_le _ _

theorem LeaseEffect.zcard_le (h : LeaseEffect cap s a set) (renews : renewsMember s a = true)
    (hle : s.set.zcard ≤ cap) : set.zcard ≤ cap := by
  cases h with
  | quiet => exact hle
  | swept | dropped => exact Nat.le_trans (ScoredSet.zcard_select_le _) hle
  | taken hi now ttlMs replied room => exact Nat.le_trans (ScoredSet.zcard_zadd_le _) room
  | renewed hi now ttlMs =>
    rw [ScoredSet.zcard_zadd_of_mem _ ((renewsMember_renew hi).mp renews)]
    exact hle

theorem LeaseEffect.joined (h : LeaseEffect cap s a set) {id : String} (hid : id ∉ s.set.members)
    (hid' : id ∈ set.members) : a.takes cap s id = true ∨ renewsMember s a = false := by
  cases h with
  | quiet => exact absurd hid' hid
  | swept | dropped => exact absurd (ScoredSet.mem_select hid') hid
  | taken hi now ttlMs replied room =>
    rcases ScoredSet.mem_zadd.mp hid' with rfl | hmem
    · left
      simp [LeaseAction.takes, hi, acquire, acquireLua, room]
    · exact absurd (ScoredSet.mem_select hmem) hid
  | renewed hi now ttlMs =>
    rcases ScoredSet.mem_zadd.mp hid' with rfl | hmem
    · right
      rw [Bool.eq_false_iff]
      intro hr
      exact hid ((renewsMember_renew hi).mp hr)
    · exact absurd hmem hid

theorem revived_of_step (hstep : leaseStep cap s a = some t) (hr : renewsMember s a = false) :
    ∃ id, id ∉ s.set.members ∧ id ∈ t.set.members ∧ a.takes cap s id = false := by
  cases a with
  | renew i now ttlMs =>
    obtain ⟨w, r, hi, hf, rfl⟩ := LeaseSys.turn_eq_some hstep
    have hid : w.id ∉ s.set.members := by
      intro hmem
      rw [(renewsMember_renew hi).mpr hmem] at hr
      cases hr
    split at hf
    · obtain rfl := Option.some.inj hf
      exact ⟨w.id, hid, ScoredSet.mem_zadd.mpr (Or.inl rfl), rfl⟩
    · cases hf
  | _ => cases hr

/-- The lease set stays within the cap. -/
theorem zcard_le_of_reachable (h : Reachable (leaseSystem cap renewsMember) s) :
    s.set.zcard ≤ cap := by
  induction h with
  | init hinit =>
    subst hinit
    exact Nat.zero_le _
  | step _ hn ih =>
    obtain ⟨a, ha⟩ := hn
    obtain ⟨renews, hstep⟩ := guarded_eq_some.mp ha
    exact (leaseStep_effect hstep).zcard_le renews ih

/-- INTERNAL: **a pod never has more leases than the cap while heartbeats find their holders**. In
every state of a run in which each heartbeat that is executed finds its holder in the set, at most
`cap` members have not expired, whatever the clock says; and in the next step nobody comes into the
set except by a successful `acquire`, exactly when that step is no heartbeat of a holder that
left. -/
theorem leases_le_cap (h : Reachable (leaseSystem cap renewsMember) s) :
    (∀ now, activeCount s.set.entries now ≤ cap) ∧
    ∀ a t, leaseStep cap s a = some t →
      ((∀ id, id ∉ s.set.members → id ∈ t.set.members → a.takes cap s id = true) ↔
        renewsMember s a = true) := by
  refine ⟨fun now => Nat.le_trans (activeCount_le_zcard _ now) (zcard_le_of_reachable h), ?_⟩
  intro a t hstep
  constructor
  · intro hjoin
    by_contra hr
    obtain ⟨id, hid, hid', htakes⟩ := revived_of_step hstep (Bool.eq_false_iff.mpr hr)
    rw [hjoin id hid hid'] at htakes
    cases htakes
  · intro renews id hid hid'
    rcases (leaseStep_effect hstep).joined hid hid' with htakes | hr
    · exact htakes
    · rw [renews] at hr
      cases hr

theorem exists_lease_state (cap : ℕ) (G : LeaseSys → LeaseAction → Bool) (as : List LeaseAction)
    (P : LeaseSys → Bool)
    (h : (runActions (guarded G (leaseStep cap)) LeaseSys.empty as).map P = some true) :
    ∃ s, Reachable (leaseSystem cap G) s ∧ P s = true := by
  refine exists_reachable_of_runActions ?_ as P h
  rfl

/-- Two holders on a pod with one slot: the first takes it for a minute and renews it in time. -/
def renewedInTime : List LeaseAction :=
  [.join "a", .join "b", .acquire 0 0 60000 true, .beat 0, .renew 0 20000 60000,
    .acquire 1 70000 60000 true]

/-- The first holder is still the only one after the minute is over. -/
theorem leases_le_cap_renewed :
    ∃ s, Reachable (leaseSystem 1 renewsMember) s ∧ s.set.members = ["a"] ∧
      (∀ now, activeCount s.set.entries now ≤ 1) ∧
      ∀ a t, leaseStep 1 s a = some t →
        ((∀ id, id ∉ s.set.members → id ∈ t.set.members → a.takes 1 s id = true) ↔
          renewsMember s a = true) := by
  obtain ⟨s, hs, hQ⟩ := exists_lease_state 1 renewsMember renewedInTime
    (fun s => s.set.members == ["a"]) (by decide +kernel)
  exact ⟨s, hs, beq_iff_eq.mp hQ, leases_le_cap hs⟩

/-- The first holder stalls for more than the minute: its lease is swept when the second one comes,
and then its heartbeat is executed. -/
def renewedTooLate : List LeaseAction :=
  [.join "a", .join "b", .acquire 0 0 60000 true, .acquire 1 61000 60000 true, .beat 0,
    .renew 0 62000 60000]

/-- Both holders have a lease that has not expired, on a pod with one slot. -/
theorem two_leases_of_one :
    ∃ s, Reachable (leaseSystem 1 fun _ _ => true) s ∧ s.set.members = ["b", "a"] ∧
      activeCount s.set.entries 62000 = 2 := by
  obtain ⟨s, hs, hQ⟩ := exists_lease_state 1 (fun _ _ => true) renewedTooLate
    (fun s => decide (s.set.members = ["b", "a"] ∧ activeCount s.set.entries 62000 = 2))
    (by decide +kernel)
  exact ⟨s, hs, of_decide_eq_true hQ⟩

end ServerlessHarness.Sandbox
