import ServerlessHarness.Interface.Supervisor.Handoff

/-!
# Hand-offs and estimates

A hand-off tries every place at most once and ends (`handOffLoop_settles`): some places are tried
in vain (`Pool.failed`), then the socket is delivered or refused (`Settled`). From what each event
does to the slots follows, for every sequence of events, where an estimate comes from
(`Estimated`).
-/

set_option autoImplicit false

namespace ServerlessHarness.Supervisor

open Library

variable {p p' : Pool} {tried : List ℕ} {throws : ℕ → Bool} {events : List PoolEvent} {k t n : ℕ}

def PoolEvent.attempt : PoolEvent → Option ℕ
  | .attempted target => some target
  | _ => none

def PoolEvent.delivery : PoolEvent → Option ℕ
  | .delivered k => some k
  | _ => none

/-- The places that were tried. -/
def attempts (events : List PoolEvent) : List ℕ := events.filterMap PoolEvent.attempt

/-- The slots whose workers got the socket. -/
def deliveries (events : List PoolEvent) : List ℕ := events.filterMap PoolEvent.delivery

/-! ## Attempts that fail -/

def PoolEvent.isFailure : PoolEvent → Bool
  | .attempted _ => true
  | .threw _ => true
  | _ => false

/-- The pool after attempts that failed: only the log and the count of retries changed. -/
def Pool.failed (p : Pool) (failures : List PoolEvent) (retries : ℕ) : Pool :=
  { p with log := p.log ++ failures, tally := { p.tally with handoffRetries := retries } }

/-- What `handOff` comes to: after some failures the socket is delivered, or no place is left. -/
inductive Settled (p : Pool) (tried : List ℕ) : Pool → Option ℕ → Prop where
  | delivered (failures : List PoolEvent) (retries t k : ℕ)
      (fail : ∀ e ∈ failures, e.isFailure = true)
        (nodup : (t :: (attempts failures ++ tried)).Nodup)
      (target : p.target t = some k) :
      Settled p tried (((p.failed failures retries).note (.attempted t)).deliver k) (some t)
  | gaveUp (failures : List PoolEvent) (retries : ℕ) (fail : ∀ e ∈ failures, e.isFailure = true)
      (nodup : (attempts failures ++ tried).Nodup) :
      Settled p tried (p.failed failures retries).giveUp none

theorem failed_failed (p : Pool) (first rest : List PoolEvent) (n retries : ℕ) :
    (p.failed first n).failed rest retries = p.failed (first ++ rest) retries := by
  simp only [Pool.failed, List.append_assoc]

theorem failed_nil (p : Pool) : p.failed [] p.tally.handoffRetries = p := by
  simp [Pool.failed]

theorem Settled.at_once (hnodup : (t :: tried).Nodup) (htarget : p.target t = some k) :
    Settled p tried ((p.note (.attempted t)).deliver k) (some t) := by
  have hsettled : Settled p tried
      (((p.failed [] p.tally.handoffRetries).note (.attempted t)).deliver k) (some t) :=
    .delivered [] _ t k nofun hnodup htarget
  rwa [failed_nil] at hsettled

/-- A failed attempt at `t` comes before the rest. -/
theorem Settled.of_failed {first : List PoolEvent} {result : Option ℕ}
    (hfail : ∀ e ∈ first, e.isFailure = true) (hfirst : attempts first = [t])
    (h : Settled (p.failed first n) (t :: tried) p' result) : Settled p tried p' result := by
  have hattempts : ∀ rest, attempts (first ++ rest) = t :: attempts rest := by
    intro rest
    rw [attempts, List.filterMap_append]
    exact congrArg (· ++ attempts rest) hfirst
  have hboth : ∀ {rest : List PoolEvent}, (∀ e ∈ rest, e.isFailure = true) →
      ∀ e ∈ first ++ rest, e.isFailure = true := by
    intro rest hrest e he
    exact (List.mem_append.mp he).elim (hfail e) (hrest e)
  cases h with
  | delivered rest retries t' k fail nodup target =>
    rw [failed_failed]
    refine .delivered _ _ _ _ (hboth fail) ?_ target
    rw [hattempts]
    exact (List.perm_middle.cons t').nodup nodup
  | gaveUp rest retries fail nodup =>
    rw [failed_failed]
    refine .gaveUp _ _ (hboth fail) ?_
    rw [hattempts]
    exact List.perm_middle.nodup nodup

/-! ## The loop -/

/-- The places that were not tried yet. -/
def untried (p : Pool) (tried : List ℕ) : ℕ :=
  ((List.range p.table.length).filter fun id => id ∉ tried).length

theorem untried_cons (ht : t < p.table.length) (hnew : t ∉ tried) :
    untried p (t :: tried) + 1 = untried p tried := by
  have hmem : t ∈ (List.range p.table.length).filter fun id => id ∉ tried := by
    simp [ht, hnew]
  have herase : ((List.range p.table.length).filter fun id => id ∉ t :: tried) =
      ((List.range p.table.length).filter fun id => id ∉ tried).erase t := by
    rw [(List.nodup_range.filter _).erase_eq_filter, List.filter_filter]
    refine List.filter_congr ?_
    intro id _
    by_cases hid : id = t
    · simp [hid]
    · simp [hid]
  have hpos := List.length_pos_of_mem hmem
  rw [untried, herase, List.length_erase_of_mem hmem, untried]
  omega

/-- The place to try next. -/
def nextTarget (p : Pool) (tried : List ℕ) : Option ℕ :=
  pickLeastLoaded (p.views.filter fun v => v.id ∉ tried)

theorem nextTarget_spec (h : nextTarget p tried = some t) : t < p.table.length ∧ t ∉ tried := by
  obtain ⟨v, hv, rfl, _⟩ := pickLeastLoaded_spec h
  obtain ⟨hview, hnew⟩ := List.mem_filter.mp hv
  obtain ⟨k, _, hk, _⟩ := mem_poolViews hview
  exact ⟨lt_of_slot hk, of_decide_eq_true hnew⟩

/-- INTERNAL: **one attempt** delivers, or fails and leaves the rest to the next place. -/
theorem handOffLoop_succ (throws : ℕ → Bool) (fuel : ℕ) (p : Pool) (tried : List ℕ) (t : ℕ) :
    (∃ k, p.target t = some k ∧ Pool.handOffLoop throws (fuel + 1) p tried (some t) =
      some ((p.note (.attempted t)).deliver k, some t)) ∨
    ∃ failures retries, (∀ e ∈ failures, e.isFailure = true) ∧ attempts failures = [t] ∧
      Pool.handOffLoop throws (fuel + 1) p tried (some t) =
        Pool.handOffLoop throws fuel (p.failed failures retries) (t :: tried)
          (nextTarget p (t :: tried)) := by
  rw [Pool.handOffLoop]
  cases htarget : p.target t with
  | none =>
    exact .inr ⟨[.attempted t], p.tally.handoffRetries + 1, by simp [PoolEvent.isFailure], rfl, rfl⟩
  | some k =>
    by_cases hthrows : throws tried.length = true
    · refine .inr ⟨[.attempted t, .threw k], p.tally.handoffRetries + 1,
        by simp [PoolEvent.isFailure], rfl, ?_⟩
      simp only [hthrows, if_true]
      simp only [Pool.failed, Pool.note, Pool.retry, nextTarget, List.append_assoc,
        List.cons_append, List.nil_append]
    · exact .inl ⟨k, rfl, by simp only [hthrows, Bool.false_eq_true, if_false]⟩

/-- INTERNAL: **the loop ends**: one look at its condition for each place not tried yet, and one
more. -/
theorem handOffLoop_settles (throws : ℕ → Bool) (fuel : ℕ) :
    ∀ (p : Pool) (tried : List ℕ) (next : Option ℕ), tried.Nodup →
      (∀ t, next = some t → t < p.table.length ∧ t ∉ tried) → untried p tried + 1 ≤ fuel →
      ∃ p' result, Pool.handOffLoop throws fuel p tried next = some (p', result) ∧
        Settled p tried p' result := by
  induction fuel with
  | zero => exact fun p tried _ _ _ h => absurd h (Nat.not_succ_le_zero _)
  | succ fuel ih =>
    intro p tried next hnodup hnext hfuel
    cases next with
    | none =>
      have hsettled : Settled p tried (p.failed [] p.tally.handoffRetries).giveUp none :=
        .gaveUp [] _ nofun hnodup
      rw [failed_nil] at hsettled
      exact ⟨_, _, rfl, hsettled⟩
    | some t =>
      obtain ⟨ht, hnew⟩ := hnext t rfl
      rcases handOffLoop_succ throws fuel p tried t with ⟨k, htarget, hloop⟩ | ⟨failures, m, hfail,
        hfirst, hloop⟩
      · exact ⟨_, _, hloop, .at_once (List.nodup_cons.mpr ⟨hnew, hnodup⟩) htarget⟩
      · have hfewer : untried (p.failed failures m) (t :: tried) + 1 ≤ fuel := by
          have := untried_cons ht hnew
          show untried p (t :: tried) + 1 ≤ fuel
          omega
        obtain ⟨p', result, hrest, hsettled⟩ := ih (p.failed failures m) (t :: tried)
          (nextTarget p (t :: tried)) (List.nodup_cons.mpr ⟨hnew, hnodup⟩)
          (fun _ h => nextTarget_spec h) hfewer
        exact ⟨p', result, hloop.trans hrest, hsettled.of_failed hfail hfirst⟩

theorem handOff_settles (p : Pool) (preferred : ℕ) (throws : ℕ → Bool) :
    ∃ p' result, p.handOff preferred throws = some (p', result) ∧ Settled p [] p' result := by
  -- The preferred place need not exist, so the first attempt is apart from the others.
  rcases handOffLoop_succ throws (p.table.length + 1) p [] preferred with
    ⟨k, htarget, hloop⟩ | ⟨failures, m, hfail, hfirst, hloop⟩
  · exact ⟨_, _, hloop, .at_once (List.nodup_singleton _) htarget⟩
  · have hfewer : untried p [preferred] ≤ p.table.length := by
      have := List.length_filter_le (fun id => decide (id ∉ [preferred]))
        (List.range p.table.length)
      rwa [List.length_range] at this
    obtain ⟨p', result, hrest, hsettled⟩ := handOffLoop_settles throws (p.table.length + 1)
      (p.failed failures m) [preferred] (nextTarget p [preferred]) (List.nodup_singleton _)
      (fun _ h => nextTarget_spec h) (Nat.succ_le_succ hfewer)
    exact ⟨p', result, hloop.trans hrest, hsettled.of_failed hfail hfirst⟩

/-! ## The connection follows the socket -/

/-- The attempts of the two models go hand in hand: a failed one leaves the slots as they are. -/
theorem handOff_follows {w : World} (c : ℕ) (throws : List Bool) (fuel : ℕ) :
    ∀ (p p' : Pool) (tried : List ℕ) (t : ℕ) (result : Option ℕ), p.table = w.table →
      p.slots = w.pool.slots →
      Pool.handOffLoop (fun i => throws.getD i false) fuel p tried (some t) = some (p', result) →
      result = none ∧ w.handOff c fuel (throws.drop tried.length) tried t = w.refuse c ∨
        ∃ t' k tried', result = some t' ∧ w.sendable t' = some k ∧
          w.handOff c fuel (throws.drop tried.length) tried t = w.sendConn c t' k tried' := by
  induction fuel with
  | zero => exact fun _ _ _ _ _ _ _ h => absurd h (by simp [Pool.handOffLoop])
  | succ fuel ih =>
    intro p p' tried t result htable hslots hloop
    have htarget : p.target t = w.sendable t := by
      rw [World.sendable, Pool.target, Pool.target, htable, hslots]
      rfl
    have hviews : p.views = w.views := by
      rw [World.views, Pool.views, Pool.views, htable, hslots]
      rfl
    -- After an attempt that failed the loop goes on, or gives up.
    have hnext : ∀ q : Pool, q.table = w.table → q.slots = w.pool.slots →
        Pool.handOffLoop (fun i => throws.getD i false) fuel q (t :: tried)
          (pickLeastLoaded (p.views.filter fun v => v.id ∉ t :: tried)) = some (p', result) →
        w.handOff c (fuel + 1) (throws.drop tried.length) tried t =
          (pickLeastLoaded (w.views.filter fun v => v.id ∉ t :: tried)).elim (w.refuse c)
            (w.handOff c fuel (throws.drop (t :: tried).length) (t :: tried)) →
        result = none ∧ w.handOff c (fuel + 1) (throws.drop tried.length) tried t = w.refuse c ∨
          ∃ t' k tried', result = some t' ∧ w.sendable t' = some k ∧
            w.handOff c (fuel + 1)
              (throws.drop tried.length) tried t = w.sendConn c t' k tried' := by
      intro q hqtable hqslots hrest hsame
      rw [hsame]
      rw [hviews] at hrest
      cases hpick : pickLeastLoaded (w.views.filter fun v => v.id ∉ t :: tried) with
      | some next =>
        rw [hpick] at hrest
        exact ih q p' _ next result hqtable hqslots hrest
      | none =>
        rw [hpick] at hrest
        cases fuel with
        | zero => cases hrest
        | succ fuel =>
          cases hrest
          exact .inl ⟨rfl, rfl⟩
    have hthrows : (throws.drop tried.length).headD false = throws.getD tried.length false := by
      simp [List.getD]
    rw [Pool.handOffLoop, htarget] at hloop
    cases hsend : w.sendable t with
    | none =>
      rw [hsend] at hloop
      refine hnext (p.note (.attempted t)).retry htable hslots hloop ?_
      rw [World.handOff, hsend, List.tail_drop]
      cases pickLeastLoaded (w.views.filter fun v => v.id ∉ t :: tried) <;> rfl
    | some k =>
      rw [hsend] at hloop
      dsimp only at hloop
      split at hloop
      · next hthrew =>
        refine hnext ((p.note (.attempted t)).note (.threw k)).retry htable hslots hloop ?_
        rw [World.handOff, hsend, hthrows, hthrew, List.tail_drop]
        cases pickLeastLoaded (w.views.filter fun v => v.id ∉ t :: tried) <;> rfl
      · next hsent =>
        cases hloop
        refine .inr ⟨t, k, tried, rfl, hsend, ?_⟩
        rw [World.handOff, hsend, hthrows, Bool.eq_false_iff.mpr hsent]

/-- INTERNAL: **the two models of a hand-off agree**: the connection is sent to the worker that
gets the socket, and refused if none does. -/
theorem handOff_agrees (w : World) (c : ℕ) (throws : List Bool) (preferred : ℕ) :
    ∃ p' result, w.pool.handOff preferred (fun i => throws.getD i false) = some (p', result) ∧
      (result = none ∧ w.handOff c (w.table.length + 2) throws [] preferred = w.refuse c ∨
        ∃ t k tried, result = some t ∧ w.sendable t = some k ∧
          w.handOff c (w.table.length + 2) throws [] preferred = w.sendConn c t k tried) := by
  obtain ⟨p', result, hout, _⟩ := handOff_settles w.pool preferred fun i => throws.getD i false
  exact ⟨p', result, hout, handOff_follows c throws _ w.pool p' [] preferred result rfl rfl hout⟩

/-! ## Estimates after an event -/

def Pool.estimates (p : Pool) : List ℕ := p.slots.map Slot.inFlight

variable {e : PoolEvent} {f : Slot → Slot} {log : List PoolEvent}

theorem estimates_foldl_modify (hf : ∀ s, (f s).inFlight = s.inFlight) (table : List ℕ)
    (slots : List Slot) :
    (table.foldl (fun slots k => slots.modify k f) slots).map Slot.inFlight =
      slots.map Slot.inFlight := by
  induction table generalizing slots with
  | nil => rfl
  | cons k table ih => rw [List.foldl_cons, ih, map_modify_of_eq hf]

@[simp] theorem estimates_noteRefusal : p.noteRefusal.estimates = p.estimates :=
  estimates_foldl_modify (f := fun s => { s with refusalEstimate := some s.inFlight })
    (fun _ => rfl) _ _

theorem not_isFailure (hfail : ∀ e ∈ events, e.isFailure = true) (he : e.isFailure = false) :
    e ∉ events := by
  intro hmem
  rw [hfail e hmem] at he
  cases he

theorem deliveries_eq_nil (hfail : ∀ e ∈ events, e.isFailure = true) : deliveries events = [] := by
  rw [deliveries, List.filterMap_eq_nil_iff]
  intro e he
  cases e with
  | delivered k => exact absurd he (not_isFailure hfail rfl)
  | _ => rfl

/-- INTERNAL: **every hand-off ends**, tries no place twice, and delivers the socket to one worker
that is healthy and connected, whose estimate alone rises, or refuses it once.
SRCLINE: supervisor/pool.ts:196-249 -/
theorem handOff_once (p : Pool) (preferred : ℕ) (throws : ℕ → Bool) :
    ∃ p' result events, p.handOff preferred throws = some (p', result) ∧ p'.log = p.log ++ events ∧
      (attempts events).Nodup ∧
      ((∃ t k slot, result = some t ∧ p.table[t]? = some k ∧ p.slots[k]? = some slot ∧
          slot.healthy = true ∧ slot.connected = true ∧ deliveries events = [k] ∧
            .refused ∉ events ∧
          p'.slots = p.slots.modify k fun s => { s with inFlight := s.inFlight + 1 }) ∨
        result = none ∧ deliveries events = [] ∧ events.count .refused = 1 ∧
          p'.estimates = p.estimates) := by
  obtain ⟨p', result, hout, hsettled⟩ := handOff_settles p preferred throws
  cases hsettled with
  | delivered failures retries t k fail nodup target =>
    obtain ⟨hk, slot, hslot, hhealthy, hconnected⟩ := target_eq_some target
    rw [List.append_nil] at nodup
    refine ⟨_, _, failures ++ [.attempted t, .delivered k], hout, ?_, ?_,
      .inl ⟨t, k, slot, rfl, hk, hslot, hhealthy, hconnected, ?_, ?_, rfl⟩⟩
    · simp [Pool.deliver, Pool.note, Pool.onSlot, Pool.failed]
    · have hattempts : attempts (failures ++ [.attempted t, .delivered k]) = attempts failures ++
          [t] := by
        rw [attempts, List.filterMap_append]
        rfl
      rw [hattempts]
      exact List.perm_append_singleton t _ |>.nodup_iff.mpr nodup
    · rw [deliveries, List.filterMap_append]
      exact congrArg (· ++ [k]) (deliveries_eq_nil fail)
    · simp [not_isFailure (e := .refused) fail rfl]
  | gaveUp failures retries fail nodup =>
    rw [List.append_nil] at nodup
    refine ⟨_, _, failures ++ [.noted, .refused], hout, ?_, ?_, .inr ⟨rfl, ?_, ?_, ?_⟩⟩
    · simp [Pool.giveUp, Pool.noteRefusal, Pool.note, Pool.failed]
    · rw [attempts, List.filterMap_append]
      exact (List.append_nil _).symm ▸ nodup
    · rw [deliveries, List.filterMap_append]
      exact congrArg (· ++ []) (deliveries_eq_nil fail)
    · rw [List.count_append, List.count_eq_zero_of_not_mem (not_isFailure fail rfl)]
      rfl
    · exact estimates_noteRefusal

/-! ## Where an estimate comes from -/

/-- The value to which an event sets the estimate of a slot. -/
def PoolEvent.sets (k : ℕ) : PoolEvent → Option ℕ
  | .spawned j => if j = k then some 0 else none
  | .exited j => if j = k then some 0 else none
  | .loaded j inFlight => if j = k then some inFlight else none
  | _ => none

/-- `n` is the value that was set last for the slot, and one for every hand-off to it since. -/
def Estimated (log : List PoolEvent) (k n : ℕ) : Prop :=
  ∃ before e after v, log = before ++ e :: after ∧ e.sets k = some v ∧
    (∀ x ∈ after, x.sets k = none) ∧ n = v + after.count (.delivered k)

theorem Estimated.of_set (h : e.sets k = some n) :
    Estimated (log ++ [e]) k n :=
  ⟨log, e, [], n, rfl, h, nofun, rfl⟩

theorem Estimated.append (h : Estimated log k n) (events : List PoolEvent)
    (hmore : ∀ x ∈ events, x.sets k = none) :
    Estimated (log ++ events) k (n + events.count (.delivered k)) := by
  obtain ⟨before, e, after, v, rfl, hset, hafter, rfl⟩ := h
  refine ⟨before, e, after ++ events, v, by simp, hset, ?_, ?_⟩
  · intro x hx
    exact (List.mem_append.mp hx).elim (hafter x) (hmore x)
  · rw [List.count_append, Nat.add_assoc]

/-- A single event that concerns other slots. -/
theorem Estimated.concat (h : Estimated log k n) (hset : e.sets k = none)
    (hdelivered : e ≠ .delivered k) : Estimated (log ++ [e]) k n := by
  have happend := h.append [e] (by simpa using hset)
  rwa [List.count_eq_zero_of_not_mem (by simpa using hdelivered.symm)] at happend

/-- All estimates come from the log, and a counted refusal was noted. -/
structure Kept (p : Pool) : Prop where
  estimated : ∀ k n, p.estimates[k]? = some n → Estimated p.log k n
  refusals : p.tally.spuriousRefusals + (if p.refusalCounted then 0 else 1) ≤ p.log.count .noted

/-- An event that sets the estimate of slot `k` and leaves the others. -/
theorem estimated_onSlot (hp : Kept p) {v : ℕ} (hf : ∀ s, (f s).inFlight = v)
    (hset : e.sets k = some v) (hother : ∀ j, j ≠ k → e.sets j = none ∧ e ≠ .delivered j) :
    ∀ j n, ((p.slots.modify k f).map Slot.inFlight)[j]? = some n →
      Estimated (p.log ++ [e]) j n := by
  intro j n hj
  rw [List.getElem?_map, Option.map_eq_some_iff] at hj
  obtain ⟨s, hs, rfl⟩ := hj
  rcases slot_of_modify hs with ⟨rfl, s₀, _, rfl⟩ | ⟨hne, hs⟩
  · rw [hf]
    exact .of_set hset
  · obtain ⟨hnone, hdelivered⟩ := hother j (Ne.symm hne)
    refine (hp.estimated j s.inFlight ?_).concat hnone hdelivered
    rw [Pool.estimates, List.getElem?_map, hs, Option.map_some]

theorem Kept.of_estimates (hp : Kept p) (hestimates : p'.estimates = p.estimates)
    (hlog : p'.log = p.log)
    (htally : p'.tally.spuriousRefusals = p.tally.spuriousRefusals)
    (hcounted : p'.refusalCounted = p.refusalCounted) : Kept p' where
  estimated := by rw [hestimates, hlog]; exact hp.estimated
  refusals := by rw [htally, hcounted, hlog]; exact hp.refusals

theorem Kept.onSlot (hp : Kept p) (hf : ∀ s, (f s).inFlight = s.inFlight) :
    Kept (p.onSlot k f) :=
  hp.of_estimates (map_modify_of_eq hf _ _) rfl rfl rfl

theorem Kept.noteRefusal (hp : Kept p) : Kept p.noteRefusal where
  estimated := by
    intro k n hk
    rw [estimates_noteRefusal] at hk
    exact (hp.estimated k n hk).concat rfl nofun
  refusals := by
    have hle := hp.refusals
    have hcount : p.noteRefusal.log.count .noted = p.log.count .noted + 1 := List.count_append
    rw [hcount]
    show p.tally.spuriousRefusals + 1 ≤ _
    omega

theorem Kept.note (hp : Kept p) (hset : ∀ k, e.sets k = none) (hdelivered : ∀ k, e ≠ .delivered k)
    (hnoted : e ≠ .noted) : Kept (p.note e) where
  estimated k n hk := (hp.estimated k n hk).concat (hset k) (hdelivered k)
  refusals := by
    have hcount : (p.note e).log.count .noted = p.log.count .noted := by
      show (p.log ++ [e]).count .noted = _
      rw [List.count_append, List.count_eq_zero_of_not_mem (l := [e]) (by simpa using hnoted.symm)]
      rfl
    rw [hcount]
    exact hp.refusals

theorem Kept.failed (hp : Kept p) (hfail : ∀ e ∈ events, e.isFailure = true) (retries : ℕ) :
    Kept (p.failed events retries) where
  estimated := by
    intro k n hk
    have hsets : ∀ e ∈ events, e.sets k = none := by
      intro e he
      have hfailure := hfail e he
      cases e <;> first | rfl | cases hfailure
    have happend := (hp.estimated k n hk).append events hsets
    rwa [List.count_eq_zero_of_not_mem (not_isFailure hfail rfl)] at happend
  refusals := by
    have hcount : (p.log ++ events).count .noted = p.log.count .noted := by
      rw [List.count_append, List.count_eq_zero_of_not_mem (not_isFailure hfail rfl)]
      rfl
    show _ ≤ (p.log ++ events).count .noted
    rw [hcount]
    exact hp.refusals

theorem Kept.deliver (hp : Kept p) : Kept (p.deliver k) where
  estimated := by
    intro j n hj
    have hmodify : ((p.slots.modify k fun s => { s with inFlight := s.inFlight + 1 }).map
        Slot.inFlight)[j]? = some n := hj
    rw [List.getElem?_map, Option.map_eq_some_iff] at hmodify
    obtain ⟨s, hs, rfl⟩ := hmodify
    have hold : ∀ s₀, p.slots[j]? = some s₀ → Estimated p.log j s₀.inFlight := by
      intro s₀ hs₀
      refine hp.estimated j _ ?_
      rw [Pool.estimates, List.getElem?_map, hs₀, Option.map_some]
    rcases slot_of_modify hs with ⟨rfl, s₀, hs₀, rfl⟩ | ⟨hne, hs⟩
    · have happend := (hold s₀ hs₀).append [.delivered k] (by simp [PoolEvent.sets])
      rwa [List.count_singleton_self] at happend
    · exact (hold s hs).concat rfl (by simpa using hne)
  refusals := by
    have hcount : (p.deliver k).log.count .noted = p.log.count .noted := List.count_append
    rw [hcount]
    exact hp.refusals

theorem Kept.reconcile (hp : Kept p) {slot : Slot} (actual : ℕ) :
    Kept (p.reconcile k slot actual) where
  estimated := by
    refine estimated_onSlot hp (v := actual) (fun _ => rfl) (if_pos rfl) ?_
    intro j hj
    exact ⟨if_neg (Ne.symm hj), nofun⟩
  refusals := by
    have hle := hp.refusals
    have hcount : (p.reconcile k slot actual).log.count .noted = p.log.count .noted :=
      List.count_append
    rw [hcount]
    simp only [Pool.reconcile]
    -- A refusal that is not counted yet makes room for one.
    rcases Bool.eq_false_or_eq_true p.refusalCounted with hcounted | hcounted
    · simpa [hcounted] using hle
    · rcases Bool.eq_false_or_eq_true
        (slot.refusalEstimate.any fun atRefusal => decide (actual < atRefusal)) with hany | hany
      · simpa [hcounted, hany] using hle
      · simpa [hcounted, hany] using hle

theorem Kept.onExit (hp : Kept p) (k : ℕ) : Kept (p.onExit k) := by
  have htold : Kept ((p.onSlot k fun s => { s with healthy := false, inFlight := 0 }).note
      (.exited k)) := by
    constructor
    · refine estimated_onSlot hp (v := 0) (fun _ => rfl) (if_pos rfl) ?_
      intro j hj
      exact ⟨if_neg (Ne.symm hj), nofun⟩
    · show _ ≤ (p.log ++ [PoolEvent.exited k]).count PoolEvent.noted
      rw [List.count_append]
      exact hp.refusals
  unfold Pool.onExit
  split
  · exact htold
  · exact htold.of_estimates rfl rfl rfl rfl

theorem Kept.spawn (hp : Kept p) (id : ℕ) : Kept (p.spawn id) := by
  unfold Pool.spawn
  split
  · constructor
    · intro k n hk
      have hconcat : (p.estimates ++ [0])[k]? = some n := by
        have happend : (p.slots ++ [Slot.fresh]).map Slot.inFlight = p.estimates ++ [0] :=
          List.map_append
        rw [← happend]
        exact hk
      rcases slot_of_append hconcat with hold | ⟨rfl, rfl⟩
      · have hlt : k < p.slots.length := by
          have := lt_of_slot hold
          rwa [Pool.estimates, List.length_map] at this
        exact (hp.estimated k n hold).concat (if_neg (Nat.ne_of_gt hlt)) nofun
      · refine .of_set (if_pos ?_)
        rw [Pool.estimates, List.length_map]
    · show _ ≤ (p.log ++ [PoolEvent.spawned p.slots.length]).count PoolEvent.noted
      rw [List.count_append]
      exact hp.refusals
  · exact hp

theorem Kept.onMessage (hp : Kept p) (k : ℕ) (m : Message) : Kept (p.onMessage k m) := by
  cases m with
  | ready =>
    refine hp.onSlot ?_
    intro s
    split <;> rfl
  | draining => exact hp.onSlot fun _ => rfl
  | load inFlight =>
    simp only [Pool.onMessage]
    split
    · exact hp.reconcile inFlight
    · exact hp
  | stats | unrecognised => exact hp

theorem Kept.step (hp : Kept p) (a : PoolAction) : Kept (p.step a) := by
  cases a with
  | spawn id => exact hp.spawn id
  | message k m => exact hp.onMessage k m
  | exit k => exact hp.onExit k
  | disconnect k => exact hp.onSlot fun _ => rfl
  | handOff preferred throws =>
    obtain ⟨p', result, hout, hsettled⟩ := handOff_settles p preferred throws
    simp only [Pool.step, hout]
    cases hsettled with
    | delivered failures retries t k fail nodup target =>
      have htried := (hp.failed fail retries).note (e := .attempted t) (fun _ => rfl) nofun nofun
      exact htried.deliver
    | gaveUp failures retries fail nodup =>
      have hfailed : Kept { p.failed failures retries with
          tally := { p.tally with
            handoffRetries := retries
            handoffFailures := p.tally.handoffFailures + 1 } } :=
        (hp.failed fail retries).of_estimates rfl rfl rfl rfl
      exact hfailed.noteRefusal.note (e := .refused) (fun _ => rfl) nofun nofun
  | noteRefusal => exact hp.noteRefusal
  | drainAll =>
    exact hp.of_estimates
      (estimates_foldl_modify (f := fun s => { s with drained := true })
        (fun _ => rfl) _ _) rfl rfl rfl

/-- The estimates are kept in every run. -/
theorem kept_run (actions : List PoolAction) : Kept (Pool.run actions) := by
  have hrun : ∀ (actions : List PoolAction) (p : Pool), Kept p →
      Kept (actions.foldl Pool.step p) := by
    intro actions
    induction actions with
    | nil => exact fun _ hp => hp
    | cons a actions ih => exact fun p hp => ih _ (hp.step a)
  exact hrun actions .empty ⟨nofun, Nat.le_refl 0⟩

/-- What an action adds to the log. -/
def PoolAction.Logs (p : Pool) (events : List PoolEvent) : PoolAction → Prop
  | .spawn id => events = if id ≤ p.table.length then [.spawned p.slots.length] else []
  | .message k (.load inFlight) => events = if k < p.slots.length then [.loaded k inFlight] else []
  | .message _ _ => events = []
  | .exit k => events = [.exited k]
  | .disconnect _ => events = []
  | .handOff _ _ => ∃ failures, (∀ e ∈ failures, e.isFailure = true) ∧
      ((∃ t k, p.target t = some k ∧ events = failures ++ [.attempted t, .delivered k]) ∨
        events = failures ++ [.noted, .refused])
  | .noteRefusal => events = [.noted]
  | .drainAll => events = []

/-- INTERNAL: **the log is that of the actions**. -/
theorem log_step (p : Pool) (a : PoolAction) :
    ∃ events, (p.step a).log = p.log ++ events ∧ a.Logs p events := by
  have hsilent : p.log = p.log ++ [] := (List.append_nil _).symm
  cases a with
  | spawn id =>
    refine ⟨_, ?_, rfl⟩
    simp only [Pool.step, Pool.spawn]
    split
    · rfl
    · exact hsilent
  | message k m =>
    cases m with
    | ready | draining | stats | unrecognised => exact ⟨[], hsilent, rfl⟩
    | load inFlight =>
      refine ⟨_, ?_, rfl⟩
      simp only [Pool.step, Pool.onMessage]
      split
      · next hslot => rw [if_pos (lt_of_slot hslot)]; rfl
      · next hnone =>
        rw [if_neg (Nat.not_lt.mpr (List.getElem?_eq_none_iff.mp hnone))]
        exact hsilent
  | exit k =>
    refine ⟨_, ?_, rfl⟩
    simp only [Pool.step, Pool.onExit]
    split <;> rfl
  | disconnect | drainAll => exact ⟨[], hsilent, rfl⟩
  | handOff preferred throws =>
    obtain ⟨p', result, hout, hsettled⟩ := handOff_settles p preferred throws
    simp only [Pool.step, hout]
    cases hsettled with
    | delivered failures retries t k fail nodup target =>
      exact ⟨failures ++ [.attempted t, .delivered k],
        by simp [Pool.deliver, Pool.note, Pool.onSlot,
        Pool.failed], failures, fail, .inl ⟨t, k, target, rfl⟩⟩
    | gaveUp failures retries fail nodup =>
      exact ⟨failures ++ [.noted, .refused], by simp [Pool.giveUp, Pool.noteRefusal, Pool.note,
        Pool.failed], failures, fail, .inr rfl⟩
  | noteRefusal => exact ⟨[.noted], rfl, rfl⟩

/-- The handlers of slot `k` do not touch another slot, nor which slots stand in the places. -/
theorem step_other {a : PoolAction} {j : ℕ} (hjk : j ≠ k)
    (ha : a = .exit k ∨ ∃ m, a = .message k m) :
    (p.step a).table = p.table ∧ (p.step a).slots[j]? = p.slots[j]? := by
  have hslot : ∀ f : Slot → Slot, (p.slots.modify k f)[j]? = p.slots[j]? :=
    fun f => slot_modify_ne (Ne.symm hjk)
  rcases ha with rfl | ⟨m, rfl⟩
  · simp only [Pool.step, Pool.onExit]
    split <;> exact ⟨rfl, hslot _⟩
  · cases m with
    | ready | draining => exact ⟨rfl, hslot _⟩
    | load inFlight =>
      simp only [Pool.step, Pool.onMessage]
      split
      · exact ⟨rfl, hslot _⟩
      · exact ⟨rfl, rfl⟩
    | stats | unrecognised => exact ⟨rfl, rfl⟩

/-- INTERNAL: **estimates over every sequence of events.** The estimate of the slot in each place
is the last value that a spawn, an exit or a load message of its own worker set, and one for each
hand-off to it since; messages and exits of another worker, such as the one it replaced, leave the
slot as it is; no more refusals are counted as spurious than were noted; and each action logs what
it does.
SRCLINE: supervisor/pool.ts:196-280, 327-467 -/
theorem estimates_kept (actions : List PoolAction) :
    (∀ (id k : ℕ) (slot : Slot), (Pool.run actions).table[id]? = some k →
      (Pool.run actions).slots[k]? = some slot → Estimated (Pool.run actions).log k slot.inFlight) ∧
    (∀ (id k replaced : ℕ) (a : PoolAction), (Pool.run actions).table[id]? = some k → k ≠ replaced →
      (a = .exit replaced ∨ ∃ m, a = .message replaced m) →
      ((Pool.run actions).step a).table[id]? = some k ∧
        ((Pool.run actions).step a).slots[k]? = (Pool.run actions).slots[k]?) ∧
    (Pool.run actions).tally.spuriousRefusals ≤ (Pool.run actions).log.count .noted ∧
    ∀ a, ∃ events, ((Pool.run actions).step a).log = (Pool.run actions).log ++ events ∧
      a.Logs (Pool.run actions) events := by
  have hkept := kept_run actions
  refine ⟨?_, ?_, ?_, log_step _⟩
  · intro id k slot _ hslot
    refine hkept.estimated k _ ?_
    rw [Pool.estimates, List.getElem?_map, hslot, Option.map_some]
  · intro id k replaced a hid hne ha
    obtain ⟨htable, hslots⟩ := step_other hne ha
    rw [htable]
    exact ⟨hid, hslots⟩
  · exact Nat.le_trans (Nat.le_add_right _ _) hkept.refusals

end ServerlessHarness.Supervisor
