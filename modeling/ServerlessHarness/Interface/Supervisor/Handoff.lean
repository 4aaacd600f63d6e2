import ServerlessHarness.Library.Slots
import ServerlessHarness.Model.Supervisor.Pool

/-!
# What routing can do to a connection

`pickLeastLoaded` returns a healthy worker that no other healthy one undercuts. A connection that is
routed is refused, or it is sent to one worker: the preferred one, or the least loaded of those that
were not tried (`routeTo_cases`, `HandsOff`).
-/

set_option autoImplicit false

namespace ServerlessHarness.Supervisor

variable {cfg : Config} {w w' : World} {a : Action}

/-! ## The least loaded worker -/

variable {k t : ℕ} {v : WorkerView}

/-- The worker that the loop of `pickLeastLoaded` holds in the end. -/
theorem foldl_betterOf {l : List WorkerView} {best : Option WorkerView}
    (h : l.foldl betterOf best = some v) :
    (best = some v ∨ v ∈ l ∧ v.healthy = true) ∧
      (∀ b, best = some b → v.inFlight ≤ b.inFlight) ∧
      ∀ u ∈ l, u.healthy = true → v.inFlight ≤ u.inFlight := by
  induction l generalizing best with
  | nil =>
    have hbest : best = some v := h
    refine ⟨.inl hbest, ?_, List.forall_mem_nil _⟩
    intro b hb
    rw [hbest] at hb
    exact Nat.le_of_eq (congrArg WorkerView.inFlight (Option.some.inj hb))
  | cons u l ih =>
    have hrest : l.foldl betterOf (betterOf best u) = some v := h
    obtain ⟨hfrom, hbound, hall⟩ := ih hrest
    cases hu : u.healthy with
    | false =>
      have hsame : betterOf best u = best := by simp [betterOf, hu]
      rw [hsame] at hfrom hbound
      refine ⟨?_, hbound, ?_⟩
      · rcases hfrom with hb | ⟨hv, hhealthy⟩
        · exact .inl hb
        · exact .inr ⟨List.mem_cons_of_mem u hv, hhealthy⟩
      · intro x hx hxh
        rcases List.mem_cons.mp hx with rfl | hx
        · rw [hu] at hxh
          cases hxh
        · exact hall x hx hxh
    | true =>
      -- The new best is `u` or the old one, and is no worse than either.
      have hnew : ∃ b, betterOf best u = some b ∧ (b = u ∨ best = some b) ∧
          b.inFlight ≤ u.inFlight ∧ ∀ x, best = some x → b.inFlight ≤ x.inFlight := by
        cases best with
        | none => exact ⟨u, by simp [betterOf, hu], .inl rfl, Nat.le_refl _, nofun⟩
        | some b =>
          by_cases hlt : u.inFlight < b.inFlight
          · refine ⟨u, by simp [betterOf, hu, hlt], .inl rfl, Nat.le_refl _, ?_⟩
            intro x hx
            cases hx
            exact Nat.le_of_lt hlt
          · refine ⟨b, by simp [betterOf, hu, hlt], .inr rfl, Nat.le_of_not_lt hlt, ?_⟩
            intro x hx
            cases hx
            exact Nat.le_refl _
      obtain ⟨b, hb, horigin, hle, hbest⟩ := hnew
      have hvb := hbound b hb
      refine ⟨?_, fun x hx => Nat.le_trans hvb (hbest x hx), ?_⟩
      · rcases hfrom with hfrom | ⟨hv, hhealthy⟩
        · have hbv : b = v := Option.some.inj (hb.symm.trans hfrom)
          subst hbv
          rcases horigin with rfl | horigin
          · exact .inr ⟨List.mem_cons_self, hu⟩
          · exact .inl horigin
        · exact .inr ⟨List.mem_cons_of_mem u hv, hhealthy⟩
      · intro x hx hxh
        rcases List.mem_cons.mp hx with rfl | hx
        · exact Nat.le_trans hvb hle
        · exact hall x hx hxh

/-- The worker picked is healthy and least loaded. -/
theorem pickLeastLoaded_spec {l : List WorkerView} {id : ℕ} (h : pickLeastLoaded l = some id) :
    ∃ v ∈ l, v.id = id ∧ v.healthy = true ∧ ∀ u ∈ l, u.healthy = true →
      v.inFlight ≤ u.inFlight := by
  obtain ⟨v, hv, rfl⟩ := Option.map_eq_some_iff.mp h
  obtain ⟨hfrom, _, hall⟩ := foldl_betterOf hv
  rcases hfrom with hnone | ⟨hmem, hhealthy⟩
  · cases hnone
  · exact ⟨v, hmem, rfl, hhealthy, hall⟩

/-- A policy prefers the least loaded worker, or the one to which the session is pinned. -/
theorem pick_spec {policy : RoutingPolicy} {pins : Pins} {views : List WorkerView}
    {sessionId : Option String} (h : (policy.pick pins views sessionId).1 = some t) :
    pickLeastLoaded views = some t ∨
      policy ≠ .leastInFlight ∧ ∃ sid, sessionId = some sid ∧ pins.get sid = some t := by
  cases policy with
  | leastInFlight => exact .inl h
  | stickyBySession maxPins =>
    cases sessionId with
    | none => exact .inl h
    | some sid =>
      simp only [RoutingPolicy.pick] at h
      split at h
      · next pinned hpinned =>
        have hget := (Option.filter_eq_some_iff.mp hpinned).1
        refine .inr ⟨nofun, sid, rfl, ?_⟩
        rw [hget]
        exact h
      · split at h
        · next chosen hchosen =>
          rw [hchosen]
          exact .inl h
        · cases h

/-! ## Views -/

theorem mem_poolViews {p : Pool} (h : v ∈ p.views) :
    ∃ k s, p.table[v.id]? = some k ∧ p.slots[k]? = some s ∧ v.inFlight = s.inFlight := by
  obtain ⟨⟨k, id⟩, hmem, hview⟩ := List.mem_filterMap.mp h
  obtain ⟨s, hs, rfl⟩ := Option.map_eq_some_iff.mp hview
  exact ⟨k, s, List.mk_mem_zipIdx_iff_getElem?.mp hmem, hs, rfl⟩

theorem target_eq_some {p : Pool} (h : p.target t = some k) :
    p.table[t]? = some k ∧ ∃ s, p.slots[k]? = some s ∧ s.healthy = true ∧ s.connected = true := by
  obtain ⟨hk, hany⟩ := Option.filter_eq_some_iff.mp h
  cases hs : p.slots[k]? with
  | none =>
    rw [hs] at hany
    cases hany
  | some s =>
    rw [hs, Option.any_some, Bool.and_eq_true] at hany
    exact ⟨hk, s, rfl, hany⟩

theorem pool_slot {s : Slot} (h : w.pool.slots[k]? = some s) :
    ∃ wk, w.workers[k]? = some wk ∧ s = wk.slot := by
  rw [World.pool, List.getElem?_map, Option.map_eq_some_iff] at h
  obtain ⟨wk, hwk, rfl⟩ := h
  exact ⟨wk, hwk, rfl⟩

theorem mem_views (h : v ∈ w.views) :
    ∃ k wk, w.table[v.id]? = some k ∧ w.workers[k]? = some wk ∧ v.inFlight = wk.inFlight := by
  obtain ⟨k, s, hk, hs, hin⟩ := mem_poolViews h
  obtain ⟨wk, hwk, rfl⟩ := pool_slot hs
  exact ⟨k, wk, hk, hwk, hin⟩

theorem sendable_eq_some (h : w.sendable t = some k) :
    w.table[t]? = some k ∧
      ∃ wk, w.workers[k]? = some wk ∧ wk.healthy = true ∧ wk.connected = true := by
  obtain ⟨hk, s, hs, hup⟩ := target_eq_some h
  obtain ⟨wk, hwk, rfl⟩ := pool_slot hs
  exact ⟨hk, wk, hwk, hup⟩

/-! ## Hand-off -/

/-- Where a connection may be sent: to the preferred worker, or after that one and perhaps others
were tried to the least loaded of the rest. -/
def Chosen (w : World) (preferred t : ℕ) (tried : List ℕ) : Prop :=
  tried = [] ∧ t = preferred ∨
    tried ≠ [] ∧ pickLeastLoaded (w.views.filter fun v => v.id ∉ tried) = some t

/-- The attempts end in a refusal, or in one worker that can be sent to. -/
theorem handOff_cases (c preferred : ℕ) :
    ∀ (fuel : ℕ) (throws : List Bool) (tried : List ℕ) (t : ℕ), Chosen w preferred t tried →
      w.handOff c fuel throws tried t = w.refuse c ∨
        ∃ t' k tried', w.sendable t' = some k ∧ Chosen w preferred t' tried' ∧
          w.handOff c fuel throws tried t = w.sendConn c t' k tried' := by
  intro fuel
  induction fuel with
  | zero => exact fun _ _ _ _ => .inl rfl
  | succ fuel ih =>
    intro throws tried t hchosen
    simp only [World.handOff]
    split
    · next k hk _ => exact .inr ⟨t, k, tried, hk, hchosen, rfl⟩
    · split
      · next next hnext => exact ih _ _ _ (.inr ⟨List.cons_ne_nil _ _, hnext⟩)
      · exact .inl rfl

/-- The rest of `route` refuses the connection or sends it to one worker; only the pins change
besides. -/
theorem routeTo_cases (cfg : Config) (w : World) (c : ℕ) (sessionId : Option String)
    (throws : List Bool) :
    ∃ pins, w.routeTo cfg c sessionId throws = { w with pins }.refuse c ∨
      ∃ preferred t k tried, (cfg.policy.pick w.pins w.views sessionId).1 = some preferred ∧
        Chosen w preferred t tried ∧ w.sendable t = some k ∧
        w.routeTo cfg c sessionId throws = { w with pins }.sendConn c t k tried := by
  refine ⟨(cfg.policy.pick w.pins w.views sessionId).2, ?_⟩
  unfold World.routeTo
  cases hpick : cfg.policy.pick w.pins w.views sessionId with
  | mk chosen pins =>
    cases chosen with
    | none => exact .inl rfl
    | some preferred =>
      have hcases := handOff_cases (w := { w with pins }) c preferred (w.table.length + 2) throws
        [] preferred (.inl ⟨rfl, rfl⟩)
      rcases hcases with hrefused | ⟨t, k, tried, hk, hchosen, hsent⟩
      · exact .inl hrefused
      · exact .inr ⟨preferred, t, k, tried, rfl, hchosen, hk, hsent⟩

/-! ## Steps that hand off -/

/-- The session id by which an action routes. -/
def Action.sessionId : Action → Option String
  | .headRead _ (.read sessionId) _ => sessionId
  | _ => none

/-- A connection with these requests has been accepted. -/
def World.arrived (w : World) (requests : List Bool) : World :=
  { w with conns := w.conns ++ [⟨.reading, requests.map fun turn => ⟨turn, true⟩, 0⟩] }

/-- When an action may route a connection: a new one that is admitted and whose head is not needed,
or one whose head was read. -/
inductive Routes (cfg : Config) (w : World) : Action → ℕ → World → Prop where
  | connect (requests throws : List Bool) (accepting : w.accepting = true)
      (admitted : isSaturated w.views cfg.turnsPerWorker = false)
      (needsHead : cfg.policy.needsHead = false) :
      Routes cfg w (.connect requests throws) w.conns.length (w.arrived requests)
  | headRead (c : ℕ) (sessionId : Option String) (throws : List Bool)
      (reading : ∃ conn, w.conns[c]? = some conn ∧ conn.place = .reading) :
      Routes cfg w (.headRead c (.read sessionId) throws) c w

/-- The step hands connection `c` to process `k`, which stands in place `t`; `w₀` is the state in
which it is routed, save for the pins. -/
structure HandsOff (cfg : Config) (w : World) (a : Action) (w₀ w' : World) (c t k : ℕ)
    (tried : List ℕ) : Prop where
  routes : Routes cfg w a c w₀
  chosen : ∃ preferred, (cfg.policy.pick w.pins w.views a.sessionId).1 = some preferred ∧
    Chosen w preferred t tried
  sendable : w.sendable t = some k
  result : ∃ pins, w' = { w₀ with pins }.sendConn c t k tried

/-- A step that routes a connection without handing it off refuses it. -/
def Refuses (w : World) (a : Action) (w' : World) : Prop :=
  (∃ requests throws pins, a = .connect requests throws ∧
    w' = { w.arrived requests with pins }.refuse w.conns.length) ∨
  ∃ c outcome throws pins, a = .headRead c outcome throws ∧
    (∃ conn, w.conns[c]? = some conn ∧ conn.place = .reading) ∧ w' = { w with pins }.refuse c

theorem any_reading {c : ℕ} (h : ((w.conns[c]?).any fun conn => conn.place = .reading) = true) :
    ∃ conn, w.conns[c]? = some conn ∧ conn.place = .reading := by
  cases hc : w.conns[c]? with
  | none =>
    rw [hc] at h
    cases h
  | some conn =>
    rw [hc, Option.any_some, decide_eq_true_eq] at h
    exact ⟨conn, rfl, h⟩

theorem connect_cases {requests throws : List Bool}
    (h : step cfg w (.connect requests throws) = some w') :
    Refuses w (.connect requests throws) w' ∨
      cfg.policy.needsHead = true ∧ w.accepting = true ∧ w' = w.arrived requests ∨
      ∃ t k tried, HandsOff cfg w (.connect requests throws) (w.arrived requests) w'
        w.conns.length t k tried := by
  simp only [step] at h
  split at h
  · next haccepting =>
    have hw' := Option.some.inj h
    unfold World.connect at hw'
    dsimp only at hw'
    split at hw'
    · exact .inl (.inl ⟨requests, throws, w.pins, rfl, hw'.symm⟩)
    · next hadmitted =>
      rw [Bool.not_eq_true] at hadmitted
      split at hw'
      · next hneeds => exact .inr (.inl ⟨hneeds, haccepting, hw'.symm⟩)
      · next hneeds =>
        rw [Bool.not_eq_true] at hneeds
        obtain ⟨pins, hrefused | ⟨preferred, t, k, tried, hpick, hchosen, hk, hsent⟩⟩ :=
          routeTo_cases cfg (w.arrived requests) w.conns.length none throws
        · exact .inl (.inl ⟨requests, throws, pins, rfl, hw'.symm.trans hrefused⟩)
        · exact .inr (.inr ⟨t, k, tried,
            { routes := .connect requests throws haccepting hadmitted hneeds
              chosen := ⟨preferred, hpick, hchosen⟩
              sendable := hk
              result := ⟨pins, hw'.symm.trans hsent⟩ }⟩)
  · cases h

theorem headRead_cases {c : ℕ} {outcome : HeadRead} {throws : List Bool}
    (h : step cfg w (.headRead c outcome throws) = some w') :
    (∃ conn, w.conns[c]? = some conn ∧ conn.place = .reading) ∧
      (Refuses w (.headRead c outcome throws) w' ∨
        ∃ t k tried, HandsOff cfg w (.headRead c outcome throws) w w' c t k tried) := by
  simp only [step] at h
  cases outcome with
  | closed =>
    simp only [World.finishRead] at h
    split at h
    · next hreading =>
      have hconn := any_reading hreading
      refine ⟨hconn, .inl (.inr ⟨c, .closed, throws, w.pins, rfl, hconn, ?_⟩)⟩
      exact (Option.some.inj h).symm
    · cases h
  | read sessionId =>
    simp only [World.finishRead] at h
    split at h
    · next hreading =>
      have hconn := any_reading hreading
      refine ⟨hconn, ?_⟩
      have hw' := (Option.some.inj h).symm
      obtain ⟨pins, hrefused | ⟨preferred, t, k, tried, hpick, hchosen, hk, hsent⟩⟩ :=
        routeTo_cases cfg w c sessionId throws
      · exact .inl (.inr ⟨c, .read sessionId, throws, pins, rfl, hconn, hw'.trans hrefused⟩)
      · exact .inr ⟨t, k, tried,
          { routes := .headRead c sessionId throws hconn
            chosen := ⟨preferred, hpick, hchosen⟩
            sendable := hk
            result := ⟨pins, hw'.trans hsent⟩ }⟩
    · cases h

end ServerlessHarness.Supervisor
