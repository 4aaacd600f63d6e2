import ServerlessHarness.Interface.Supervisor.Seats

/-!
# Connections after the drain

`drainAll` tells every worker to drain, but takes no worker out of the routing set: a worker leaves
it when its answer arrives. The shutdown stops accepting connections in the same breath, so none
that arrives later is routed; one whose head is still being read is, and it can be handed to a
worker whose answer is on the way (`connection_handed_off_after_drain`). None is if heads are read
to their end only once no worker is left in the set, and none ever is where no head is read.
-/

set_option autoImplicit false

namespace ServerlessHarness.Supervisor

open Library

variable {cfg : Config} {w w' : World} {a : Action}

/-! ## After the drain nothing is accepted -/

def Event.isHandOff : Event → Bool
  | .handedOff _ _ _ => true
  | .drained => false

/-- Nothing was handed off after a drain. -/
def QuietAfterDrain (log : List Event) : Prop :=
  ∀ before after, log = before ++ .drained :: after → ∀ e ∈ after, e.isHandOff = false

/-- Once the pool is drained, the supervisor no longer accepts. -/
def ClosedByDrain (w : World) : Prop :=
  .drained ∈ w.log → w.shuttingDown = true ∧ w.accepting = false

theorem QuietAfterDrain.concat {log : List Event} {e : Event} (h : QuietAfterDrain log)
    (he : .drained ∈ log → e.isHandOff = false) : QuietAfterDrain (log ++ [e]) := by
  intro before after hsplit x hx
  rcases split_append_singleton hsplit with ⟨_, _, rfl⟩ | ⟨rest, rfl, hlog⟩
  · cases hx
  · rcases List.mem_append.mp hx with hx | hx
    · exact h before rest hlog x hx
    · rw [List.mem_singleton.mp hx]
      apply he
      rw [hlog]
      exact List.mem_append_right _ List.mem_cons_self

theorem flags_eq_iff : w'.flags = w.flags ↔
    w'.log = w.log ∧ w'.accepting = w.accepting ∧ w'.shuttingDown = w.shuttingDown := by
  simp only [World.flags, Prod.mk.injEq]

theorem HandsOff.log_eq {w₀ : World} {c t k : ℕ} {tried : List ℕ}
    (h : HandsOff cfg w a w₀ w' c t k tried) :
    w'.log = w.log ++ [.handedOff c t tried] ∧ w'.accepting = w.accepting ∧
      w'.shuttingDown = w.shuttingDown := by
  have hflags := h.flags_eq
  simp only [World.flags, Prod.mk.injEq] at hflags
  exact hflags

theorem closedByDrain_step (h : step cfg w a = some w') (hw : ClosedByDrain w) :
    ClosedByDrain w' := by
  intro hmem
  rcases step_flags h with ⟨w₀, c, t, k, tried, hoff⟩ | hflags | ⟨_, rfl⟩
  · obtain ⟨hlog, haccepting, hshutting⟩ := hoff.log_eq
    rw [hlog, List.mem_append, List.mem_singleton] at hmem
    rw [haccepting, hshutting]
    rcases hmem with hmem | hnew
    · exact hw hmem
    · cases hnew
  · obtain ⟨hlog, haccepting, hshutting⟩ := flags_eq_iff.mp hflags
    rw [hlog] at hmem
    rw [haccepting, hshutting]
    exact hw hmem
  · exact ⟨rfl, rfl⟩

theorem closedByDrain (h : Reachable (supervisor cfg) w) : ClosedByDrain w := by
  refine Reachable.invariant (P := ClosedByDrain) ?_ ?_ h
  · rintro _ ⟨n, rfl⟩ hmem
    cases hmem
  · rintro s t _ hs ⟨a, ha⟩
    exact closedByDrain_step ha hs

/-! ## Heads that are read to their end after the drain -/

/-- No worker can be sent a socket. -/
def World.noneSendable (w : World) : Bool :=
  w.table.all fun k => (w.workers[k]?).all fun wk => !(wk.healthy && wk.connected)

theorem sendable_eq_none (h : w.noneSendable = true) (t : ℕ) : w.sendable t = none := by
  cases hs : w.sendable t with
  | none => rfl
  | some k =>
    obtain ⟨hk, wk, hwk, hhealthy, hconnected⟩ := sendable_eq_some hs
    have hall := List.all_eq_true.mp h k (List.mem_of_getElem? hk)
    rw [hwk, Option.all_some, hhealthy, hconnected] at hall
    cases hall

/-- A head is read to its end during the shutdown only once no worker can be sent a socket: each has
answered that it drains, has exited, or has lost its channel. -/
def readsBeforeDrain (w : World) : Action → Bool
  | .headRead _ (.read _) _ => !w.shuttingDown || w.noneSendable
  | _ => true

def calmShutdowns (cfg : Config) : TransitionSystem World :=
  .ofStep World.initial (guarded readsBeforeDrain (step cfg))

/-- A step that hands off after the drain ends the reading of a head, while some worker can be sent
a socket. -/
theorem HandsOff.after_drain {w₀ : World} {c t k : ℕ} {tried : List ℕ}
    (h : HandsOff cfg w a w₀ w' c t k tried) (hw : ClosedByDrain w) (hmem : .drained ∈ w.log) :
    readsBeforeDrain w a = false ∧ ∃ conn ∈ w.conns, conn.place = .reading := by
  obtain ⟨hshutting, hclosed⟩ := hw hmem
  have hsendable := h.sendable
  cases h.routes with
  | connect requests throws accepting admitted needsHead =>
    rw [hclosed] at accepting
    cases accepting
  | headRead c sessionId throws reading =>
    obtain ⟨conn, hconn, hplace⟩ := reading
    refine ⟨?_, conn, List.mem_of_getElem? hconn, hplace⟩
    have hnone : w.noneSendable = false := by
      rw [← Bool.not_eq_true]
      intro hnone
      rw [sendable_eq_none hnone] at hsendable
      cases hsendable
    simp [readsBeforeDrain, hshutting, hnone]

/-- A step keeps the log quiet after the drain, unless it hands off then. -/
theorem quiet_step (h : step cfg w a = some w') (hquiet : QuietAfterDrain w.log)
    (hno : ∀ w₀ c t k tried, HandsOff cfg w a w₀ w' c t k tried → .drained ∉ w.log) :
    QuietAfterDrain w'.log := by
  rcases step_flags h with ⟨w₀, c, t, k, tried, hoff⟩ | hflags | ⟨_, rfl⟩
  · rw [hoff.log_eq.1]
    apply hquiet.concat
    intro hmem
    exact absurd hmem (hno w₀ c t k tried hoff)
  · rw [(flags_eq_iff.mp hflags).1]
    exact hquiet
  · exact hquiet.concat fun _ => rfl

/-- In every run in which heads are read to their end during the shutdown only once no worker can
be sent a socket, nothing is handed off after the drain; and in every run at all, if the policy
reads no heads. -/
theorem no_handoff_after_drain (cfg : Config) (w : World) :
    (Reachable (calmShutdowns cfg) w → QuietAfterDrain w.log) ∧
      (cfg.policy = .leastInFlight → Reachable (supervisor cfg) w → QuietAfterDrain w.log) := by
  have hstart : ∀ s, World.initial s → QuietAfterDrain s.log := by
    rintro _ ⟨n, rfl⟩ before after hsplit
    cases before <;> cases hsplit
  constructor
  · intro h
    refine Reachable.invariant (P := fun w => QuietAfterDrain w.log) hstart ?_ h
    rintro s t hs hquiet ⟨a, ha⟩
    obtain ⟨hguard, hstep⟩ := guarded_eq_some.mp ha
    refine quiet_step hstep hquiet ?_
    intro w₀ c p k tried hoff hmem
    have hafter := hoff.after_drain (closedByDrain hs.of_guarded) hmem
    rw [hguard] at hafter
    cases hafter.1
  · intro hpolicy h
    refine Reachable.invariant (P := fun w => QuietAfterDrain w.log) hstart ?_ h
    rintro s t hs hquiet ⟨a, hstep⟩
    refine quiet_step hstep hquiet ?_
    intro w₀ c p k tried hoff hmem
    obtain ⟨_, conn, hconn, hreading⟩ := hoff.after_drain (closedByDrain hs) hmem
    refine noneReading hs ?_ conn hconn hreading
    rw [hpolicy]
    rfl

/-- One connection is handed off before the drain; the head of another is read after it, when the
worker has answered. -/
def readAfterAnswer : List Action :=
  [.boot 0, .message 0, .connect [true] [], .headRead 0 (.read none) [], .connect [true] [], .close,
    .receive 0 true, .receive 0 true, .message 0, .message 0, .headRead 1 (.read none) []]

/-- A head is read to its end after the worker has answered. -/
theorem no_handoff_after_drain_answered :
    ∃ w, Reachable (calmShutdowns ⟨.stickyBySession 10000, 4⟩) w ∧
      w.log = [.handedOff 0 0 [], .drained] ∧ QuietAfterDrain w.log := by
  have hinit : World.initial (World.start 1) := ⟨1, rfl⟩
  obtain ⟨w, hw, hlog⟩ :
      ∃ w, Reachable (calmShutdowns ⟨.stickyBySession 10000, 4⟩) w ∧
        decide (w.log = [.handedOff 0 0 [], .drained]) = true :=
    exists_reachable_of_runActions hinit readAfterAnswer _ (by decide +kernel)
  exact ⟨w, hw, of_decide_eq_true hlog, (no_handoff_after_drain _ w).1 hw⟩

/-- A worker that is ready for connections, and a connection whose head is read across the drain. -/
def readAcrossDrain : List Action :=
  [.boot 0, .message 0, .connect [true] [], .close, .headRead 0 (.read (some "s")) []]

/-- The head of a connection is read to its end after the drain, before the worker's answer: the
connection is handed to the draining worker. -/
theorem connection_handed_off_after_drain :
    ∃ w, Reachable (supervisor ⟨.stickyBySession 10000, 4⟩) w ∧
      w.log = [.drained, .handedOff 0 0 []] := by
  have hinit : World.initial (World.start 1) := ⟨1, rfl⟩
  obtain ⟨w, hw, hlog⟩ :
      ∃ w, Reachable (supervisor ⟨.stickyBySession 10000, 4⟩) w ∧
        decide (w.log = [.drained, .handedOff 0 0 []]) = true :=
    exists_reachable_of_runActions hinit readAcrossDrain _ (by decide +kernel)
  exact ⟨w, hw, of_decide_eq_true hlog⟩

end ServerlessHarness.Supervisor
