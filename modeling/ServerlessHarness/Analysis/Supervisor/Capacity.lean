import ServerlessHarness.Interface.Supervisor.Seats

/-!
# Hand-offs and the cap on turns in flight

Admission looks at the whole pool: a connection is refused only if every healthy worker is at the
cap. Which worker takes it is decided later, and from other views: a session goes to the worker it
is pinned to, a head is read meanwhile, and a worker that cannot be sent to is replaced by the
least loaded of the rest. So a hand-off can raise an estimate above the cap
(`pinned_session_exceeds_cap`), but only in these cases (`handoff_above_cap_cases`).
-/

set_option autoImplicit false

namespace ServerlessHarness.Supervisor

open Library

variable {cfg : Config} {w w' : World} {a : Action}

/-- The supervisor's estimate for the worker in a place. -/
def World.estimate (w : World) (id : ℕ) : ℕ :=
  ((w.table[id]?).bind fun k => w.workers[k]?).elim 0 Worker.inFlight

theorem estimate_eq {id k : ℕ} {wk : Worker} (hk : w.table[id]? = some k)
    (hwk : w.workers[k]? = some wk) : w.estimate id = wk.inFlight := by
  simp [World.estimate, hk, hwk]

theorem estimate_of_view {v : WorkerView} (h : v ∈ w.views) : w.estimate v.id = v.inFlight := by
  obtain ⟨k, wk, hk, hwk, hin⟩ := mem_views h
  rw [estimate_eq hk hwk, hin]

/-- A hand-off adds one to the estimate of its target. -/
theorem HandsOff.estimate {w₀ : World} {c t k : ℕ} {tried : List ℕ}
    (h : HandsOff cfg w a w₀ w' c t k tried) : w'.estimate t = w.estimate t + 1 := by
  obtain ⟨hk, wk, hwk, _⟩ := sendable_eq_some h.sendable
  have hold := estimate_eq hk hwk
  obtain ⟨pins, rfl⟩ := h.result
  have hsame : w₀.table = w.table ∧ w₀.workers = w.workers := by
    cases h.routes <;> exact ⟨rfl, rfl⟩
  have hnew : ({ w₀ with pins }.sendConn c t k tried).workers[k]? =
      some { wk with inFlight := wk.inFlight + 1, inbox := wk.inbox ++ [.conn c] } := by
    show (w₀.workers.modify k _)[k]? = _
    rw [hsame.2]
    exact slot_modify_self hwk
  rw [hold]
  refine estimate_eq ?_ hnew
  show w₀.table[t]? = some k
  rw [hsame.1]
  exact hk

/-- The least loaded of some workers is below the cap, or none of the healthy ones is. -/
theorem pickLeastLoaded_below {views : List WorkerView} {t : ℕ} (hviews : ∀ v ∈ views, v ∈ w.views)
    (h : pickLeastLoaded views = some t) (cap : ℕ) :
    w.estimate t + 1 ≤ cap ∨ ∀ v ∈ views, v.healthy = true → cap ≤ v.inFlight := by
  obtain ⟨v, hv, rfl, _, hleast⟩ := pickLeastLoaded_spec h
  rw [estimate_of_view (hviews v hv)]
  by_cases hcap : v.inFlight + 1 ≤ cap
  · exact .inl hcap
  · right
    intro u hu hhealthy
    have hle := hleast u hu hhealthy
    omega

/-- No healthy worker that was not tried is below the cap. -/
def World.allAtCap (w : World) (cap : ℕ) (tried : List ℕ) : Prop :=
  ∀ v ∈ w.views, v.healthy = true → v.id ∉ tried → cap ≤ v.inFlight

theorem not_saturated {cap : ℕ} (h : isSaturated w.views cap = false) : ¬w.allAtCap cap [] := by
  intro hall
  simp only [isSaturated, Bool.not_eq_false', List.any_eq_true, Bool.and_eq_true,
    decide_eq_true_eq] at h
  obtain ⟨v, hv, hhealthy, hlt⟩ := h
  have hle := hall v hv hhealthy List.not_mem_nil
  omega

/-- In every run a step that hands a connection off adds one to the estimate of the worker that
takes it. The estimate stays within the cap, unless the session is pinned to that worker, or no
healthy worker that was not tried before is below the cap; under `leastInFlight` the last happens
only after some worker was tried in vain. -/
theorem handoff_above_cap_cases (cfg : Config) (w w' : World) (a : Action) (c t : ℕ)
    (tried : List ℕ) (h : Reachable (supervisor cfg) w) (hstep : step cfg w a = some w')
    (hlog : w'.log = w.log ++ [.handedOff c t tried]) :
    w'.estimate t = w.estimate t + 1 ∧
      (w'.estimate t ≤ cfg.turnsPerWorker ∨
        (cfg.policy ≠ .leastInFlight ∧ tried = [] ∧
          ∃ sid, a.sessionId = some sid ∧ w.pins.get sid = some t) ∨
        ((cfg.policy ≠ .leastInFlight ∨ tried ≠ []) ∧
          w.allAtCap cfg.turnsPerWorker tried)) := by
  have hoff : ∃ w₀ k, HandsOff cfg w a w₀ w' c t k tried := by
    rcases step_flags hstep with ⟨w₀, c', t', k, tried', hoff⟩ | hflags | ⟨_, rfl⟩
    · have hevent := congrArg Prod.fst hoff.flags_eq
      rw [show w'.flags.1 = w'.log from rfl, hlog] at hevent
      cases List.append_cancel_left hevent
      exact ⟨w₀, k, hoff⟩
    · have hsame := congrArg Prod.fst hflags
      rw [show w'.flags.1 = w'.log from rfl, hlog] at hsame
      simp [World.flags] at hsame
    · cases List.append_cancel_left hlog
  obtain ⟨w₀, k, hoff⟩ := hoff
  refine ⟨hoff.estimate, ?_⟩
  rw [hoff.estimate]
  obtain ⟨preferred, hpick, hchosen⟩ := hoff.chosen
  rcases hchosen with ⟨rfl, rfl⟩ | ⟨hne, hleast⟩
  · rcases pick_spec hpick with hleast | ⟨hpolicy, hpinned⟩
    · rcases pickLeastLoaded_below (fun v hv => hv) hleast cfg.turnsPerWorker with hcap | hall
      · exact .inl hcap
      · have hfull : w.allAtCap cfg.turnsPerWorker [] := fun v hv hhealthy _ => hall v hv hhealthy
        refine .inr (.inr ⟨.inl ?_, hfull⟩)
        intro hpolicy
        -- A connection routed at once was admitted in this very state.
        cases hoff.routes with
        | connect requests throws accepting admitted needsHead =>
          exact not_saturated admitted hfull
        | headRead c sessionId throws reading =>
          obtain ⟨conn, hconn, hplace⟩ := reading
          refine noneReading h ?_ conn (List.mem_of_getElem? hconn) hplace
          rw [hpolicy]
          rfl
    · exact .inr (.inl ⟨hpolicy, rfl, hpinned⟩)
  · have hsub : ∀ v ∈ w.views.filter (fun v => v.id ∉ tried), v ∈ w.views :=
      fun v hv => List.mem_of_mem_filter hv
    rcases pickLeastLoaded_below hsub hleast cfg.turnsPerWorker with hcap | hall
    · exact .inl hcap
    · refine .inr (.inr ⟨.inr hne, ?_⟩)
      intro v hv hhealthy htried
      exact hall v (List.mem_filter.mpr ⟨hv, decide_eq_true htried⟩) hhealthy

/-- Two ready workers, of which the first has a connection. -/
def firstTaken : List Action :=
  [.boot 0, .message 0, .boot 1, .message 1, .connect [true] []]

/-- With a cap of one turn the free worker is tried in vain, and the other goes above the cap. -/
theorem handoff_above_cap_cases_retried :
    ∃ w w', Reachable (supervisor ⟨.leastInFlight, 1⟩) w ∧
      step ⟨.leastInFlight, 1⟩ w (.connect [true] [true]) = some w' ∧
      w'.estimate 0 = w.estimate 0 + 1 ∧ w'.estimate 0 = 2 ∧ w.allAtCap 1 [1] := by
  have hinit : World.initial (World.start 2) := ⟨2, rfl⟩
  obtain ⟨w, w', hw, hstep, hnext⟩ :
      ∃ w w', Reachable (supervisor ⟨.leastInFlight, 1⟩) w ∧
        step ⟨.leastInFlight, 1⟩ w (.connect [true] [true]) = some w' ∧
        decide (w'.log = w.log ++ [.handedOff 1 0 [1]] ∧ w'.estimate 0 = 2) = true :=
    exists_step_of_runActions hinit firstTaken _ _ (by decide +kernel)
  obtain ⟨hlog, htwo⟩ := of_decide_eq_true hnext
  obtain ⟨hone, hcases⟩ := handoff_above_cap_cases _ w w' _ 1 0 [1] hw hstep hlog
  refine ⟨w, w', hw, hstep, hone, htwo, ?_⟩
  rcases hcases with hle | ⟨hpolicy, _⟩ | ⟨_, hall⟩
  · rw [htwo] at hle
    exact absurd hle (by decide)
  · exact absurd rfl hpolicy
  · exact hall

/-- Two ready workers, a first connection of session `s`, and a second one that waits for its
head. -/
def pinSession : List Action :=
  [.boot 0, .message 0, .boot 1, .message 1, .connect [true] [],
    .headRead 0 (.read (some "s")) [], .connect [true] []]

/-- With a cap of one turn the second connection of a pinned session is admitted, as the other
worker is free, and raises the estimate of the session's worker to two. -/
theorem pinned_session_exceeds_cap :
    ∃ w w', Reachable (supervisor ⟨.stickyBySession 10000, 1⟩) w ∧
      step ⟨.stickyBySession 10000, 1⟩ w (.headRead 1 (.read (some "s")) []) = some w' ∧
      w'.log = w.log ++ [.handedOff 1 0 []] ∧ w.estimate 0 = 1 ∧ w'.estimate 0 = 2 := by
  have hinit : World.initial (World.start 2) := ⟨2, rfl⟩
  obtain ⟨w, w', hw, hstep, hnext⟩ :
      ∃ w w', Reachable (supervisor ⟨.stickyBySession 10000, 1⟩) w ∧
        step ⟨.stickyBySession 10000, 1⟩ w (.headRead 1 (.read (some "s")) []) = some w' ∧
        decide (w'.log = w.log ++ [.handedOff 1 0 []] ∧ w.estimate 0 = 1 ∧
          w'.estimate 0 = 2) = true :=
    exists_step_of_runActions hinit pinSession _ _ (by decide +kernel)
  exact ⟨w, w', hw, hstep, of_decide_eq_true hnext⟩

end ServerlessHarness.Supervisor
