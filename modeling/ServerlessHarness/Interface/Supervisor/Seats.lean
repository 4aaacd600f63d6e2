import ServerlessHarness.Interface.Supervisor.Moves

/-!
# Places and connections

Every process that has not exited stands in its place, and a place waits for a new process only
after the one in it exited (`Seated`). A connection that was handed to a process names one that was
forked (`Homed`), and where no head is read no connection waits (`NoneReading`).
-/

set_option autoImplicit false

namespace ServerlessHarness.Supervisor

open Library

variable {cfg : Config} {w w' : World} {a : Action}

/-! ## Connections -/

/-- Where the place of a connection comes from: it was refused, handed off, it waits for its head,
or it is the place of the connection before the step, up to the stage of its service. -/
def PlaceFrom (cfg : Config) (w : World) (place : Place) : Prop :=
  place = .gone ∨ (∃ k < w.workers.length, place = .handed k) ∨
    (cfg.policy.needsHead = true ∧ place = .reading) ∨
    ∃ conn ∈ w.conns, place.worker = conn.place.worker ∧
      (place = .reading → conn.place = .reading)

theorem placeFrom_old {conn : Conn} (h : conn ∈ w.conns) : PlaceFrom cfg w conn.place :=
  .inr (.inr (.inr ⟨conn, h, rfl, id⟩))

variable {f : Conn → Conn}

theorem placeFrom_modify {conns : List Conn} {c : ℕ}
    (hold : ∀ conn ∈ conns, PlaceFrom cfg w conn.place)
    (hnew : ∀ conn, conns[c]? = some conn → PlaceFrom cfg w (f conn).place) :
    ∀ conn ∈ conns.modify c f, PlaceFrom cfg w conn.place := by
  intro conn hconn
  rcases mem_modify hconn with hmem | ⟨old, hold', rfl⟩
  · exact hold conn hmem
  · exact hnew old hold'

theorem placeFrom_keep {c : ℕ} (hf : ∀ conn, (f conn).place = conn.place) :
    ∀ conn ∈ w.conns.modify c f, PlaceFrom cfg w conn.place := by
  refine placeFrom_modify (fun conn => placeFrom_old) ?_
  intro conn hconn
  rw [hf]
  exact placeFrom_old (List.mem_of_getElem? hconn)

theorem placeFrom_concat {conn₀ : Conn} (hf : PlaceFrom cfg w (f conn₀).place) :
    ∀ conn ∈ (w.conns ++ [conn₀]).modify w.conns.length f, PlaceFrom cfg w conn.place := by
  rw [modify_concat]
  exact forall_mem_concat (fun conn hconn => placeFrom_old hconn) hf

theorem placeFrom_arrive {conn : Conn} (k : ℕ) (handle : Bool) (h : conn ∈ w.conns) :
    PlaceFrom cfg w (conn.arrive k handle).place := by
  unfold Conn.arrive
  split
  · next hplace =>
    cases handle with
    | true =>
      refine .inr (.inr (.inr ⟨conn, h, ?_, nofun⟩))
      rw [hplace]
      rfl
    | false => exact .inl rfl
  · exact placeFrom_old h

theorem onMessage_conns (k : ℕ) (m : FromWorker) : (w.onMessage k m).conns = w.conns := by
  cases m with
  | ready | draining => rfl
  | load n => exact notifyIfIdle_conns

theorem onExit_conns (k id : ℕ) : (w.onExit k id).conns = w.conns := by
  unfold World.onExit
  dsimp only
  split <;> exact notifyIfIdle_conns

theorem awaitIdle_conns : w.awaitIdle.conns = w.conns := by
  unfold World.awaitIdle
  split <;> rfl

theorem step_places (h : step cfg w a = some w') : ∀ conn ∈ w'.conns,
    PlaceFrom cfg w conn.place := by
  have hold : ∀ conn ∈ w.conns, PlaceFrom cfg w conn.place := fun conn => placeFrom_old
  cases step_moves h with
  | refuses hrefused =>
    rcases hrefused with ⟨requests, _, _, _, rfl⟩ | ⟨_, _, _, _, _, _, rfl⟩
    · exact placeFrom_concat (.inl rfl)
    · exact placeFrom_modify hold fun _ _ => .inl rfl
  | waits requests throws accepting needsHead =>
    exact forall_mem_concat hold (.inr (.inr (.inl ⟨needsHead, rfl⟩)))
  | handsOff hoff =>
    have hk : ∀ t k, w.sendable t = some k → k < w.workers.length := by
      intro t k hsendable
      obtain ⟨_, wk, hwk, _⟩ := sendable_eq_some hsendable
      exact lt_of_slot hwk
    have hlt := hk _ _ hoff.sendable
    obtain ⟨pins, rfl⟩ := hoff.result
    cases hoff.routes with
    | connect requests throws accepting admitted needsHead =>
      exact placeFrom_concat (.inr (.inl ⟨_, hlt, rfl⟩))
    | headRead c sessionId throws reading =>
      exact placeFrom_modify hold fun _ _ => .inr (.inl ⟨_, hlt, rfl⟩)
  | sends c conn turn early found place =>
    refine placeFrom_keep (w := w) (c := c) ?_
    intro conn
    rfl
  | takes k wk c inbox handle found inbox_eq =>
    exact placeFrom_modify hold fun old hmem =>
      placeFrom_arrive k handle (List.mem_of_getElem? hmem)
  | starts c k conn wk r unread found place unread_eq turn server =>
    refine placeFrom_keep (w := w) (c := c) ?_
    intro conn
    rfl
  | skips c conn r unread found unread_eq =>
    refine placeFrom_keep (w := w) (c := c) ?_
    intro conn
    rfl
  | ends c k conn wk found place server running =>
    refine placeFrom_keep (w := w) (c := c) ?_
    intro conn
    rfl
  | shuts c k conn wk found place server =>
    refine placeFrom_modify hold fun old hmem => ?_
    refine .inr (.inr (.inr ⟨old, List.mem_of_getElem? hmem, ?_, nofun⟩))
    have heq : old = conn := Option.some.inj (hmem.symm.trans found)
    rw [heq, place]
    rfl
  | hears k wk m outbox found outbox_eq =>
    rw [onMessage_conns]
    exact hold
  | exits k wk found alive exited =>
    rw [onExit_conns]
    exact hold
  | awaits =>
    rw [awaitIdle_conns]
    exact hold
  | _ => exact hold

/-- Where no head is read no connection waits. -/
def NoneReading (cfg : Config) (w : World) : Prop :=
  cfg.policy.needsHead = false → ∀ conn ∈ w.conns, conn.place ≠ .reading

theorem noneReading (h : Reachable (supervisor cfg) w) : NoneReading cfg w := by
  refine Reachable.invariant (P := NoneReading cfg) ?_ ?_ h
  · rintro _ ⟨n, rfl⟩ _ conn hconn
    cases hconn
  · rintro s t _ hs ⟨a, ha⟩ hneeds conn hconn hplace
    rcases step_places ha conn hconn with hgone | ⟨k, _, hk⟩ | ⟨hyes, _⟩ | ⟨old, hold, _, hreading⟩
    · rw [hplace] at hgone
      cases hgone
    · rw [hplace] at hk
      cases hk
    · rw [hneeds] at hyes
      cases hyes
    · exact hs hneeds old hold (hreading hplace)

end ServerlessHarness.Supervisor
