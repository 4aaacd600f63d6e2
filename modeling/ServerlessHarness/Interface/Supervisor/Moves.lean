import ServerlessHarness.Interface.Supervisor.Handoff

/-!
# What a step of the supervisor's system can do

`Move` lists the ways in which a step changes the state, with what it found; `step_moves` is the
one place where the step function is unfolded. Which steps touch the log and the flags of the
shutdown is read off it (`step_flags`).
-/

set_option autoImplicit false

namespace ServerlessHarness.Supervisor

variable {cfg : Config} {w w' : World} {a : Action}

inductive Move (cfg : Config) (w : World) : Action → World → Prop where
  | refuses {a : Action} {w' : World} (h : Refuses w a w') : Move cfg w a w'
  | waits (requests throws : List Bool) (accepting : w.accepting = true)
      (needsHead : cfg.policy.needsHead = true) :
      Move cfg w (.connect requests throws) (w.arrived requests)
  | handsOff {a : Action} {w₀ w' : World} {c t k : ℕ} {tried : List ℕ}
      (h : HandsOff cfg w a w₀ w' c t k tried) : Move cfg w a w'
  | sends (c : ℕ) (conn : Conn) (turn early : Bool) (found : w.conns[c]? = some conn)
      (place : early = true → conn.place = .reading) :
      Move cfg w (.send c turn)
        (w.onConn c fun conn => { conn with unread := conn.unread ++ [⟨turn, early⟩] })
  | boots (k : ℕ) :
      Move cfg w (.boot k) (w.onWorker k fun wk =>
        { wk with booted := true, outbox := wk.outbox ++ [.ready] })
  | takes (k : ℕ) (wk : Worker) (c : ℕ) (inbox : List ToWorker) (handle : Bool)
      (found : w.workers[k]? = some wk) (inbox_eq : wk.inbox = .conn c :: inbox) :
      Move cfg w (.receive k handle)
        ((w.onWorker k fun wk => { wk with inbox }.report).onConn c (Conn.arrive k handle))
  | takesDrain (k : ℕ) (wk : Worker) (inbox : List ToWorker) (handle : Bool)
      (found : w.workers[k]? = some wk) (inbox_eq : wk.inbox = .drain :: inbox) :
      Move cfg w (.receive k handle) (w.onWorker k fun wk =>
        if wk.draining then { wk with inbox }
        else { wk with inbox, draining := true, outbox := wk.outbox ++ [.draining] })
  | starts (c k : ℕ) (conn : Conn) (wk : Worker) (r : Request) (unread : List Request)
      (found : w.conns[c]? = some conn) (place : conn.place = .served k)
      (unread_eq : conn.unread = r :: unread) (turn : r.turn = true)
      (server : w.server k = some wk) :
      Move cfg w (.parse c)
        ((w.onWorker k fun wk => { wk with turns := wk.turns + 1 }.report).onConn c fun conn =>
          { conn with unread, running := conn.running + 1 })
  | skips (c : ℕ) (conn : Conn) (r : Request) (unread : List Request)
      (found : w.conns[c]? = some conn) (unread_eq : conn.unread = r :: unread) :
      Move cfg w (.parse c) (w.onConn c fun conn => { conn with unread })
  | ends (c k : ℕ) (conn : Conn) (wk : Worker) (found : w.conns[c]? = some conn)
      (place : conn.place.worker = some k) (server : w.server k = some wk)
      (running : 0 < conn.running) :
      Move cfg w (.endTurn c)
        ((w.onWorker k fun wk => { wk with turns := wk.turns - 1 }.report).onConn c fun conn =>
          { conn with running := conn.running - 1 })
  | shuts (c k : ℕ) (conn : Conn) (wk : Worker) (found : w.conns[c]? = some conn)
      (place : conn.place = .served k) (server : w.server k = some wk) :
      Move cfg w (.closeConn c)
        ((w.onWorker k Worker.report).onConn c fun conn =>
          { conn with place := .shut k, unread := [] })
  | hears (k : ℕ) (wk : Worker) (m : FromWorker) (outbox : List FromWorker)
      (found : w.workers[k]? = some wk) (outbox_eq : wk.outbox = m :: outbox) :
      Move cfg w (.message k) ((w.onWorker k fun wk => { wk with outbox }).onMessage k m)
  | dies (k : ℕ) : Move cfg w (.die k) (w.onWorker k fun wk => { wk with alive := false })
  | loses (k : ℕ) :
      Move cfg w (.disconnect k) (w.onWorker k fun wk => { wk with connected := false })
  | exits (k : ℕ) (wk : Worker) (found : w.workers[k]? = some wk) (alive : wk.alive = false)
      (exited : wk.exited = false) : Move cfg w (.exit k) (w.onExit k wk.id)
  | drops (id : ℕ) : Move cfg w (.restart id) { w with restarts := w.restarts.erase id }
  | restarts (id : ℕ) (due : id ∈ w.restarts) :
      Move cfg w (.restart id) ({ w with restarts := w.restarts.erase id }.spawn id)
  | closes : Move cfg w .close w.close
  | awaits : Move cfg w .awaitIdle w.awaitIdle
  | timesOut (i : ℕ) : Move cfg w (.timeOut i)
      { w with waiters := w.waiters.filter (· ≠ i), resolved := w.resolved ++ [(i, false)] }

/-- Every step of the supervisor is a move. -/
theorem step_moves (h : step cfg w a = some w') : Move cfg w a w' := by
  cases a with
  | connect requests throws =>
    rcases connect_cases h with hrefused | ⟨hneeds, haccepting, rfl⟩ | ⟨t, k, tried, hoff⟩
    · exact .refuses hrefused
    · exact .waits requests throws haccepting hneeds
    · exact .handsOff hoff
  | headRead c outcome throws =>
    rcases (headRead_cases h).2 with hrefused | ⟨t, k, tried, hoff⟩
    · exact .refuses hrefused
    · exact .handsOff hoff
  | send c turn =>
    obtain ⟨conn, hconn, h⟩ := Option.bind_eq_some_iff.mp h
    split at h
    · next hplace =>
      cases h
      exact .sends c conn turn true hconn fun _ => hplace
    · cases h
      exact .sends c conn turn false hconn nofun
    · cases h
      exact .sends c conn turn false hconn nofun
    · cases h
  | boot k =>
    obtain ⟨wk, _, h⟩ := Option.bind_eq_some_iff.mp h
    split at h
    · cases h
    · cases h
      exact .boots k
  | receive k handle =>
    obtain ⟨wk, hwk, h⟩ := Option.bind_eq_some_iff.mp h
    split at h
    · split at h
      · cases h
      · next c inbox hinbox =>
        cases h
        exact .takes k wk c inbox handle hwk hinbox
      · next inbox hinbox =>
        cases h
        exact .takesDrain k wk inbox handle hwk hinbox
    · cases h
  | parse c =>
    obtain ⟨conn, hconn, h⟩ := Option.bind_eq_some_iff.mp h
    split at h
    · next k r unread hplace hunread =>
      obtain ⟨wk, hwk, h⟩ := Option.bind_eq_some_iff.mp h
      split at h
      · next hturn =>
        cases h
        exact .starts c k conn wk r unread hconn hplace hunread hturn hwk
      · cases h
        exact .skips c conn r unread hconn hunread
    · cases h
  | endTurn c =>
    obtain ⟨conn, hconn, h⟩ := Option.bind_eq_some_iff.mp h
    obtain ⟨k, hk, h⟩ := Option.bind_eq_some_iff.mp h
    obtain ⟨wk, hwk, h⟩ := Option.bind_eq_some_iff.mp h
    split at h
    · next hrunning =>
      cases h
      exact .ends c k conn wk hconn hk hwk hrunning
    · cases h
  | closeConn c =>
    obtain ⟨conn, hconn, h⟩ := Option.bind_eq_some_iff.mp h
    split at h
    · next k hplace =>
      obtain ⟨wk, hwk, h⟩ := Option.bind_eq_some_iff.mp h
      cases h
      exact .shuts c k conn wk hconn hplace hwk
    · cases h
  | message k =>
    obtain ⟨wk, hwk, h⟩ := Option.bind_eq_some_iff.mp h
    split at h
    · cases h
    · next m outbox houtbox =>
      cases h
      exact .hears k wk m outbox hwk houtbox
  | die k =>
    obtain ⟨wk, _, rfl⟩ := Option.map_eq_some_iff.mp h
    exact .dies k
  | disconnect k =>
    cases h
    exact .loses k
  | exit k =>
    obtain ⟨wk, hwk, h⟩ := Option.bind_eq_some_iff.mp h
    split at h
    · cases h
    · next hdead =>
      cases h
      rw [Bool.or_eq_true, not_or, Bool.not_eq_true, Bool.not_eq_true] at hdead
      exact .exits k wk hwk hdead.1 hdead.2
  | restart id =>
    simp only [step] at h
    split at h
    · next hdue =>
      cases h
      split
      · exact .drops id
      · exact .restarts id hdue
    · cases h
  | close =>
    cases h
    exact .closes
  | awaitIdle =>
    cases h
    exact .awaits
  | timeOut i =>
    simp only [step, World.timeOut] at h
    split at h
    · cases h
      exact .timesOut i
    · cases h

/-! ## What `notifyIfIdle` leaves alone -/

@[simp] theorem notifyIfIdle_conns : w.notifyIfIdle.conns = w.conns := by
  unfold World.notifyIfIdle
  split <;> rfl

/-! ## The log -/

/-- What only hand-offs and the shutdown change. -/
def World.flags (w : World) : List Event × Bool × Bool := (w.log, w.accepting, w.shuttingDown)

@[simp] theorem notifyIfIdle_flags : w.notifyIfIdle.flags = w.flags := by
  unfold World.notifyIfIdle
  split <;> rfl

theorem onMessage_flags (k : ℕ) (m : FromWorker) : (w.onMessage k m).flags = w.flags := by
  cases m with
  | ready | draining => rfl
  | load n => exact notifyIfIdle_flags

theorem onExit_flags (k id : ℕ) : (w.onExit k id).flags = w.flags := by
  unfold World.onExit
  dsimp only
  split <;> exact notifyIfIdle_flags

theorem awaitIdle_flags : w.awaitIdle.flags = w.flags := by
  unfold World.awaitIdle
  split <;> rfl

theorem step_flags (h : step cfg w a = some w') :
    (∃ w₀ c t k tried, HandsOff cfg w a w₀ w' c t k tried) ∨ w'.flags = w.flags ∨
      a = .close ∧ w' = w.close := by
  cases step_moves h with
  | handsOff hoff => exact .inl ⟨_, _, _, _, _, hoff⟩
  | closes => exact .inr (.inr ⟨rfl, rfl⟩)
  | refuses hrefused =>
    rcases hrefused with ⟨_, _, _, _, rfl⟩ | ⟨_, _, _, _, _, _, rfl⟩ <;> exact .inr (.inl rfl)
  | hears k wk m outbox found outbox_eq => exact .inr (.inl (onMessage_flags k m))
  | exits k wk found alive exited => exact .inr (.inl (onExit_flags k wk.id))
  | awaits => exact .inr (.inl awaitIdle_flags)
  | _ => exact .inr (.inl rfl)

theorem HandsOff.flags_eq {w₀ : World} {c t k : ℕ} {tried : List ℕ}
    (h : HandsOff cfg w a w₀ w' c t k tried) :
    w'.flags = (w.log ++ [.handedOff c t tried], w.accepting, w.shuttingDown) := by
  obtain ⟨pins, rfl⟩ := h.result
  cases h.routes <;> rfl

end ServerlessHarness.Supervisor
