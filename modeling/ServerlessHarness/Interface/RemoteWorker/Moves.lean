import ServerlessHarness.Interface.RemoteWorker.Holders

/-!
# What a step of a session can do

`Move` lists the ways in which a step changes the session, with what it found; `step_moves` is the
one place where the steps are unfolded. `Enqueued` does the same for a step of `enqueue`, which the
members of the pool and the heartbeat share.
-/

set_option autoImplicit false

namespace ServerlessHarness.RemoteWorker

open Library Protocol

/-- The chunk slots that a producer has at a stage of `enqueue`. -/
def Stage.slot : Stage → ℕ
  | acquire => 0
  | waitSlot => 0
  | push => 1
  | waitPush => 1

variable {pc : PoolPc}

section Moves

variable {Digest : Type}

/-! ## Sending -/

/-- What a step of `enqueue` does: it takes a slot, it comes to wait, or it queues the frame. -/
inductive Enqueued (c : Conn Digest) (out : OutFrame) : Stage → Conn Digest → Option Stage →
  Prop where
  | takes {stage : Stage} (slotless : stage.slot = 0) (free : c.chunkSlots < queueCap) :
      Enqueued c out stage { c with chunkSlots := c.chunkSlots + 1 } (some .push)
  | waits {stage stage' : Stage} (same : stage'.slot = stage.slot) :
      Enqueued c out stage c (some stage')
  | queues {stage : Stage} (holds : stage.slot = 1) : Enqueued c out stage (c.push out) none

variable {c c' : Conn Digest}

theorem enqueued_of_enqueue {out : OutFrame} {stage : Stage} {o : Option Stage}
    (h : c.enqueue out stage = some (c', o)) : Enqueued c out stage c' o := by
  cases stage with
  | acquire =>
    unfold Conn.enqueue at h
    dsimp only at h
    split at h
    · cases h
      exact .takes rfl ‹_›
    · cases h
      exact .waits rfl
  | waitSlot =>
    obtain ⟨hfree, heq⟩ := Option.ite_none_right_eq_some.mp h
    cases heq
    exact .takes rfl hfree
  | push =>
    unfold Conn.enqueue at h
    dsimp only at h
    split at h
    · cases h
      exact .queues rfl
    · cases h
      exact .waits rfl
  | waitPush =>
    obtain ⟨_, heq⟩ := Option.ite_none_right_eq_some.mp h
    cases heq
    exact .queues rfl

theorem giveUp_cases {stage : Stage} (h : c.giveUp stage = some c') :
    c.done = true ∧ c' = { c with chunkSlots := c.chunkSlots - stage.slot } := by
  cases stage with
  | acquire | push => cases h
  | waitSlot | waitPush =>
    obtain ⟨hdone, hc⟩ := Option.ite_none_right_eq_some.mp h
    cases hc
    exact ⟨hdone, rfl⟩

/-! ## Steps -/

variable [DecidableEq Digest] (sha256 : List UInt8 → Digest) (cfg : Config)

inductive Move (s : Session Digest) : Action → Session Digest → Prop where
  | connect : Move s .connect ⟨s.cache, .fresh cfg⟩
  | cancel : Move s .cancel ⟨s.cache, { s.conn with done := true }⟩
  | exec (e : Exec) (reading : s.conn.recv = .reading) : Move s (.exec e) (s.accept sha256 e)
  | abort (reqId : ℕ) :
      Move s (.abort reqId) ⟨s.cache, { s.conn with slots := (s.conn.cancelSlot reqId).slots }⟩
  | recvError (reading : s.conn.recv = .reading) :
      Move s .recvError ⟨s.cache, { s.conn with recv := .stopping }⟩
  -- The receive loop goes on with an exec.
  | reply (m : Message) (frame : Frame) (replying : s.conn.recv = .replying m frame) :
      Move s .reply ⟨s.cache, { s.conn.push ⟨frame, true, some m.number⟩ with recv := .reading }⟩
  | overflow (m : Message) (frame : Frame) (replying : s.conn.recv = .replying m frame) :
      Move s .reply ⟨s.cache, { s.conn.lose m.number with recv := .stopping }⟩
  | enter (m : Message) (admitting : s.conn.recv = .admitting m) :
      Move s .reply ⟨s.cache, { s.conn with queue := s.conn.queue ++ [m], recv := .reading }⟩
  | refuse (m : Message) (admitting : s.conn.recv = .admitting m) :
      Move s .reply ⟨s.cache,
        { (s.conn.remove m.exec.reqId).note m.number .refused with
          recv := .replying m (errFrame m.exec.reqId busyText) }⟩
  -- `Serve` after the receive loop.
  | serve (done : Bool) (pc : RecvPc) (before : s.conn.recv.serving = false)
      (after : pc.serving = false) :
        Move s .serve ⟨s.cache, { s.conn with done := done, recv := pc }⟩
  -- A member of the pool.
  | dequeue (w : ℕ) (m : Message) (rest : List Message) (pc : s.conn.pool[w]? = some .idle)
      (queued : s.conn.queue = m :: rest) :
      Move s (.pool w) ⟨s.cache, { s.conn with queue := rest }.setPool w (.dequeued m)⟩
  | exit (w : ℕ) (pc : s.conn.pool[w]? = some .idle) (closed : s.conn.recv.closed = true) :
      Move s (.pool w) ⟨s.cache, s.conn.setPool w .exited⟩
  | vanished (w : ℕ) (m : Message) (pc : s.conn.pool[w]? = some (.dequeued m))
      (missing : s.conn.inflight.get m.exec.reqId = none) :
      Move s (.pool w) ⟨s.cache, s.conn.setPool w .idle⟩
  | found (w : ℕ) (m : Message) (i : ℕ) (pc : s.conn.pool[w]? = some (.dequeued m)) :
      Move s (.pool w) ⟨s.cache, s.conn.setPool w (.admitted m i)⟩
  | skip (w : ℕ) (m : Message) (i : ℕ) (pc : s.conn.pool[w]? = some (.admitted m i)) :
      Move s (.pool w) ⟨s.cache, (s.conn.note m.number .skipped).setPool w
        (.enqueueing m .acquire (endFrame m.exec.reqId (-1) false) .finish)⟩
  | start (w : ℕ) (run : Run) (m : Message) (i : ℕ) (pc : s.conn.pool[w]? = some (.admitted m i)) :
      Move s (.start w run) ⟨s.cache, (s.conn.note m.number (.ran run)).setPool w
        (.running m ⟨run.calls, run.result, 0⟩)⟩
  | chunk (w : ℕ) (m : Message) (r : Running) (stream : OutputStream) (data : List UInt8)
      (rest : List SinkCall) (pc : s.conn.pool[w]? = some (.running m r))
      (calls : r.calls = .chunk stream data :: rest) :
      Move s (.pool w) ⟨s.cache, s.conn.setPool w
        (.enqueueing m .acquire (.chunk ⟨m.exec.reqId, data, stream⟩)
          (.run { r with calls := rest }))⟩
  | dropped (w : ℕ) (m : Message) (r : Running) (stream : OutputStream) (n : ℕ)
      (rest : List SinkCall) (pc : s.conn.pool[w]? = some (.running m r))
      (calls : r.calls = .dropped stream n :: rest) :
      Move s (.pool w) ⟨s.cache, s.conn.setPool w
        (.running m { r with calls := rest, dropped :=
          r.dropped + (SinkCall.dropped stream n).cut })⟩
  | conclude (w : ℕ) (m : Message) (r : Running) (pc : s.conn.pool[w]? = some (.running m r))
      (calls : r.calls = []) : Move s (.pool w) (s.concludeStep sha256 w m r)
  | enqueue (w : ℕ) (m : Message) (stage : Stage) (frame : Frame) (after : After) (c : Conn Digest)
      (o : Option Stage) (pc : s.conn.pool[w]? = some (.enqueueing m stage frame after))
      (enqueued : Enqueued s.conn ⟨frame, false, some m.number⟩ stage c o) :
      Move s (.pool w) ⟨s.cache, c.setPool w
        (o.elim (after.pc m) fun stage => .enqueueing m stage frame after)⟩
  | giveUp (w : ℕ) (m : Message) (stage : Stage) (frame : Frame) (after : After)
      (pc : s.conn.pool[w]? = some (.enqueueing m stage frame after)) (done : s.conn.done = true) :
      Move s (.giveUp w) ⟨s.cache,
        (Conn.lose { s.conn with chunkSlots := s.conn.chunkSlots - stage.slot } m.number).setPool w
          (after.pc m)⟩
  | finish (w : ℕ) (m : Message) (pc : s.conn.pool[w]? = some (.finishing m)) :
      Move s (.pool w) ⟨s.cache,
        { s.conn with
          slots := (s.conn.cancelSlot m.exec.reqId).slots
          inflight := s.conn.inflight.erase m.exec.reqId }.setPool w .idle⟩
  -- The heartbeat.
  | tick (waiting : s.conn.beat = .waiting) :
      Move s .beat ⟨s.cache, { s.conn with beat := .enqueueing .acquire }⟩
  | beat (stage : Stage) (c : Conn Digest) (o : Option Stage)
      (enqueueing : s.conn.beat = .enqueueing stage)
      (enqueued : Enqueued s.conn heartbeatFrame stage c o) :
      Move s .beat ⟨s.cache, { c with beat := o.elim .waiting .enqueueing }⟩
  | beatExit (waiting : s.conn.beat = .waiting) :
      Move s .beatDone ⟨s.cache, { s.conn with beat := .exited }⟩
  | beatGiveUp (stage : Stage) (enqueueing : s.conn.beat = .enqueueing stage) :
      Move s .beatDone ⟨s.cache,
        { s.conn with chunkSlots := s.conn.chunkSlots - stage.slot, beat := .waiting }⟩
  -- The sender.
  | take (ok : Bool) (out : OutFrame) (rest : List OutFrame) (ready : s.conn.sender = .ready)
      (outbound : s.conn.outbound = out :: rest) :
      Move s (.send ok) ⟨s.cache, { s.conn with outbound := rest, sender := .taken out }⟩
  | drained (ok : Bool) (ready : s.conn.sender = .ready) (draining : s.conn.recv = .draining) :
      Move s (.send ok) ⟨s.cache, { s.conn with sender := .exited }⟩
  | release (ok : Bool) (out : OutFrame) (taken : s.conn.sender = .taken out) :
      Move s (.send ok) ⟨s.cache,
        { s.conn with
          chunkSlots := if out.reserved then s.conn.chunkSlots else s.conn.chunkSlots - 1
          sender := .holding out }⟩
  | discard (ok : Bool) (out : OutFrame) (holding : s.conn.sender = .holding out)
      (failed : s.conn.failed = true) :
      Move s (.send ok) ⟨s.cache,
        { s.conn with discarded := s.conn.discarded ++ [out], sender := .ready }⟩
  | sent (out : OutFrame) (holding : s.conn.sender = .holding out) (sound : s.conn.failed = false) :
      Move s (.send true) ⟨s.cache, { s.conn with sent := s.conn.sent ++ [out], sender := .ready }⟩
  | fail (out : OutFrame) (holding : s.conn.sender = .holding out) (sound : s.conn.failed = false) :
      Move s (.send false) ⟨s.cache,
        { s.conn with
          discarded := s.conn.discarded ++ [out], failed := true, done := true, sender := .ready }⟩

variable {sha256 cfg} {s t : Session Digest} {a : Action} {w : ℕ}

theorem move_of_replyStep (h : s.conn.replyStep = some c) :
    Move sha256 cfg s .reply ⟨s.cache, c⟩ := by
  unfold Conn.replyStep at h
  split at h
  · split at h
    · cases h
      exact .reply _ _ ‹_›
    · cases h
      exact .overflow _ _ ‹_›
  · split at h
    · cases h
      exact .enter _ ‹_›
    · cases h
      exact .refuse _ ‹_›
  all_goals cases h

theorem move_of_serveStep (h : s.conn.serveStep = some c) :
    Move sha256 cfg s .serve ⟨s.cache, c⟩ := by
  unfold Conn.serveStep at h
  split at h
  · rename_i hrecv
    cases h
    exact .serve true .cancelled (by rw [hrecv]; rfl) rfl
  · rename_i hrecv
    cases h
    exact .serve s.conn.done .waiting (by rw [hrecv]; rfl) rfl
  · rename_i hrecv
    obtain ⟨_, heq⟩ := Option.ite_none_right_eq_some.mp h
    cases heq
    exact .serve s.conn.done .draining (by rw [hrecv]; rfl) rfl
  · rename_i hrecv
    obtain ⟨_, heq⟩ := Option.ite_none_right_eq_some.mp h
    cases heq
    exact .serve s.conn.done .returned (by rw [hrecv]; rfl) rfl
  all_goals cases h

theorem move_of_poolStep (hpc : s.conn.pool[w]? = some pc) (h : s.poolStep sha256 w pc = some t) :
    Move sha256 cfg s (.pool w) t := by
  cases pc with
  | idle =>
    unfold Session.poolStep at h
    dsimp only at h
    split at h
    · cases h
      exact .dequeue w _ _ hpc ‹_›
    · obtain ⟨hclosed, heq⟩ := Option.ite_none_right_eq_some.mp h
      cases heq
      exact .exit w hpc hclosed
  | dequeued m =>
    unfold Session.poolStep at h
    dsimp only at h
    split at h
    · cases h
      exact .vanished w m hpc ‹_›
    · cases h
      exact .found w m _ hpc
  | admitted m i =>
    obtain ⟨_, heq⟩ := Option.ite_none_right_eq_some.mp h
    cases heq
    exact .skip w m i hpc
  | running m r =>
    unfold Session.poolStep at h
    dsimp only at h
    split at h
    · cases h
      exact .chunk w m r _ _ _ hpc ‹_›
    · cases h
      exact .dropped w m r _ _ _ hpc ‹_›
    · cases h
      exact .conclude w m r hpc ‹_›
  | enqueueing m stage frame after =>
    obtain ⟨⟨c, o⟩, henqueue, heq⟩ := Option.map_eq_some_iff.mp h
    cases heq
    exact .enqueue w m stage frame after c o hpc (enqueued_of_enqueue henqueue)
  | finishing m =>
    cases h
    unfold Conn.finish
    rw [cancelSlot_eq]
    exact .finish w m hpc
  | exited => cases h

theorem move_of_startStep {run : Run} (hpc : s.conn.pool[w]? = some pc)
    (h : s.conn.startStep w run pc = some c) : Move sha256 cfg s (.start w run) ⟨s.cache, c⟩ := by
  cases pc with
  | admitted m i =>
    obtain ⟨_, heq⟩ := Option.ite_none_left_eq_some.mp h
    cases heq
    exact .start w run m i hpc
  | _ => cases h

theorem move_of_giveUpStep (hpc : s.conn.pool[w]? = some pc) (h : s.conn.giveUpStep w pc = some c) :
    Move sha256 cfg s (.giveUp w) ⟨s.cache, c⟩ := by
  cases pc with
  | enqueueing m stage frame after =>
    obtain ⟨c', hgiveUp, heq⟩ := Option.map_eq_some_iff.mp h
    obtain ⟨hdone, rfl⟩ := giveUp_cases hgiveUp
    cases heq
    exact .giveUp w m stage frame after hpc hdone
  | _ => cases h

theorem move_of_beatStep (h : s.conn.beatStep = some c) : Move sha256 cfg s .beat ⟨s.cache, c⟩ := by
  unfold Conn.beatStep at h
  split at h
  · cases h
    exact .tick ‹_›
  · obtain ⟨⟨c', o⟩, henqueue, heq⟩ := Option.map_eq_some_iff.mp h
    cases heq
    exact .beat _ c' o ‹_› (enqueued_of_enqueue henqueue)
  · cases h

theorem move_of_beatDone (h : s.conn.beatDone = some c) :
    Move sha256 cfg s .beatDone ⟨s.cache, c⟩ := by
  unfold Conn.beatDone at h
  split at h
  · obtain ⟨_, heq⟩ := Option.ite_none_right_eq_some.mp h
    cases heq
    exact .beatExit ‹_›
  · obtain ⟨c', hgiveUp, heq⟩ := Option.map_eq_some_iff.mp h
    obtain ⟨_, rfl⟩ := giveUp_cases hgiveUp
    cases heq
    exact .beatGiveUp _ ‹_›
  · cases h

theorem move_of_sendStep {ok : Bool} (h : s.conn.sendStep ok = some c) :
    Move sha256 cfg s (.send ok) ⟨s.cache, c⟩ := by
  unfold Conn.sendStep at h
  split at h
  · split at h
    · cases h
      exact .take ok _ _ ‹_› ‹_›
    · obtain ⟨hdraining, heq⟩ := Option.ite_none_right_eq_some.mp h
      cases heq
      exact .drained ok ‹_› hdraining
  · cases h
    exact .release ok _ ‹_›
  · split at h
    · cases h
      exact .discard ok _ ‹_› ‹_›
    · rename_i hfailed
      have hsound := eq_false_of_ne_true hfailed
      cases ok with
      | true =>
        cases h
        exact .sent _ ‹_› hsound
      | false =>
        cases h
        exact .fail _ ‹_› hsound
  · cases h

/-- INTERNAL: **every step is a move**. -/
theorem step_moves (h : sessionStep sha256 cfg s a = some t) : Move sha256 cfg s a t := by
  cases a with
  | connect =>
    obtain ⟨_, ht⟩ := Option.ite_none_right_eq_some.mp h
    cases ht
    exact .connect
  | cancel =>
    cases h
    exact .cancel
  | exec e =>
    obtain ⟨hreading, ht⟩ := Option.ite_none_right_eq_some.mp h
    cases ht
    exact .exec e hreading
  | abort reqId =>
    obtain ⟨_, ht⟩ := Option.ite_none_right_eq_some.mp h
    cases ht
    unfold Conn.abort
    rw [cancelSlot_eq]
    exact .abort reqId
  | recvError =>
    obtain ⟨hreading, ht⟩ := Option.ite_none_right_eq_some.mp h
    cases ht
    exact .recvError hreading
  | reply =>
    obtain ⟨c, hc, rfl⟩ := Option.map_eq_some_iff.mp h
    exact move_of_replyStep hc
  | serve =>
    obtain ⟨c, hc, rfl⟩ := Option.map_eq_some_iff.mp h
    exact move_of_serveStep hc
  | pool w =>
    obtain ⟨pc, hpc, ht⟩ := Option.bind_eq_some_iff.mp h
    exact move_of_poolStep hpc ht
  | start w run =>
    obtain ⟨c, hc, rfl⟩ := Option.map_eq_some_iff.mp h
    obtain ⟨pc, hpc, hstart⟩ := Option.bind_eq_some_iff.mp hc
    exact move_of_startStep hpc hstart
  | giveUp w =>
    obtain ⟨c, hc, rfl⟩ := Option.map_eq_some_iff.mp h
    obtain ⟨pc, hpc, hgiveUp⟩ := Option.bind_eq_some_iff.mp hc
    exact move_of_giveUpStep hpc hgiveUp
  | beat =>
    obtain ⟨c, hc, rfl⟩ := Option.map_eq_some_iff.mp h
    exact move_of_beatStep hc
  | beatDone =>
    obtain ⟨c, hc, rfl⟩ := Option.map_eq_some_iff.mp h
    exact move_of_beatDone hc
  | send ok =>
    obtain ⟨c, hc, rfl⟩ := Option.map_eq_some_iff.mp h
    exact move_of_sendStep hc

end Moves

end ServerlessHarness.RemoteWorker
