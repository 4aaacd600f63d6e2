import ServerlessHarness.Library.Custody
import ServerlessHarness.Model.RemoteWorker.Session

/-!
# Who answers an exec

An exec that was received and is not yet answered is with one goroutine, or in the queue. What the
goroutine still has to queue for it is the rest of a script, which its fate determines: the chunk
frames of its run and then one terminal frame, or one terminal frame alone. What was queued for it
so far and that rest make up the script (`Owes`); if a frame was given up, they are a part of it.
-/

set_option autoImplicit false

namespace ServerlessHarness.RemoteWorker

open Library Protocol

/-! ## Scripts -/

def SinkCall.frame (reqId : ℕ) : SinkCall → Option Frame
  | chunk stream data => some (.chunk ⟨reqId, data, stream⟩)
  | dropped _ _ => none

def chunkFrames (reqId : ℕ) (calls : List SinkCall) : List Frame :=
  calls.filterMap (SinkCall.frame reqId)

/-- A frame that belongs to an exec. -/
def Frame.isAnswer : Frame → Bool
  | hello _ => false
  | heartbeat => false
  | chunk _ => true
  | exit _ => true
  | error _ => true

/-- What is queued for an exec that is run, from some point of its run on. -/
def Running.script (e : Exec) (r : Running) : List Frame :=
  chunkFrames e.reqId r.calls ++ [(conclude e r.result (r.dropped + cutBy r.calls)).1]

def After.script (e : Exec) : After → List Frame
  | run r => r.script e
  | finish => []

/-- What is to be queued for an exec, once that is decided. -/
def Received.script (r : Received) : Option (List Frame) :=
  match r.fate with
  | .coalesced _ => some []
  | .collided => some [errFrame r.exec.reqId collisionText]
  | .replayed _ frame => some [frame]
  | .admitted => none
  | .refused => some [errFrame r.exec.reqId busyText]
  | .skipped => some [endFrame r.exec.reqId (-1) false]
  | .ran run => some (Running.script r.exec ⟨run.calls, run.result, 0⟩)

/-- What was queued and what is left to queue make up the script; nothing is queued before there is
one. -/
def Owes (r : Received) (said : List Frame) : Option (List Frame) → Prop
  | none => r.script = none ∧ said = []
  | some todo => ∃ script, r.script = some script ∧ (said ++ todo).Sublist script ∧
      (r.lost = false → said ++ todo = script)

theorem Owes.of_eq {r : Received} {said todo : List Frame} (h : r.script = some (said ++ todo)) :
    Owes r said (some todo) := ⟨_, h, List.Sublist.refl _, fun _ => rfl⟩

theorem Owes.say {r : Received} {said todo : List Frame} {frame : Frame}
    (h : Owes r said (some (frame :: todo))) : Owes r (said ++ [frame]) (some todo) := by
  have happend : said ++ [frame] ++ todo = said ++ frame :: todo := by
    rw [List.append_assoc, List.singleton_append]
  obtain ⟨script, hscript, hsub, heq⟩ := h
  refine ⟨script, hscript, ?_, ?_⟩
  · rw [happend]
    exact hsub
  · rw [happend]
    exact heq

theorem Owes.lose {r : Received} {said todo : List Frame} {frame : Frame}
    (h : Owes r said (some (frame :: todo))) : Owes { r with lost := true } said (some todo) := by
  obtain ⟨script, hscript, hsub, _⟩ := h
  refine ⟨script, hscript, ?_, fun hlost => nomatch hlost⟩
  have hskip : (said ++ todo).Sublist (said ++ frame :: todo) :=
    (List.Sublist.refl said).append (List.sublist_cons_self frame todo)
  exact hskip.trans hsub

theorem Owes.decide {r : Received} {said : List Frame} {fate : Fate} {script : List Frame}
    (h : Owes r said none) (hscript : Received.script { r with fate := fate } = some script) :
    Owes { r with fate := fate } said (some script) := by
  refine .of_eq ?_
  rw [h.2, hscript]
  rfl

theorem Running.script_chunk (e : Exec) (r : Running) (stream : OutputStream) (data : List UInt8)
    (rest : List SinkCall) (h : r.calls = .chunk stream data :: rest) :
    r.script e = .chunk ⟨e.reqId, data, stream⟩ :: Running.script e { r with calls := rest } := by
  unfold Running.script
  rw [h, cutBy, SinkCall.cut, Nat.zero_add]
  rfl

theorem Running.script_dropped (e : Exec) (r : Running) (stream : OutputStream) (n : ℕ)
    (rest : List SinkCall) (h : r.calls = .dropped stream n :: rest) :
    r.script e =
      Running.script e
        { r with calls := rest, dropped := r.dropped + (SinkCall.dropped stream n).cut } := by
  unfold Running.script
  rw [h, cutBy, Nat.add_assoc]
  rfl

theorem Running.script_nil (e : Exec) (r : Running) (h : r.calls = []) :
    r.script e = [(conclude e r.result r.dropped).1] := by
  unfold Running.script
  rw [h]
  rfl

/-! ## Holders -/

/-- An exec with the one who has it: what is left to queue, if that is decided, and whether the exec
is in flight. -/
structure Holding where
  exec : Exec
  todo : Option (List Frame)
  inFlight : Bool

def Message.waiting (m : Message) : ℕ × Holding := (m.number, ⟨m.exec, none, true⟩)

def PoolPc.holding : PoolPc → Option (ℕ × Holding)
  | idle => none
  | dequeued m => some m.waiting
  | admitted m _ => some m.waiting
  | running m r => some (m.number, ⟨m.exec, some (r.script m.exec), true⟩)
  | enqueueing m _ frame after =>
    some (m.number, ⟨m.exec, some (frame :: after.script m.exec), true⟩)
  | finishing m => some (m.number, ⟨m.exec, some [], true⟩)
  | exited => none

def RecvPc.holding : RecvPc → Option (ℕ × Holding)
  | replying m frame => some (m.number, ⟨m.exec, some [frame], false⟩)
  | admitting m => some m.waiting
  | reading => none
  | stopping => none
  | cancelled => none
  | waiting => none
  | draining => none
  | returned => none

theorem PoolPc.holding_running (m : Message) (r : Running) :
    (running m r).holding = some (m.number, ⟨m.exec, some (r.script m.exec), true⟩) := rfl

theorem After.holding_pc (m : Message) (after : After) :
    (after.pc m).holding = some (m.number, ⟨m.exec, some (after.script m.exec), true⟩) := by
  cases after <;> rfl

/-- The receive loop reads, or decides an exec. -/
def RecvPc.serving : RecvPc → Bool
  | reading => true
  | replying _ _ => true
  | admitting _ => true
  | stopping => false
  | cancelled => false
  | waiting => false
  | draining => false
  | returned => false

def SenderPc.held : SenderPc → Option OutFrame
  | ready => none
  | taken out => some out
  | holding out => some out
  | exited => none

section Conn

variable {Digest : Type}

def Conn.holders (c : Conn Digest) : List (ℕ × Holding) :=
  c.recv.holding.toList ++ (c.queue.map Message.waiting ++ c.pool.filterMap PoolPc.holding)

/-- The holders besides a member of the pool. -/
def Conn.others (c : Conn Digest) (w : ℕ) : List (ℕ × Holding) :=
  c.recv.holding.toList ++
    (c.queue.map Message.waiting ++ (c.pool.eraseIdx w).filterMap PoolPc.holding)

def flying (h : ℕ × Holding) : Option Message := if h.2.inFlight then some ⟨h.1, h.2.exec⟩ else none

theorem flying_of_not_inFlight (n : ℕ) {h : Holding} (hh : h.inFlight = false) :
    flying (n, h) = none := by
  unfold flying
  rw [if_neg]
  rw [hh]
  exact Bool.false_ne_true

/-- The execs in flight. -/
def Conn.flight (c : Conn Digest) : List Message := c.holders.filterMap flying

/-- The frames that were queued, whatever became of them, in order. -/
def Conn.pushed (c : Conn Digest) : List OutFrame :=
  c.sent ++ (c.discarded ++ (c.sender.held.toList ++ c.outbound))

/-- The frames that were queued for one exec. -/
def Conn.said (c : Conn Digest) (n : ℕ) : List Frame :=
  (c.pushed.filter fun out => out.origin = some n).map OutFrame.frame

/-- The connection is ending: its context is done, or the receive loop is over. -/
def Conn.ending (c : Conn Digest) : Bool := c.done || !c.recv.serving

/-- Slots are never removed, and their exec and fingerprint stay. -/
def SlotsKept (slots slots' : List (Slot Digest)) : Prop :=
  ∀ (i : ℕ) (slot : Slot Digest), slots[i]? = some slot →
    ∃ slot', slots'[i]? = some slot' ∧ slot'.message = slot.message ∧ slot'.fp = slot.fp

theorem SlotsKept.refl (slots : List (Slot Digest)) : SlotsKept slots slots :=
  fun _ slot h => ⟨slot, h, rfl, rfl⟩

theorem slotsKept_cancelSlot (c : Conn Digest) (reqId : ℕ) :
    SlotsKept c.slots (c.cancelSlot reqId).slots := by
  unfold Conn.cancelSlot
  cases c.inflight.get reqId with
  | none => exact .refl c.slots
  | some j =>
    intro i slot hslot
    show ∃ slot', (c.slots.modify j _)[i]? = some slot' ∧ _
    by_cases hij : j = i
    · subst hij
      exact ⟨_, slot_modify_self hslot, rfl, rfl⟩
    · refine ⟨slot, ?_, rfl, rfl⟩
      rw [slot_modify_ne hij]
      exact hslot

theorem slotsKept_append (slots : List (Slot Digest)) (slot : Slot Digest) :
    SlotsKept slots (slots ++ [slot]) := fun _ s h => ⟨s, slot_append h [slot], rfl, rfl⟩

/-- `cancelSlot` writes to the slots only. -/
theorem cancelSlot_eq (c : Conn Digest) (reqId : ℕ) :
    c.cancelSlot reqId = { c with slots := (c.cancelSlot reqId).slots } := by
  unfold Conn.cancelSlot
  cases c.inflight.get reqId <;> rfl

theorem holders_perm {c : Conn Digest} {w : ℕ} {pc : PoolPc} (h : c.pool[w]? = some pc) :
    c.holders.Perm (pc.holding.toList ++ c.others w) := by
  unfold Conn.holders Conn.others
  have hpool := filterMap_perm_of_slot PoolPc.holding h
  refine (((hpool.append_left _).append_left _).trans ?_)
  rw [← List.append_assoc, ← List.append_assoc]
  refine (List.Perm.append_right _ List.perm_append_comm).trans ?_
  rw [List.append_assoc, List.append_assoc]

theorem holders_setPool {c : Conn Digest} {w : ℕ} {pc : PoolPc} (pc' : PoolPc)
    (h : c.pool[w]? = some pc) :
      (c.setPool w pc').holders.Perm (pc'.holding.toList ++ c.others w) := by
  have hslot : (c.setPool w pc').pool[w]? = some pc' := slot_set_self h
  refine (holders_perm hslot).trans ?_
  unfold Conn.others Conn.setPool
  dsimp only
  rw [List.eraseIdx_set_eq]

theorem pushed_push (c : Conn Digest) (out : OutFrame) : (c.push out).pushed = c.pushed ++
    [out] := by
  unfold Conn.pushed Conn.push
  simp only [List.append_assoc]

theorem said_push (c : Conn Digest) (out : OutFrame) (n : ℕ) :
    (c.push out).said n = c.said n ++ if out.origin = some n then [out.frame] else [] := by
  unfold Conn.said
  rw [pushed_push, List.filter_append, List.map_append, List.filter_singleton]
  by_cases horigin : out.origin = some n
  · rw [if_pos horigin, decide_eq_true horigin]
    rfl
  · rw [if_neg horigin, decide_eq_false horigin]
    rfl

theorem ending_of_done {c : Conn Digest} (h : c.done = true) : c.ending = true := by
  unfold Conn.ending
  rw [h]
  rfl

theorem ending_of_not_serving {c : Conn Digest} (h : c.recv.serving = false) : c.ending = true := by
  unfold Conn.ending
  rw [h, Bool.not_false, Bool.or_true]

end Conn

end ServerlessHarness.RemoteWorker
