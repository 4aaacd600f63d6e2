import ServerlessHarness.Analysis.RemoteWorker.Output
import ServerlessHarness.Interface.RemoteWorker.Capacity

/-!
# The reserve of the outbound channel

Frames that are not reserved hold one of `queueCap` chunk slots from before they are queued until
the sender has taken them from the channel. So they never fill the channel, and a terminal frame of
the receive loop finds no room only when the reserve itself is full of such frames.
-/

set_option autoImplicit false

namespace ServerlessHarness.RemoteWorker

open Library Protocol

/-! ## Who has a slot -/

def Stage.hasSlot : Stage → Bool
  | acquire => false
  | waitSlot => false
  | push => true
  | waitPush => true

/-- The member has a slot and has not queued its frame. -/
def PoolPc.hasSlot : PoolPc → Bool
  | enqueueing _ stage _ _ => stage.hasSlot
  | idle => false
  | dequeued _ => false
  | admitted _ _ => false
  | running _ _ => false
  | finishing _ => false
  | exited => false

def BeatPc.hasSlot : BeatPc → Bool
  | enqueueing stage => stage.hasSlot
  | waiting => false
  | exited => false

/-- The sender has taken a frame that is not reserved and not given back its slot. -/
def SenderPc.hasSlot : SenderPc → Bool
  | taken out => !out.reserved
  | ready => false
  | holding _ => false
  | exited => false

theorem total_eq_countP {τ : Type} (f : τ → ℕ) (p : τ → Bool) (h : ∀ t, f t = if p t then 1 else 0)
    (l : List τ) : total f l = l.countP p := by
  induction l with
  | nil => rfl
  | cons t l ih =>
    rw [total_cons, ih, List.countP_cons, h, Nat.add_comm]

theorem Stage.slot_eq (stage : Stage) : stage.slot = if stage.hasSlot then 1 else 0 := by
  cases stage <;> rfl

theorem PoolPc.slot_eq (pc : PoolPc) : pc.slot = if pc.hasSlot then 1 else 0 := by
  cases pc with
  | enqueueing m stage frame after => exact stage.slot_eq
  | idle | dequeued | admitted | running | finishing | exited => rfl

theorem BeatPc.slot_eq (pc : BeatPc) : pc.slot = if pc.hasSlot then 1 else 0 := by
  cases pc with
  | enqueueing stage => exact stage.slot_eq
  | waiting | exited => rfl

theorem OutFrame.slot_eq (out : OutFrame) : out.slot = if !out.reserved then 1 else 0 := by
  unfold OutFrame.slot
  cases out.reserved <;> rfl

theorem SenderPc.slot_eq (pc : SenderPc) : pc.slot = if pc.hasSlot then 1 else 0 := by
  cases pc with
  | taken out => exact out.slot_eq
  | ready | holding | exited => rfl

/-! ## The slots are no more than there are -/

section Bound

variable {Digest : Type} {c c' : Conn Digest}

/-- The step takes a slot only if one is free. -/
def Conn.Fits (c c' : Conn Digest) : Prop := c'.chunkSlots ≤ max c.chunkSlots queueCap

theorem Conn.Fits.of_le (h : c'.chunkSlots ≤ c.chunkSlots) : c.Fits c' :=
  Nat.le_trans h (Nat.le_max_left _ _)

theorem fits_enqueued {out : OutFrame} {stage : Stage} {o : Option Stage}
    (h : Enqueued c out stage c' o) : c.Fits c' := by
  cases h with
  | takes _ hfree =>
    show c.chunkSlots + 1 ≤ max c.chunkSlots queueCap
    omega
  | waits | queues => exact .of_le (Nat.le_refl _)

variable {sha256 : List UInt8 → Digest} {s t : Session Digest}
variable [DecidableEq Digest] {cfg : Config} {a : Action}

/-- A step of the session takes a slot only if one is free. -/
theorem fits_step (h : sessionStep sha256 cfg s a = some t) : s.conn.Fits t.conn := by
  cases step_moves h with
  | connect => exact .of_le (Nat.zero_le _)
  | exec e _ =>
    apply Conn.Fits.of_le
    show (s.conn.decided sha256 e (s.claim sha256 e).1).chunkSlots ≤ _
    cases (s.claim sha256 e).1 <;> exact Nat.le_refl _
  | enqueue w m stage frame after c o _ henqueued =>
    have hfits : s.conn.Fits c := fits_enqueued henqueued
    exact hfits
  | beat stage c o _ henqueued =>
    have hfits : s.conn.Fits c := fits_enqueued henqueued
    exact hfits
  | giveUp | beatGiveUp => exact .of_le (Nat.sub_le _ _)
  | release ok out _ =>
    apply Conn.Fits.of_le
    show (if _ then _ else _) ≤ _
    split
    · exact Nat.le_refl _
    · exact Nat.sub_le _ _
  | _ => exact .of_le (Nat.le_refl _)

/-- The slots in use in any run are no more than there are. -/
theorem chunkSlots_le (h : Reachable (sessionSystem sha256 cfg) s) :
    s.conn.chunkSlots ≤ queueCap := by
  refine Reachable.invariant (P := fun s => s.conn.chunkSlots ≤ queueCap) ?_ ?_ h
  · intro s hs
    cases hs
    exact Nat.zero_le _
  · intro s t _ hle hnext
    obtain ⟨a, ha⟩ := hnext
    have hfits : t.conn.chunkSlots ≤ max s.conn.chunkSlots queueCap := fits_step ha
    rwa [Nat.max_eq_right hle] at hfits

theorem chunkSlots_eq (h : Reachable (sessionSystem sha256 cfg) s) :
    s.conn.chunkSlots = s.conn.outbound.countP (fun out => !out.reserved) +
      (s.conn.pool.countP PoolPc.hasSlot + if s.conn.beat.hasSlot then 1 else 0) +
      if s.conn.sender.hasSlot then 1 else 0 := by
  have hslots := (capacity_of_reachable h).slots
  rw [Conn.slotsUsed, total_eq_countP _ _ OutFrame.slot_eq, total_eq_countP _ _ PoolPc.slot_eq,
    SenderPc.slot_eq, BeatPc.slot_eq] at hslots
  omega

/-- INTERNAL: **frames that are not reserved leave room for those that are.** In any run the slots
in use are those of the frames in the channel, of the producers on their way to it, and of at most
one frame that the sender has just taken; and `trySend` fails only when the reserve is full.
SRCLINE: loop.go:305-415 -/
theorem reserve_kept (h : Reachable (sessionSystem sha256 cfg) s) :
    s.conn.outbound.countP (fun out => !out.reserved) ≤ queueCap ∧
    (s.conn.chunkSlots = s.conn.outbound.countP (fun out => !out.reserved) +
      (s.conn.pool.countP PoolPc.hasSlot + if s.conn.beat.hasSlot then 1 else 0) +
      if s.conn.sender.hasSlot then 1 else 0) ∧
    ∀ m frame, s.conn.recv = .replying m frame → ∀ t, sessionStep sha256 cfg s .reply = some t →
      t.conn.recv = .stopping →
      terminalReserve ≤ s.conn.outbound.countP (fun out => out.reserved) := by
  have hslots := chunkSlots_eq h
  have hle := chunkSlots_le h
  have hchunks : s.conn.outbound.countP (fun out => !out.reserved) ≤ queueCap := by omega
  refine ⟨hchunks, hslots, ?_⟩
  intro m frame hrecv t ht hstop
  have hlength := List.length_eq_countP_add_countP (l := s.conn.outbound) fun out => out.reserved
  have hroom : s.conn.room = false := by
    by_cases hroom : s.conn.room = true
    · obtain ⟨c, hc, rfl⟩ := Option.map_eq_some_iff.mp ht
      unfold Conn.replyStep at hc
      rw [hrecv] at hc
      simp only [hroom, if_true] at hc
      cases hc
      cases hstop
    · exact eq_false_of_ne_true hroom
  have hfull : ¬ s.conn.outbound.length < queueCap + terminalReserve := of_decide_eq_false hroom
  simp only [Bool.not_eq_true, Bool.decide_eq_false] at hlength
  omega

end Bound

/-- A chunk is in the channel, and the end of the command and the heartbeat are on their way to
it. -/
theorem reserve_kept_three :
    ∃ s, Reachable (sessionSystem plainDigest workerConfig) s ∧
      s.conn.pool.countP PoolPc.hasSlot = 1 ∧
      s.conn.beat.hasSlot = true ∧ s.conn.sender.hasSlot = false ∧ s.conn.chunkSlots = 3 := by
  obtain ⟨s, hs, hP⟩ := exists_session_state plainDigest workerConfig
    [.connect, .exec greeting, .reply, .pool 0, .pool 0, .start 0 greetingRun, .pool 0, .pool 0,
      .pool 0, .pool 0, .pool 0, .beat, .beat]
    (fun s : Session (List UInt8) => decide (s.conn.outbound.countP (fun out => !out.reserved) = 1 ∧
      s.conn.pool.countP PoolPc.hasSlot = 1 ∧ s.conn.beat.hasSlot = true ∧
        s.conn.sender.hasSlot = false))
    (by decide +kernel)
  obtain ⟨hqueued, hpool, hbeat, hsender⟩ := of_decide_eq_true hP
  refine ⟨s, hs, hpool, hbeat, hsender, ?_⟩
  rw [(reserve_kept hs).2.1, hqueued, hpool, hbeat, hsender]
  rfl

end ServerlessHarness.RemoteWorker
