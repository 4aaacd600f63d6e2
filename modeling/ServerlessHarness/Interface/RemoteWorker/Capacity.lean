import ServerlessHarness.Interface.RemoteWorker.Steps
import ServerlessHarness.Library.Crew

/-!
# The chunk slots

The chunk slots in use are those of the frames in the outbound channel, of the one that the sender
has taken from it, and of the producers that have a slot and wait to send. So when the channel is
empty and no producer is about to send, every slot is free. While the receive loop is not over, the
sender and the pool are there.
-/

set_option autoImplicit false

namespace ServerlessHarness.RemoteWorker

open Library Protocol

def OutFrame.slot (out : OutFrame) : ℕ := if out.reserved then 0 else 1

def SenderPc.slot : SenderPc → ℕ
  | taken out => out.slot
  | ready => 0
  | holding _ => 0
  | exited => 0

def PoolPc.slot : PoolPc → ℕ
  | enqueueing _ stage _ _ => stage.slot
  | idle => 0
  | dequeued _ => 0
  | admitted _ _ => 0
  | running _ _ => 0
  | finishing _ => 0
  | exited => 0

def BeatPc.slot : BeatPc → ℕ
  | enqueueing stage => stage.slot
  | waiting => 0
  | exited => 0

theorem After.slot_pc (m : Message) (after : After) : (after.pc m).slot = 0 := by
  cases after <;> rfl

variable {frame : Frame} {m : Message} {stage : Stage}

section Capacity

variable {Digest : Type}

def Conn.slotsUsed (c : Conn Digest) : ℕ :=
  total OutFrame.slot c.outbound + c.sender.slot + total PoolPc.slot c.pool + c.beat.slot

structure Capacity (c : Conn Digest) : Prop where
  slots : c.chunkSlots = c.slotsUsed
  sender : c.recv.serving = true → c.sender ≠ .exited
  members : c.recv.serving = true → .exited ∉ c.pool
  size : c.recv.serving = true → 0 < c.pool.length

variable {c c' : Conn Digest} {w : ℕ}

theorem Capacity.of_recv (h : Capacity c) {pc : RecvPc} {done : Bool} {queue : List Message}
    {received : List Received} {slots : List (Slot Digest)} {inflight : OrderedMap ℕ ℕ}
    (hserving : pc.serving = true → c.recv.serving = true) :
    Capacity { c with
      recv := pc, done := done, queue := queue, received := received, slots := slots,
      inflight := inflight } where
  slots := h.slots
  sender hs := h.sender (hserving hs)
  members hs := h.members (hserving hs)
  size hs := h.size (hserving hs)

theorem Capacity.setPool (h : Capacity c) {pc pc' : PoolPc} (hpc : c.pool[w]? = some pc)
    (hc' : c'.pool = c.pool.set w pc') (hsender : c'.sender = c.sender) (hbeat : c'.beat = c.beat)
    (hrecv : c'.recv = c.recv)
    (hslots : c'.chunkSlots + total OutFrame.slot c.outbound + pc.slot =
      c.chunkSlots + total OutFrame.slot c'.outbound + pc'.slot)
    (hexited : pc' ≠ .exited ∨ c.recv.serving = false) : Capacity c' := by
  have htotal := total_set PoolPc.slot pc' hpc
  have hold := h.slots
  unfold Conn.slotsUsed at hold
  refine ⟨?_, ?_, ?_, ?_⟩
  · unfold Conn.slotsUsed
    rw [hc', hsender, hbeat]
    omega
  · rw [hrecv, hsender]
    exact h.sender
  · rw [hrecv, hc']
    intro hserving hin
    rcases List.mem_or_eq_of_mem_set hin with hbefore | heq
    · exact h.members hserving hbefore
    · rcases hexited with hne | hnot
      · exact hne heq.symm
      · rw [hnot] at hserving
        cases hserving
  · rw [hrecv, hc', List.length_set]
    exact h.size

theorem slots_enqueued {out : OutFrame} {o : Option Stage} (hout : out.reserved = false)
    (h : Enqueued c out stage c' o) :
    c'.chunkSlots + total OutFrame.slot c.outbound + stage.slot =
        c.chunkSlots + total OutFrame.slot c'.outbound + o.elim 0 Stage.slot ∧
      c'.pool = c.pool ∧ c'.sender = c.sender ∧ c'.beat = c.beat ∧ c'.recv = c.recv := by
  cases h with
  | takes hslotless _ =>
    refine ⟨?_, rfl, rfl, rfl, rfl⟩
    show c.chunkSlots + 1 + total OutFrame.slot c.outbound + stage.slot =
      c.chunkSlots + total OutFrame.slot c.outbound + 1
    omega
  | @waits stage' hsame =>
    refine ⟨?_, rfl, rfl, rfl, rfl⟩
    show _ = c.chunkSlots + total OutFrame.slot c.outbound + stage'.slot
    omega
  | queues hholds =>
    refine ⟨?_, rfl, rfl, rfl, rfl⟩
    have hslot : out.slot = 1 := by
      unfold OutFrame.slot
      rw [hout]
      rfl
    show c.chunkSlots + total OutFrame.slot c.outbound + stage.slot =
      c.chunkSlots + total OutFrame.slot (c.outbound ++ [out]) + 0
    rw [total_append, total_cons, hslot, hholds]
    rfl

theorem slot_le_total {pc : PoolPc} (hpc : c.pool[w]? = some pc) :
    pc.slot ≤ total PoolPc.slot c.pool := by
  have htotal := total_set PoolPc.slot .idle hpc
  have hidle : PoolPc.slot .idle = 0 := rfl
  omega

theorem Capacity.sends (h : Capacity c) {outbound sent discarded : List OutFrame} {pc : SenderPc}
    {k : ℕ} {failed done : Bool}
    (hslots : k + total OutFrame.slot c.outbound + c.sender.slot =
      c.chunkSlots + total OutFrame.slot outbound + pc.slot)
    (hexited : c.recv.serving = true → pc ≠ .exited) :
    Capacity { c with
      outbound := outbound, sent := sent, discarded := discarded, sender := pc, chunkSlots := k,
      failed := failed, done := done } where
  slots := by
    have hold := h.slots
    unfold Conn.slotsUsed at hold ⊢
    dsimp only
    omega
  sender := hexited
  members := h.members
  size := h.size

theorem Capacity.beat (h : Capacity c) (d : Conn Digest) {pc : BeatPc} (hpool : d.pool = c.pool)
    (hsender : d.sender = c.sender) (hrecv : d.recv = c.recv)
    (hslots : d.chunkSlots + total OutFrame.slot c.outbound + c.beat.slot =
      c.chunkSlots + total OutFrame.slot d.outbound + pc.slot) :
    Capacity { d with beat := pc } := by
  have hold := h.slots
  unfold Conn.slotsUsed at hold
  refine ⟨?_, ?_, ?_, ?_⟩
  · show d.chunkSlots = total OutFrame.slot d.outbound + d.sender.slot + total PoolPc.slot d.pool +
      pc.slot
    rw [hpool, hsender]
    omega
  · show d.recv.serving = true → d.sender ≠ .exited
    rw [hrecv, hsender]
    exact h.sender
  · show d.recv.serving = true → .exited ∉ d.pool
    rw [hrecv, hpool]
    exact h.members
  · show d.recv.serving = true → 0 < d.pool.length
    rw [hrecv, hpool]
    exact h.size

theorem Capacity.replied (h : Capacity c) (hrecv : c.recv = .replying m frame) :
    Capacity { c.push ⟨frame, true, some m.number⟩ with recv := .reading } := by
  have hserving : c.recv.serving = true := by
    rw [hrecv]
    rfl
  refine ⟨?_, fun _ => h.sender hserving, fun _ => h.members hserving, fun _ => h.size hserving⟩
  show c.chunkSlots = total OutFrame.slot (c.outbound ++ [⟨frame, true, some m.number⟩]) + _ + _ + _
  rw [total_append]
  exact h.slots

theorem serving_of_closed {pc : RecvPc} (h : pc.closed = true) : pc.serving = false := by
  cases pc with
  | reading | replying | admitting => cases h
  | stopping | cancelled | waiting | draining | returned => rfl

variable {sha256 : List UInt8 → Digest} {s t : Session Digest}

theorem After.pc_ne_exited (m : Message) (after : After) : after.pc m ≠ .exited := by
  cases after <;> nofun

theorem Capacity.enqueued (h : Capacity c) {after : After}
    (hpc : c.pool[w]? = some (.enqueueing m stage frame after)) {o : Option Stage}
    (henqueued : Enqueued c ⟨frame, false, some m.number⟩ stage c' o) :
    Capacity (c'.setPool w (o.elim (after.pc m) fun stage => .enqueueing m stage frame after)) := by
  obtain ⟨hslots, hpool, hsender, hbeat, hrecv⟩ := slots_enqueued rfl henqueued
  have hset : (c'.setPool w (o.elim (after.pc m)
      fun stage => .enqueueing m stage frame after)).pool =
        c.pool.set w (o.elim (after.pc m) fun stage => .enqueueing m stage frame after) := by
    rw [← hpool]
    rfl
  refine h.setPool hpc hset hsender hbeat hrecv ?_ (Or.inl ?_)
  · cases o with
    | none =>
      show _ = _ + (after.pc m).slot
      rw [After.slot_pc]
      exact hslots
    | some stage' => exact hslots
  · cases o with
    | none => exact after.pc_ne_exited m
    | some stage' => nofun

theorem Capacity.gaveUp (h : Capacity c) {after : After}
    (hpc : c.pool[w]? = some (.enqueueing m stage frame after)) :
    Capacity ((Conn.lose { c with chunkSlots := c.chunkSlots - stage.slot } m.number).setPool w
      (after.pc m)) := by
  have hused : stage.slot ≤ total PoolPc.slot c.pool := slot_le_total hpc
  have hold := h.slots
  unfold Conn.slotsUsed at hold
  refine h.setPool hpc rfl rfl rfl rfl ?_ (Or.inl (after.pc_ne_exited m))
  show c.chunkSlots - stage.slot + _ + stage.slot = c.chunkSlots + total OutFrame.slot c.outbound +
    (after.pc m).slot
  rw [After.slot_pc]
  omega

theorem total_replicate_idle (n : ℕ) : total PoolPc.slot (List.replicate n .idle) = 0 := by
  induction n with
  | zero => rfl
  | succ n ih =>
    rw [List.replicate_succ, total_cons, ih]
    rfl

theorem Config.concurrency_pos (cfg : Config) : 0 < cfg.concurrency := by
  unfold Config.concurrency
  split
  · decide
  · omega

theorem Capacity.fresh (cfg : Config) : Capacity (Conn.fresh cfg : Conn Digest) where
  slots := by
    show 0 = total OutFrame.slot [] + 0 +
      total PoolPc.slot (List.replicate cfg.concurrency .idle) + 0
    rw [total_replicate_idle]
    rfl
  sender _ h := nomatch h
  members _ h := by
    cases List.eq_of_mem_replicate h
  size _ := by
    show 0 < (List.replicate cfg.concurrency PoolPc.idle).length
    rw [List.length_replicate]
    exact cfg.concurrency_pos

theorem Capacity.absent : Capacity (Conn.absent : Conn Digest) :=
  ⟨rfl, fun h => (nomatch h), fun h => (nomatch h), fun h => (nomatch h)⟩

theorem Capacity.decided (hcap : Capacity c) (hreading : c.recv = .reading) (e : Exec)
    (outcome : ClaimOutcome Digest) : Capacity (c.decided sha256 e outcome) := by
  have hserving : c.recv.serving = true := by
    rw [hreading]
    rfl
  cases outcome <;> exact hcap.of_recv fun _ => hserving

variable [DecidableEq Digest] {cfg : Config} {a : Action}

/-- A step keeps the account of the slots. -/
theorem capacity_step (hcap : Capacity s.conn) (h : sessionStep sha256 cfg s a = some t) :
    Capacity t.conn := by
  cases step_moves h with
  | connect => exact .fresh cfg
  | cancel | abort => exact hcap.of_recv fun hserving => hserving
  | exec e hreading => exact hcap.decided hreading e _
  | recvError | overflow => exact hcap.of_recv fun hfalse => nomatch hfalse
  | reply m frame hrecv => exact hcap.replied hrecv
  | enter m hrecv => exact hcap.of_recv fun _ => by rw [hrecv]; rfl
  | refuse m hrecv => exact hcap.of_recv fun _ => by rw [hrecv]; rfl
  | serve done pc _ hafter =>
    exact hcap.of_recv fun hserving => absurd hserving (by rw [hafter]; nofun)
  | dequeue w m rest hpc _ => exact hcap.setPool hpc rfl rfl rfl rfl rfl (Or.inl nofun)
  | exit w hpc hclosed =>
    exact hcap.setPool hpc rfl rfl rfl rfl rfl (Or.inr (serving_of_closed hclosed))
  | vanished w m hpc _ => exact hcap.setPool hpc rfl rfl rfl rfl rfl (Or.inl nofun)
  | found w m i hpc => exact hcap.setPool hpc rfl rfl rfl rfl rfl (Or.inl nofun)
  | skip w m i hpc => exact hcap.setPool hpc rfl rfl rfl rfl rfl (Or.inl nofun)
  | start w run m i hpc => exact hcap.setPool hpc rfl rfl rfl rfl rfl (Or.inl nofun)
  | chunk w m r stream data rest hpc _ => exact hcap.setPool hpc rfl rfl rfl rfl rfl (Or.inl nofun)
  | dropped w m r stream n rest hpc _ => exact hcap.setPool hpc rfl rfl rfl rfl rfl (Or.inl nofun)
  | conclude w m r hpc _ => exact hcap.setPool hpc rfl rfl rfl rfl rfl (Or.inl nofun)
  | enqueue w m stage frame after c o hpc henqueued => exact hcap.enqueued hpc henqueued
  | giveUp w m stage frame after hpc _ => exact hcap.gaveUp hpc
  | finish w m hpc => exact hcap.setPool hpc rfl rfl rfl rfl rfl (Or.inl nofun)
  | tick hbeat => exact hcap.beat s.conn rfl rfl rfl (by rw [hbeat]; rfl)
  | beat stage c o hbeat henqueued =>
    obtain ⟨hslots, hpool, hsender, _, hrecv⟩ := slots_enqueued rfl henqueued
    refine hcap.beat c hpool hsender hrecv ?_
    rw [hbeat]
    cases o <;> exact hslots
  | beatExit hbeat => exact hcap.beat s.conn rfl rfl rfl (by rw [hbeat]; rfl)
  | beatGiveUp stage hbeat =>
    have hold := hcap.slots
    unfold Conn.slotsUsed at hold
    have hstage : (BeatPc.enqueueing stage).slot = stage.slot := rfl
    rw [hbeat] at hold
    refine hcap.beat { s.conn with chunkSlots := s.conn.chunkSlots - stage.slot } rfl rfl rfl ?_
    rw [hbeat]
    show s.conn.chunkSlots - stage.slot + total OutFrame.slot s.conn.outbound + stage.slot =
      s.conn.chunkSlots + total OutFrame.slot s.conn.outbound + 0
    omega
  | take ok out rest hready hout =>
    refine hcap.sends ?_ fun _ => nofun
    rw [hready, hout, total_cons]
    show s.conn.chunkSlots + (out.slot + _) + 0 = s.conn.chunkSlots + _ + out.slot
    omega
  | drained ok hready hdraining =>
    refine hcap.sends (by rw [hready]; rfl) fun hserving => ?_
    rw [hdraining] at hserving
    cases hserving
  | release ok out htaken =>
    have hold := hcap.slots
    unfold Conn.slotsUsed at hold
    refine hcap.sends ?_ fun _ => nofun
    rw [htaken] at hold ⊢
    have htake : SenderPc.slot (.taken out) = if out.reserved then 0 else 1 := rfl
    show _ = s.conn.chunkSlots + total OutFrame.slot s.conn.outbound + 0
    rw [htake] at hold ⊢
    split
    · rfl
    · rename_i hreserved
      rw [if_neg hreserved] at hold
      omega
  | discard ok out hholding _ => exact hcap.sends (by rw [hholding]; rfl) fun _ => nofun
  | sent out hholding _ => exact hcap.sends (by rw [hholding]; rfl) fun _ => nofun
  | fail out hholding _ => exact hcap.sends (by rw [hholding]; rfl) fun _ => nofun

theorem capacity_of_reachable (h : Reachable (sessionSystem sha256 cfg) s) : Capacity s.conn := by
  refine Reachable.invariant (P := fun s => Capacity s.conn) ?_ ?_ h
  · intro s hs
    cases hs
    exact .absent
  · intro s t _ hcap hnext
    obtain ⟨a, ha⟩ := hnext
    exact capacity_step hcap ha

end Capacity

end ServerlessHarness.RemoteWorker
