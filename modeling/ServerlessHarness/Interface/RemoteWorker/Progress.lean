import ServerlessHarness.Interface.RemoteWorker.Capacity
import ServerlessHarness.Interface.RemoteWorker.Fates

/-!
# The worker gets to the end of its work

While a connection is not ending, there is an inner step as long as something is left to do: a step
of a goroutine that neither receives a frame nor ends the connection. Each such step can be chosen
to lower a weight, so the worker gets to a state in which nothing is left to do, whatever the runs
of the commands are.
-/

set_option autoImplicit false

namespace ServerlessHarness.RemoteWorker

open Library Protocol

/-! ## Weights -/

def Stage.weight : Stage → ℕ
  | acquire => 7
  | waitSlot => 6
  | push => 5
  | waitPush => 4

def Running.weight (r : Running) : ℕ := 9 + 8 * r.calls.length

def After.weight : After → ℕ
  | run r => r.weight
  | finish => 1

def SenderPc.weight : SenderPc → ℕ
  | taken _ => 2
  | holding _ => 1
  | ready => 0
  | exited => 0

def BeatPc.weight : BeatPc → ℕ
  | enqueueing stage => stage.weight
  | waiting => 0
  | exited => 0

section Weights

variable (runs : ℕ → Run)

/-- What is left to do for an exec that is to be run. -/
def Message.weight (m : Message) : ℕ := 10 + 8 * (runs m.number).calls.length

def PoolPc.weight : PoolPc → ℕ
  | idle => 0
  | dequeued m => m.weight runs + 1
  | admitted m _ => m.weight runs
  | running _ r => r.weight
  | enqueueing _ stage _ after => stage.weight + after.weight
  | finishing _ => 1
  | exited => 0

def RecvPc.weight : RecvPc → ℕ
  | replying _ _ => 4
  | admitting m => m.weight runs + 3
  | reading => 0
  | stopping => 0
  | cancelled => 0
  | waiting => 0
  | draining => 0
  | returned => 0

def Conn.weight {Digest : Type} (c : Conn Digest) : ℕ :=
  3 * c.outbound.length + c.sender.weight + c.recv.weight runs +
    total (fun m => m.weight runs + 2) c.queue + total (PoolPc.weight runs) c.pool + c.beat.weight

end Weights

theorem After.weight_pc (runs : ℕ → Run) (m : Message) (after : After) :
    (after.pc m).weight runs = after.weight := by
  cases after <;> rfl

theorem Stage.weight_pos (stage : Stage) : 0 < stage.weight := by
  cases stage <;> exact Nat.zero_lt_succ _

variable {pc : PoolPc}

theorem PoolPc.of_weight_eq_zero {runs : ℕ → Run} (h : pc.weight runs = 0) :
    pc = .idle ∨ pc = .exited := by
  cases pc with
  | idle => exact Or.inl rfl
  | exited => exact Or.inr rfl
  | dequeued m => cases h
  | admitted m i =>
    have hten : 10 ≤ m.weight runs := Nat.le_add_right _ _
    have hsame : (PoolPc.admitted m i).weight runs = m.weight runs := rfl
    omega
  | running m r =>
    have hnine : 9 ≤ r.weight := Nat.le_add_right _ _
    have hsame : (PoolPc.running m r).weight runs = r.weight := rfl
    omega
  | enqueueing m stage frame after =>
    have hsame : (PoolPc.enqueueing m stage frame after).weight runs =
      stage.weight + after.weight := rfl
    have hstage := stage.weight_pos
    omega
  | finishing m => cases h

theorem PoolPc.weight_pos_of_slot {runs : ℕ → Run} (h : 0 < pc.slot) :
    0 < pc.weight runs := by
  cases pc with
  | enqueueing m stage frame after => exact Nat.add_pos_left stage.weight_pos _
  | idle | dequeued | admitted | running | finishing | exited => cases h

theorem BeatPc.weight_pos_of_slot {pc : BeatPc} (h : 0 < pc.slot) : 0 < pc.weight := by
  cases pc with
  | enqueueing stage => exact stage.weight_pos
  | waiting | exited => cases h

/-! ## Inner steps -/

section Inner

variable {Digest : Type} [DecidableEq Digest] (sha256 : List UInt8 → Digest) (cfg : Config)
  (runs : ℕ → Run)

/-- An action that neither receives a frame nor ends the connection; the runs are the given ones. -/
def Inner (s : Session Digest) : Action → Prop
  | .reply => True
  | .pool _ => True
  | .beat => True
  | .send ok => ok = true
  | .start w run => ∃ m i, s.conn.pool[w]? = some (.admitted m i) ∧ run = runs m.number
  | .connect => False
  | .cancel => False
  | .exec _ => False
  | .abort _ => False
  | .recvError => False
  | .serve => False
  | .giveUp _ => False
  | .beatDone => False

def InnerStep (s t : Session Digest) : Prop :=
  ∃ a, Inner runs s a ∧ sessionStep sha256 cfg s a = some t

variable {sha256 cfg runs} {s t : Session Digest}

theorem reachable_of_innerSteps (h : Reachable (sessionSystem sha256 cfg) s)
    (hst : Relation.ReflTransGen (InnerStep sha256 cfg runs) s t) :
    Reachable (sessionSystem sha256 cfg) t := by
  induction hst with
  | refl => exact h
  | tail _ hstep ih =>
    obtain ⟨a, _, ha⟩ := hstep
    exact .step ih ⟨a, ha⟩

theorem InnerStep.revised (h : InnerStep sha256 cfg runs s t) :
    Revised (fun n run => run = runs n) s.conn.received t.conn.received := by
  obtain ⟨a, hinner, ha⟩ := h
  rcases received_step ha with ⟨hconnect, _⟩ | ⟨e, hexec, _⟩ | hrevised
  · rw [hconnect] at hinner
    cases hinner
  · rw [hexec] at hinner
    cases hinner
  · obtain ⟨n, g, heq, hg⟩ := hrevised
    refine ⟨n, g, heq, ?_⟩
    intro r
    refine ⟨(hg r).1, ?_⟩
    rcases (hg r).2 with hsame | hrefused | hskipped | ⟨run, hran, w, m, i, hstart, hpc, hnumber⟩
    · exact Or.inl hsame
    · exact Or.inr (Or.inl hrefused)
    · exact Or.inr (Or.inr (Or.inl hskipped))
    · refine Or.inr (Or.inr (Or.inr ⟨run, hran, ?_⟩))
      rw [hstart] at hinner
      obtain ⟨m', i', hpc', hrun⟩ := hinner
      rw [hpc] at hpc'
      cases hpc'
      rw [hrun, hnumber]

end Inner

/-! ## One step -/

section Step

variable {Digest : Type} {c c' : Conn Digest} {w : ℕ} {runs : ℕ → Run}

theorem ending_eq_false (h : c.ending = false) : c.done = false ∧ c.recv.serving = true := by
  unfold Conn.ending at h
  obtain ⟨hdone, hserving⟩ := Bool.or_eq_false_iff.mp h
  refine ⟨hdone, ?_⟩
  rw [← Bool.not_not c.recv.serving, hserving]
  rfl

theorem ending_of_same (h : c.ending = false) (hdone : c'.done = c.done)
    (hrecv : c'.recv = c.recv) :
    c'.ending = false := by
  unfold Conn.ending at h ⊢
  rw [hdone, hrecv]
  exact h

theorem room_of_empty (h : c.outbound = []) : c.room = true := by
  unfold Conn.room
  rw [h]
  decide

theorem enqueue_goes_on {stage : Stage} (out : OutFrame) (hroom : c.room = true)
    (hslots : stage.slot = 0 → c.chunkSlots < queueCap) :
    ∃ c' o, c.enqueue out stage = some (c', o) ∧
      3 * c'.outbound.length + o.elim 0 Stage.weight < 3 * c.outbound.length + stage.weight ∧
      c'.done = c.done ∧ c'.recv = c.recv ∧ c'.queue = c.queue ∧ c'.pool = c.pool ∧
      c'.sender = c.sender ∧ c'.beat = c.beat := by
  have hpush : ∀ k, 3 < k →
      3 * (c.push out).outbound.length + 0 < 3 * c.outbound.length + k := by
    intro k hk
    show 3 * (c.outbound ++ [out]).length + 0 < _
    rw [List.length_append, List.length_singleton]
    omega
  cases stage with
  | acquire =>
    refine ⟨_, _, if_pos (hslots rfl), ?_, rfl, rfl, rfl, rfl, rfl, rfl⟩
    show 3 * c.outbound.length + 5 < 3 * c.outbound.length + 7
    omega
  | waitSlot =>
    refine ⟨_, _, if_pos (hslots rfl), ?_, rfl, rfl, rfl, rfl, rfl, rfl⟩
    show 3 * c.outbound.length + 5 < 3 * c.outbound.length + 6
    omega
  | push => exact ⟨_, _, if_pos hroom, hpush 5 (by omega), rfl, rfl, rfl, rfl, rfl, rfl⟩
  | waitPush => exact ⟨_, _, if_pos hroom, hpush 4 (by omega), rfl, rfl, rfl, rfl, rfl, rfl⟩

theorem weight_setPool {pc' : PoolPc} (hpc : c.pool[w]? = some pc)
    (hpool : c'.pool = c.pool.set w pc') (hsender : c'.sender = c.sender)
    (hbeat : c'.beat = c.beat) (hrecv : c'.recv = c.recv)
    (hlighter : 3 * c'.outbound.length + total (fun m => m.weight runs + 2) c'.queue +
      pc'.weight runs <
      3 * c.outbound.length + total (fun m => m.weight runs + 2) c.queue + pc.weight runs) :
    c'.weight runs < c.weight runs := by
  have htotal := total_set (PoolPc.weight runs) pc' hpc
  unfold Conn.weight
  rw [hpool, hsender, hbeat, hrecv]
  omega

theorem holders_of_weight_eq_zero (h : c.weight runs = 0) : c.holders = [] := by
  unfold Conn.weight at h
  have hrecv : c.recv.holding = none := by
    cases hpc : c.recv with
    | replying m frame =>
      rw [hpc] at h
      have hfour : RecvPc.weight runs (.replying m frame) = 4 := rfl
      omega
    | admitting m =>
      rw [hpc] at h
      have hthree : RecvPc.weight runs (.admitting m) = m.weight runs + 3 := rfl
      omega
    | reading | stopping | cancelled | waiting | draining | returned => rfl
  have hqueue : c.queue = [] := by
    cases hq : c.queue with
    | nil => rfl
    | cons m rest =>
      rw [hq, total_cons] at h
      omega
  have hpool : c.pool.filterMap PoolPc.holding = [] := by
    rw [List.filterMap_eq_nil_iff]
    intro pc hin
    obtain ⟨w, hpc⟩ := List.mem_iff_getElem?.mp hin
    have htotal := total_set (PoolPc.weight runs) .idle hpc
    have hidle : PoolPc.weight runs .idle = 0 := rfl
    rcases PoolPc.of_weight_eq_zero (by omega : pc.weight runs = 0) with rfl | rfl
    · rfl
    · rfl
  unfold Conn.holders
  rw [hrecv, hqueue, hpool]
  rfl

variable [DecidableEq Digest] {sha256 : List UInt8 → Digest} {cfg : Config} {s : Session Digest}

/-- A goroutine can go on, and less is left to do then. -/
def GoesOn (sha256 : List UInt8 → Digest) (cfg : Config) (runs : ℕ → Run) (s : Session Digest) :
    Prop :=
  ∃ t, InnerStep sha256 cfg runs s t ∧ t.conn.ending = false ∧
    t.conn.weight runs < s.conn.weight runs

/-- What a step of a member of the pool mostly leaves alone. -/
def Conn.around (c : Conn Digest) := (c.outbound, c.queue, c.sender, c.beat, c.recv, c.done)

/-- It is enough that less is left to do for one member of the pool. -/
theorem goesOn_of_pool {t : Session Digest} {q : PoolPc} (hending : s.conn.ending = false)
    (hpc : s.conn.pool[w]? = some pc) (hstep : InnerStep sha256 cfg runs s t)
    (hpool : t.conn.pool = s.conn.pool.set w q) (hframe : t.conn.around = s.conn.around)
    (hlighter : q.weight runs < pc.weight runs) : GoesOn sha256 cfg runs s := by
  simp only [Conn.around, Prod.mk.injEq] at hframe
  obtain ⟨houtbound, hqueue, hsender, hbeat, hrecv, hdone⟩ := hframe
  refine ⟨t, hstep, ending_of_same hending hdone hrecv,
    weight_setPool hpc hpool hsender hbeat hrecv ?_⟩
  rw [houtbound, hqueue]
  omega

/-- A sender with frames to send can go on. -/
theorem send_goes_on (hcap : Capacity s.conn) (hending : s.conn.ending = false)
    (h : s.conn.sender ≠ .ready ∨ s.conn.outbound ≠ []) :
    GoesOn sha256 cfg runs s := by
  obtain ⟨_, hserving⟩ := ending_eq_false hending
  have hstep : ∃ c, s.conn.sendStep true = some c ∧ c.done = s.conn.done ∧ c.recv = s.conn.recv ∧
      c.weight runs < s.conn.weight runs := by
    unfold Conn.sendStep Conn.weight
    cases hsender : s.conn.sender with
    | ready =>
      cases hout : s.conn.outbound with
      | nil =>
        rcases h with hne | hne
        · exact absurd hsender hne
        · exact absurd hout hne
      | cons out rest =>
        refine ⟨_, rfl, rfl, rfl, ?_⟩
        simp only [SenderPc.weight, List.length_cons]
        omega
    | taken out =>
      refine ⟨_, rfl, rfl, rfl, ?_⟩
      simp only [SenderPc.weight]
      omega
    | holding out =>
      cases hfailed : s.conn.failed with
      | true | false =>
        refine ⟨_, rfl, rfl, rfl, ?_⟩
        simp only [SenderPc.weight]
        omega
    | exited => exact absurd hsender (hcap.sender hserving)
  obtain ⟨c, hc, hdone, hrecv, hlighter⟩ := hstep
  exact ⟨{ s with conn := c }, ⟨.send true, rfl, Option.map_eq_some_iff.mpr ⟨c, hc, rfl⟩⟩,
    ending_of_same hending hdone hrecv, hlighter⟩

/-- A receive loop with a reply in hand can go on. -/
theorem reply_goes_on (hending : s.conn.ending = false) (hroom : s.conn.room = true)
    (hbusy : s.conn.recv ≠ .reading) : GoesOn sha256 cfg runs s := by
  obtain ⟨hdone, hserving⟩ := ending_eq_false hending
  have hlight : ∀ c : Conn Digest, s.conn.replyStep = some c → c.done = s.conn.done →
      c.recv.serving = true → c.weight runs < s.conn.weight runs → GoesOn sha256 cfg runs s := by
    intro c hc hdone' hserving' hlighter
    refine ⟨{ s with conn := c }, ⟨.reply, trivial, Option.map_eq_some_iff.mpr ⟨c, hc, rfl⟩⟩, ?_,
      hlighter⟩
    unfold Conn.ending
    dsimp only
    rw [hdone', hdone, hserving']
    rfl
  cases hrecv : s.conn.recv with
  | reading => exact absurd hrecv hbusy
  | replying m frame =>
    refine hlight { s.conn.push ⟨frame, true, some m.number⟩ with recv := .reading } ?_ rfl rfl ?_
    · unfold Conn.replyStep
      rw [hrecv]
      exact if_pos hroom
    · unfold Conn.weight
      rw [hrecv]
      show 3 * (s.conn.outbound ++ [_]).length + s.conn.sender.weight + 0 + _ + _ +
        s.conn.beat.weight <
        3 * s.conn.outbound.length + s.conn.sender.weight + 4 + _ + _ + s.conn.beat.weight
      rw [List.length_append, List.length_singleton]
      show _ + total (fun m => m.weight runs + 2) s.conn.queue +
        total (PoolPc.weight runs) s.conn.pool + _ < _
      omega
  | admitting m =>
    by_cases hqueue : s.conn.queue.length < queueCap
    · refine hlight { s.conn with queue := s.conn.queue ++ [m], recv := .reading } ?_ rfl rfl ?_
      · unfold Conn.replyStep
        rw [hrecv]
        exact if_pos hqueue
      · unfold Conn.weight
        rw [hrecv]
        dsimp only
        rw [total_append]
        show _ + 0 + (_ + (m.weight runs + 2 + 0)) + _ + _ < _ + (m.weight runs + 3) + _ + _ + _
        omega
    · refine hlight { (s.conn.remove m.exec.reqId).note m.number .refused with
        recv := .replying m (errFrame m.exec.reqId busyText) } ?_ rfl rfl ?_
      · unfold Conn.replyStep
        rw [hrecv]
        exact if_neg hqueue
      · have hweight : 10 ≤ m.weight runs := Nat.le_add_right _ _
        unfold Conn.weight
        rw [hrecv]
        show 3 * s.conn.outbound.length + s.conn.sender.weight + 4 +
          total (fun m => m.weight runs + 2) s.conn.queue + total (PoolPc.weight runs) s.conn.pool +
          s.conn.beat.weight < 3 * s.conn.outbound.length + s.conn.sender.weight +
          (m.weight runs + 3) + _ + _ + _
        omega
  | stopping | cancelled | waiting | draining | returned =>
    rw [hrecv] at hserving
    cases hserving

theorem beat_goes_on (hending : s.conn.ending = false) (hroom : s.conn.room = true)
    (hslots : s.conn.beat.slot = 0 → s.conn.chunkSlots < queueCap)
      (hbusy : 0 < s.conn.beat.weight) :
    GoesOn sha256 cfg runs s := by
  cases hbeat : s.conn.beat with
  | waiting | exited =>
    rw [hbeat] at hbusy
    cases hbusy
  | enqueueing stage =>
    rw [hbeat] at hslots
    obtain ⟨c, o, henqueue, hlighter, hdone, hrecv, hqueue, hpool, hsender, _⟩ :=
      enqueue_goes_on heartbeatFrame hroom hslots
    have hstep : s.conn.beatStep = some { c with beat := o.elim .waiting .enqueueing } := by
      unfold Conn.beatStep
      rw [hbeat]
      dsimp only
      rw [henqueue]
      rfl
    refine ⟨⟨s.cache, { c with beat := o.elim .waiting .enqueueing }⟩,
      ⟨.beat, trivial, Option.map_eq_some_iff.mpr ⟨_, hstep, rfl⟩⟩,
      ending_of_same hending hdone hrecv, ?_⟩
    · have hnext : (o.elim .waiting BeatPc.enqueueing).weight = o.elim 0 Stage.weight := by
        cases o <;> rfl
      have hstage : (BeatPc.enqueueing stage).weight = stage.weight := rfl
      unfold Conn.weight
      dsimp only
      rw [hbeat, hsender, hrecv, hqueue, hpool, hnext, hstage]
      omega

/-- A busy member of the pool can go on. -/
theorem pool_goes_on (hb : Books sha256 s.conn) (hending : s.conn.ending = false)
    (hroom : s.conn.room = true) (hpc : s.conn.pool[w]? = some pc)
    (hslots : pc.slot = 0 → s.conn.chunkSlots < queueCap) (hbusy : 0 < pc.weight runs) :
    GoesOn sha256 cfg runs s := by
  have hstep : ∀ t : Session Digest, s.poolStep sha256 w pc = some t →
      sessionStep sha256 cfg s (.pool w) = some t :=
    fun t ht => Option.bind_eq_some_iff.mpr ⟨pc, hpc, ht⟩
  cases pc with
  | idle | exited => cases hbusy
  | dequeued m =>
    cases hget : s.conn.inflight.get m.exec.reqId with
    | none => exact absurd hget (hb.get_of_waiting hpc rfl)
    | some i =>
      have hnext : s.poolStep sha256 w (.dequeued m) =
          some { s with conn := s.conn.setPool w (.admitted m i) } := by
        unfold Session.poolStep
        dsimp only
        rw [hget]
      exact goesOn_of_pool hending hpc ⟨.pool w, trivial, hstep _ hnext⟩ rfl rfl
        (Nat.lt_succ_self _)
  | admitted m i =>
    cases hdone : s.conn.ctxDone i with
    | true =>
      exact goesOn_of_pool hending hpc ⟨.pool w, trivial, hstep _ (if_pos hdone)⟩ rfl rfl
        (Nat.lt_add_right _ (show 7 + 1 < 10 by decide))
    | false =>
      have hstart : s.conn.startStep w (runs m.number) (.admitted m i) =
          some ((s.conn.note m.number (.ran (runs m.number))).setPool w
            (.running m ⟨(runs m.number).calls, (runs m.number).result, 0⟩)) := by
        unfold Conn.startStep
        dsimp only
        rw [hdone]
        rfl
      exact goesOn_of_pool (t := ⟨s.cache, _⟩) hending hpc
        ⟨.start w (runs m.number), ⟨m, i, hpc, rfl⟩, Option.map_eq_some_iff.mpr
          ⟨_, Option.bind_eq_some_iff.mpr ⟨_, hpc, hstart⟩, rfl⟩⟩ rfl rfl
        (Nat.add_lt_add_right (by decide) _)
  | running m r =>
    cases hcalls : r.calls with
    | nil =>
      have hnext : s.poolStep sha256 w (.running m r) = some (s.concludeStep sha256 w m r) := by
        unfold Session.poolStep
        dsimp only
        rw [hcalls]
      exact goesOn_of_pool hending hpc ⟨.pool w, trivial, hstep _ hnext⟩ rfl rfl
        (Nat.lt_add_right _ (show 7 + 1 < 9 by decide))
    | cons call rest =>
      have hlength : r.calls.length = rest.length + 1 := by
        rw [hcalls, List.length_cons]
      cases call with
      | chunk stream data =>
        have hnext : s.poolStep sha256 w (.running m r) = some ⟨s.cache, s.conn.setPool w
            (.enqueueing m .acquire (.chunk ⟨m.exec.reqId, data, stream⟩)
              (.run { r with calls := rest }))⟩ := by
          unfold Session.poolStep
          dsimp only
          rw [hcalls]
        refine goesOn_of_pool hending hpc ⟨.pool w, trivial, hstep _ hnext⟩ rfl rfl ?_
        show 7 + (9 + 8 * rest.length) < 9 + 8 * r.calls.length
        omega
      | dropped stream n =>
        have hnext : s.poolStep sha256 w (.running m r) = some ⟨s.cache, s.conn.setPool w
            (.running m { r with
              calls := rest, dropped := r.dropped + (SinkCall.dropped stream n).cut })⟩ := by
          unfold Session.poolStep
          dsimp only
          rw [hcalls]
        refine goesOn_of_pool hending hpc ⟨.pool w, trivial, hstep _ hnext⟩ rfl rfl ?_
        show 9 + 8 * rest.length < 9 + 8 * r.calls.length
        omega
  | enqueueing m stage frame after =>
    obtain ⟨c, o, henqueue, hlighter, hdone, hrecv, hqueue, hpool, hsender, hbeat⟩ :=
      enqueue_goes_on (c := s.conn) ⟨frame, false, some m.number⟩ hroom hslots
    have hnext : s.poolStep sha256 w (.enqueueing m stage frame after) = some ⟨s.cache, c.setPool w
        (o.elim (after.pc m) fun stage => .enqueueing m stage frame after)⟩ := by
      unfold Session.poolStep
      dsimp only
      rw [henqueue]
      rfl
    have hset : (c.setPool w (o.elim (after.pc m)
        fun stage => .enqueueing m stage frame after)).pool =
        s.conn.pool.set w (o.elim (after.pc m) fun stage => .enqueueing m stage frame after) := by
      rw [← hpool]
      rfl
    refine ⟨_, ⟨.pool w, trivial, hstep _ hnext⟩, ending_of_same hending hdone hrecv,
      weight_setPool hpc hset hsender hbeat hrecv ?_⟩
    · have hweight : (o.elim (after.pc m)
          fun stage => PoolPc.enqueueing m stage frame after).weight runs =
          o.elim 0 Stage.weight + after.weight := by
        cases o with
        | none =>
          show (after.pc m).weight runs = 0 + after.weight
          rw [After.weight_pc, Nat.zero_add]
        | some stage' => rfl
      have hnow : (PoolPc.enqueueing m stage frame after).weight runs =
        stage.weight + after.weight := rfl
      show 3 * c.outbound.length + total _ c.queue + _ < _
      rw [hqueue, hweight, hnow]
      omega
  | finishing m =>
    refine goesOn_of_pool (q := .idle) hending hpc ⟨.pool w, trivial, hstep _ rfl⟩ ?_ ?_
      (Nat.lt_succ_self 0)
    · unfold Conn.finish
      rw [cancelSlot_eq]
      rfl
    · unfold Conn.finish
      rw [cancelSlot_eq]
      rfl

theorem dequeue_goes_on (hending : s.conn.ending = false) (hpc : s.conn.pool[w]? = some .idle)
    (hqueue : s.conn.queue ≠ []) :
    GoesOn sha256 cfg runs s := by
  cases heq : s.conn.queue with
  | nil => exact absurd heq hqueue
  | cons m rest =>
    have hnext : s.poolStep sha256 w .idle =
        some ⟨s.cache, { s.conn with queue := rest }.setPool w (.dequeued m)⟩ := by
      unfold Session.poolStep
      dsimp only
      rw [heq]
    refine ⟨_, ⟨.pool w, trivial, Option.bind_eq_some_iff.mpr ⟨_, hpc, hnext⟩⟩,
      ending_of_same hending rfl rfl, weight_setPool hpc rfl rfl rfl rfl ?_⟩
    · rw [heq, total_cons]
      show 3 * s.conn.outbound.length + total _ rest + (m.weight runs + 1) <
        3 * s.conn.outbound.length + (m.weight runs + 2 + total _ rest) + 0
      omega

/-- INTERNAL: **while something is left to do, a goroutine goes on with it**. -/
theorem exists_innerStep (cfg : Config) (runs : ℕ → Run) (hb : Books sha256 s.conn)
    (hcap : Capacity s.conn)
    (hending : s.conn.ending = false) (hleft : 0 < s.conn.weight runs) :
    GoesOn sha256 cfg runs s := by
  obtain ⟨_, hserving⟩ := ending_eq_false hending
  by_cases hsend : s.conn.sender ≠ .ready ∨ s.conn.outbound ≠ []
  · exact send_goes_on hcap hending hsend
  · rw [not_or, not_not, not_not] at hsend
    obtain ⟨hready, hempty⟩ := hsend
    have hroom : s.conn.room = true := room_of_empty hempty
    by_cases hrecv : s.conn.recv ≠ .reading
    · exact reply_goes_on hending hroom hrecv
    · rw [not_not] at hrecv
      -- those who have a slot first: then every slot is free
      by_cases hpush : 0 < total PoolPc.slot s.conn.pool
      · obtain ⟨pc, hin, hslot⟩ := exists_pos_of_total_pos hpush
        obtain ⟨w, hpc⟩ := List.mem_iff_getElem?.mp hin
        exact pool_goes_on hb hending hroom hpc (fun hzero => absurd hzero (by omega))
          (PoolPc.weight_pos_of_slot hslot)
      · by_cases hbeat : 0 < s.conn.beat.slot
        · exact beat_goes_on hending hroom (fun hzero => absurd hzero (by omega))
            (BeatPc.weight_pos_of_slot hbeat)
        · have hfree : s.conn.chunkSlots < queueCap := by
            have hslots := hcap.slots
            unfold Conn.slotsUsed at hslots
            rw [hready, hempty] at hslots
            have hzero : total OutFrame.slot [] = 0 := rfl
            have hzero' : SenderPc.slot .ready = 0 := rfl
            have hcapacity : 0 < queueCap := by decide
            omega
          by_cases hpool : 0 < total (PoolPc.weight runs) s.conn.pool
          · obtain ⟨pc, hin, hweight⟩ := exists_pos_of_total_pos hpool
            obtain ⟨w, hpc⟩ := List.mem_iff_getElem?.mp hin
            exact pool_goes_on hb hending hroom hpc (fun _ => hfree) hweight
          · by_cases hqueue : s.conn.queue ≠ []
            · obtain ⟨pc, hpc⟩ : ∃ pc, s.conn.pool[0]? = some pc :=
                ⟨_, List.getElem?_eq_getElem (hcap.size hserving)⟩
              have hmem : pc ∈ s.conn.pool := List.mem_of_getElem? hpc
              have hzero : pc.weight runs = 0 := by
                have htotal := total_set (PoolPc.weight runs) .idle hpc
                have hidle : PoolPc.weight runs .idle = 0 := rfl
                omega
              have hidle : pc = .idle := by
                rcases PoolPc.of_weight_eq_zero hzero with hidle | hexited
                · exact hidle
                · exact absurd (hexited ▸ hmem) (hcap.members hserving)
              rw [hidle] at hpc
              exact dequeue_goes_on hending hpc hqueue
            · rw [not_not] at hqueue
              refine beat_goes_on hending hroom (fun _ => hfree) ?_
              unfold Conn.weight at hleft
              rw [hready, hempty, hrecv, hqueue] at hleft
              have hzero : SenderPc.weight .ready = 0 := rfl
              have hzero' : RecvPc.weight runs .reading = 0 := rfl
              rw [List.length_nil, total_nil] at hleft
              omega

/-- INTERNAL: **the worker gets to a state in which nothing is left to do**. -/
theorem exists_rest (runs : ℕ → Run) (h : Reachable (sessionSystem sha256 cfg) s)
    (hending : s.conn.ending = false) :
    ∃ t, Relation.ReflTransGen (InnerStep sha256 cfg runs) s t ∧ t.conn.ending = false ∧
      t.conn.weight runs = 0 := by
  induction hw : s.conn.weight runs using Nat.strongRecOn generalizing s with
  | ind n ih =>
    by_cases hzero : s.conn.weight runs = 0
    · exact ⟨s, .refl, hending, hzero⟩
    · obtain ⟨t, hstep, hending', hlighter⟩ :=
        exists_innerStep cfg runs (books_of_reachable h) (capacity_of_reachable h) hending
          (Nat.pos_of_ne_zero hzero)
      obtain ⟨a, _, ha⟩ := id hstep
      obtain ⟨u, hsteps, hdone⟩ := ih _ (hw ▸ hlighter) (.step h ⟨a, ha⟩) hending' rfl
      exact ⟨u, .head hstep hsteps, hdone⟩

end Step

end ServerlessHarness.RemoteWorker
