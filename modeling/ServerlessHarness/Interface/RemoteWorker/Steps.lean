import ServerlessHarness.Interface.RemoteWorker.Books
import ServerlessHarness.Interface.RemoteWorker.Moves

/-!
# Every step keeps the books
-/

set_option autoImplicit false

namespace ServerlessHarness.RemoteWorker

open Library Protocol

variable {frame : Frame} {e : Exec} {pc pc' : PoolPc} {n : ℕ} {ending ending' flies : Bool}
  {fate : Fate} {r : Received} {said said' : ℕ → List Frame} {stage : Stage} {todo : List Frame}

section Steps

variable {Digest : Type} {sha256 : List UInt8 → Digest} {cfg : Config} {c c' : Conn Digest}
  {w : ℕ} {m : Message}

/-! ## The law after a step -/

theorem Law.say {o : Option Holding}
    (h : Law said ending n r (some ⟨e, some (frame :: todo), flies⟩))
    (hsaid : said' n = said n ++ [frame]) (hending : ending = true → ending' = true)
    (hexec : ∀ b, o = some b → b.exec = e) (htodo : o.elim (some []) Holding.todo = some todo) :
    Law said' ending' n r o where
  exec b hb := (h.exec _ rfl).trans (hexec b hb).symm
  owes := by
    rw [hsaid, htodo]
    exact h.owes.say
  lost hlost := hending (h.lost hlost)

theorem Law.lose {o : Option Holding}
    (h : Law said ending n r (some ⟨e, some (frame :: todo), flies⟩)) (hsaid : said' n = said n)
    (hending : ending' = true) (hexec : ∀ b, o = some b → b.exec = e)
    (htodo : o.elim (some []) Holding.todo = some todo) :
    Law said' ending' n { r with lost := true } o where
  exec b hb := (h.exec _ rfl).trans (hexec b hb).symm
  owes := by
    rw [hsaid, htodo]
    exact h.owes.lose
  lost _ := hending

theorem Law.decide {flies' : Bool} (h : Law said ending n r (some ⟨e, none, flies⟩))
    (hscript : ∀ lost, Received.script ⟨e, fate, lost⟩ = some todo) (hsaid : said' n = said n)
    (hending : ending = true → ending' = true) :
    Law said' ending' n { r with fate := fate } (some ⟨e, some todo, flies'⟩) where
  exec b hb := by
    cases hb
    have hexec : r.exec = e := h.exec _ rfl
    exact hexec
  owes := by
    rw [hsaid]
    refine h.owes.decide ?_
    have hexec : r.exec = e := h.exec _ rfl
    rw [hexec]
    exact hscript r.lost
  lost hlost := hending (h.lost hlost)

/-! ## Sending -/

theorem said_push_of_origin_none (c : Conn Digest) {out : OutFrame} (h : out.origin = none) :
    (c.push out).said = c.said := by
  funext n
  rw [said_push, h]
  exact List.append_nil _

theorem said_push_self (c : Conn Digest) (frame : Frame) (reserved : Bool) (n : ℕ) :
    (c.push ⟨frame, reserved, some n⟩).said n = c.said n ++ [frame] := by
  rw [said_push, if_pos rfl]

theorem said_push_ne (c : Conn Digest) (frame : Frame) (reserved : Bool) {j : ℕ} (h : j ≠ n) :
    (c.push ⟨frame, reserved, some n⟩).said j = c.said j := by
  rw [said_push, if_neg]
  · exact List.append_nil _
  · intro heq
    exact h (Option.some.inj heq).symm

/-- INTERNAL: **the sender goes on**: no frame is lost on the way, and none is handed on twice. -/
theorem Books.sender (hb : Books sha256 c) {outbound sent discarded : List OutFrame} {pc : SenderPc}
    {k : ℕ} {failed done : Bool}
    (hpushed : sent ++ (discarded ++ (pc.held.toList ++ outbound)) = c.pushed)
    (horder : failed = false → discarded = []) (hdone : c.done = true → done = true) :
    Books sha256 { c with
      outbound := outbound, sent := sent, discarded := discarded, sender := pc, chunkSlots := k,
      failed := failed, done := done } := by
  refine hb.still (.refl _) rfl (.refl _) rfl ?_ ?_ ⟨horder, ?_⟩
  · unfold Conn.said
    rw [← hpushed]
    rfl
  · unfold Conn.ending
    rw [Bool.or_eq_true, Bool.or_eq_true]
    exact Or.imp_left hdone
  · intro out hout
    exact hb.lane.anonymous out (hpushed ▸ hout)

/-- What the sender holds is the first frame after those that it handed on. -/
theorem Books.pushed_holding (hb : Books sha256 c) {out : OutFrame}
    (hholding : c.sender = .holding out)
    (hsound : c.failed = false) : c.pushed = c.sent ++ ([out] ++ c.outbound) := by
  unfold Conn.pushed
  rw [hholding, hb.lane.order hsound]
  rfl

theorem Books.beat (hb : Books sha256 c) {o : Option Stage} (pc : BeatPc)
    (h : Enqueued c heartbeatFrame stage c' o) : Books sha256 { c' with beat := pc } := by
  cases h with
  | takes | waits => exact hb.still (.refl _) rfl (.refl _) rfl rfl (fun hending => hending) hb.lane
  | queues _ =>
    exact hb.still (.refl _) rfl (.refl _) rfl (said_push_of_origin_none c rfl)
      (fun hending => hending) (hb.lane.push fun _ => rfl)

/-! ## The receive loop -/

theorem Books.unused (hb : Books sha256 c) {reqId : ℕ} (h : c.slotFor reqId = none) :
    c.inflight.get reqId = none := by
  cases hget : c.inflight.get reqId with
  | none => rfl
  | some i =>
    obtain ⟨m, _, _, slot, hslot, _⟩ := hb.registry.cell_of_get hget
    unfold Conn.slotFor at h
    rw [hget, Option.bind_some, hslot] at h
    cases h

theorem ending_of_reading (hreading : c.recv = .reading) (hserving : c'.recv.serving = true)
    (hdone : c'.done = c.done) : c'.ending = c.ending := by
  unfold Conn.ending
  rw [hserving, hdone, hreading]
  rfl

theorem ending_of_serving (hserving : c.recv.serving = true) (hdone : c'.done = c.done) :
    c.ending = true → c'.ending = true := by
  unfold Conn.ending
  rw [hserving, hdone, Bool.not_true, Bool.or_false]
  intro h
  rw [h, Bool.true_or]

theorem holders_of_reading (hreading : c.recv = .reading) (hqueue : c'.queue = c.queue)
    (hpool : c'.pool = c.pool) : c'.holders = c'.recv.holding.toList ++ c.holders := by
  unfold Conn.holders
  rw [hqueue, hpool, hreading]
  rfl

/-- INTERNAL: **an exec that is answered at once**, by the receive loop. -/
theorem Books.reply (hb : Books sha256 c) (hreading : c.recv = .reading)
    (hscript : Received.script ⟨e, fate, false⟩ = some [frame]) :
    Books sha256 { c.record e fate with recv := .replying ⟨c.received.length, e⟩ frame } := by
  refine hb.arrive (o := some ⟨e, some [frame], false⟩) ?_ ?_ rfl rfl rfl rfl ?_ ?_ ?_ rfl hb.lane
  · exact .of_eq (holders_of_reading hreading rfl rfl)
  · intro a ha
    cases ha
    rfl
  · exact ending_of_reading hreading rfl rfl
  · intro a ha
    cases ha
    rfl
  · exact .of_eq hscript

theorem Books.decided (hb : Books sha256 c) (hreading : c.recv = .reading)
    {outcome : ClaimOutcome Digest} (h : outcome = .admitted → c.slotFor e.reqId = none) :
    Books sha256 (c.decided sha256 e outcome) := by
  cases outcome with
  | coalesced slot =>
    refine hb.arrive (o := none) (.refl _) ?_ rfl rfl rfl rfl rfl ?_ ?_ rfl hb.lane
    · exact fun a ha => nomatch ha
    · exact fun a ha => nomatch ha
    · exact .of_eq rfl
  | collision | cacheHit => exact hb.reply hreading rfl
  | admitted =>
    refine hb.admitted ?_ (hb.unused (h rfl)) rfl rfl rfl rfl ?_ hb.lane
    · exact .of_eq (holders_of_reading hreading rfl rfl)
    · exact ending_of_reading hreading rfl rfl

theorem claim_admitted [DecidableEq Digest] {s : Session Digest}
    (h : (s.claim sha256 e).1 = .admitted) : s.conn.slotFor e.reqId = none := by
  unfold Session.claim at h
  split at h
  · split at h
    · cases h
    · cases h
  · rename_i hslot
    exact hslot

theorem holders_of_recv {h : ℕ × Holding} (hrecv : c.recv.holding = some h) :
    c.holders.Perm (h :: (c.queue.map Message.waiting ++ c.pool.filterMap PoolPc.holding)) := by
  refine .of_eq ?_
  unfold Conn.holders
  rw [hrecv]
  rfl

theorem Books.replied (hb : Books sha256 c) (hrecv : c.recv = .replying m frame) :
    Books sha256 { c.push ⟨frame, true, some m.number⟩ with recv := .reading } := by
  have hending : c.ending = true →
      Conn.ending { c.push ⟨frame, true, some m.number⟩ with recv := .reading } = true :=
    ending_of_serving (by rw [hrecv]; rfl) rfl
  refine hb.answer (g := id) (holders_of_recv (by rw [hrecv]; rfl)) (.refl _) rfl rfl rfl
    (List.modify_id _ _).symm ?_ hending ?_ (hb.lane.push fun horigin => nomatch horigin)
  · exact fun j hj => said_push_ne c frame true hj
  · exact fun r hl => hl.say (said_push_self c frame true m.number) hending
      (fun b hb => nomatch hb) rfl

theorem Books.overflowed (hb : Books sha256 c) (hrecv : c.recv = .replying m frame) :
    Books sha256 { c.lose m.number with recv := .stopping } := by
  refine hb.answer (holders_of_recv (by rw [hrecv]; rfl)) (.refl _) rfl rfl rfl rfl ?_ ?_ ?_ hb.lane
  · exact fun j _ => rfl
  · exact fun _ => ending_of_not_serving rfl
  · exact fun r hl => hl.lose rfl (ending_of_not_serving rfl) (fun b hb => nomatch hb) rfl

theorem Books.queued (hb : Books sha256 c) (hrecv : c.recv = .admitting m) :
    Books sha256 { c with queue := c.queue ++ [m], recv := .reading } := by
  refine hb.still ?_ rfl (.refl _) rfl rfl (ending_of_serving (by rw [hrecv]; rfl) rfl) hb.lane
  refine List.Perm.trans ?_ (holders_of_recv (h := m.waiting) (by rw [hrecv]; rfl)).symm
  show ((c.queue ++ [m]).map Message.waiting ++ _).Perm _
  rw [List.map_append, List.append_assoc]
  exact List.perm_middle

theorem Books.refused (hb : Books sha256 c) (hrecv : c.recv = .admitting m) :
    Books sha256 { (c.remove m.exec.reqId).note m.number .refused with
      recv := .replying m (errFrame m.exec.reqId busyText) } := by
  have hserving : c.recv.serving = true := by
    rw [hrecv]
    rfl
  refine hb.land (o := some ⟨m.exec, some [errFrame m.exec.reqId busyText], false⟩)
    (holders_of_recv (h := m.waiting) (by rw [hrecv]; rfl)) (.refl _) rfl ?_ rfl (.refl _) rfl
    (fun j _ => rfl) (ending_of_serving hserving rfl) ?_ hb.lane
  · intro b hb
    cases hb
    rfl
  · exact fun r hl => hl.decide (fun _ => rfl) rfl (ending_of_serving hserving rfl)

theorem RecvPc.holding_of_not_serving {pc : RecvPc} (h : pc.serving = false) :
    pc.holding = none := by
  cases pc with
  | replying | admitting => cases h
  | _ => rfl

theorem Books.served (hb : Books sha256 c) (done : Bool) {pc : RecvPc}
    (hbefore : c.recv.serving = false)
    (hafter : pc.serving = false) : Books sha256 { c with done := done, recv := pc } := by
  refine hb.still ?_ rfl (.refl _) rfl rfl (fun _ => ending_of_not_serving hafter) hb.lane
  refine .of_eq ?_
  unfold Conn.holders
  dsimp only
  rw [RecvPc.holding_of_not_serving hbefore, RecvPc.holding_of_not_serving hafter]

/-! ## The pool -/

theorem holders_setPool_of_eq (hpc : c.pool[w]? = some pc) (heq : pc'.holding = pc.holding) :
    (c.setPool w pc').holders.Perm c.holders := by
  refine (holders_setPool pc' hpc).trans ?_
  rw [heq]
  exact (holders_perm hpc).symm

theorem Books.setPool (hb : Books sha256 c) (hpc : c.pool[w]? = some pc)
    (heq : pc'.holding = pc.holding) : Books sha256 (c.setPool w pc') :=
  hb.still (holders_setPool_of_eq hpc heq) rfl (.refl _) rfl rfl (fun hending => hending) hb.lane

theorem Books.chunkSlots (hb : Books sha256 c) (k : ℕ) : Books sha256 { c with chunkSlots := k } :=
  hb.still (.refl _) rfl (.refl _) rfl rfl (fun hending => hending) hb.lane

theorem mem_flight_of_waiting (hpc : c.pool[w]? = some pc) (hm : pc.holding = some m.waiting) :
    m ∈ c.flight := by
  refine List.mem_filterMap.mpr ⟨m.waiting, ?_, rfl⟩
  rw [(holders_perm hpc).mem_iff, hm]
  exact List.mem_cons_self

theorem Books.get_of_waiting (hb : Books sha256 c) (hpc : c.pool[w]? = some pc)
    (hm : pc.holding = some m.waiting) : c.inflight.get m.exec.reqId ≠ none := by
  obtain ⟨i, hi, _⟩ := hb.registry.found m (mem_flight_of_waiting hpc hm)
  rw [hi]
  exact Option.some_ne_none i

/-- INTERNAL: **what becomes of an admitted exec is decided**. -/
theorem Books.decide (hb : Books sha256 c) (hpc : c.pool[w]? = some pc)
    (hm : pc.holding = some m.waiting) {script : List Frame}
    (hholding : pc'.holding = some (m.number, ⟨m.exec, some script, true⟩))
    (hscript : ∀ lost, Received.script ⟨m.exec, fate, lost⟩ = some script) :
    Books sha256 ((c.note m.number fate).setPool w pc') := by
  have hbefore := holders_perm hpc
  have hafter : ((c.note m.number fate).setPool w pc').holders.Perm (_ ++ c.others w) :=
    holders_setPool (c := c.note m.number fate) pc' hpc
  rw [hm] at hbefore
  rw [hholding] at hafter
  refine hb.move hbefore hafter rfl rfl rfl rfl (fun j _ => rfl) (fun hending => hending) ?_ hb.lane
  exact fun r hl => hl.decide hscript rfl fun hending => hending

theorem Books.enqueued (hb : Books sha256 c) {after : After}
    (hpc : c.pool[w]? = some (.enqueueing m stage frame after)) {o : Option Stage}
    (h : Enqueued c ⟨frame, false, some m.number⟩ stage c' o) :
    Books sha256
      (c'.setPool w (o.elim (after.pc m) fun stage => .enqueueing m stage frame after)) := by
  cases h with
  | takes _ _ => exact (hb.chunkSlots _).setPool hpc rfl
  | waits _ => exact hb.setPool hpc rfl
  | queues _ =>
    have hafter : ((c.push ⟨frame, false, some m.number⟩).setPool w (after.pc m)).holders.Perm
        (_ ++ c.others w) := holders_setPool (c := c.push _) (after.pc m) hpc
    rw [After.holding_pc] at hafter
    refine hb.move (g := id) (holders_perm hpc) hafter rfl rfl rfl (List.modify_id _ _).symm ?_
      (fun hending => hending) ?_ (hb.lane.push fun horigin => nomatch horigin)
    · exact fun j hj => said_push_ne c frame false hj
    · intro r hl
      refine hl.say (said_push_self c frame false m.number) (fun hending => hending) ?_ rfl
      intro b hb
      cases hb
      rfl

theorem Books.dequeued (hb : Books sha256 c) {rest : List Message} (hpc : c.pool[w]? = some .idle)
    (hqueue : c.queue = m :: rest) :
    Books sha256 ({ c with queue := rest }.setPool w (.dequeued m)) := by
  refine hb.still ?_ rfl (.refl _) rfl rfl (fun hending => hending) hb.lane
  -- The exec moves from the queue to the member.
  refine (holders_setPool (c := { c with queue := rest }) (.dequeued m) hpc).trans ?_
  refine List.Perm.trans ?_ (holders_perm hpc).symm
  show (m.waiting :: (c.recv.holding.toList ++ (rest.map Message.waiting ++ _))).Perm (c.others w)
  unfold Conn.others
  rw [hqueue]
  exact List.perm_middle.symm

theorem Books.finished (hb : Books sha256 c) (hpc : c.pool[w]? = some (.finishing m))
    {slots : List (Slot Digest)} (hslots : SlotsKept c.slots slots) :
    Books sha256
      ({ c with slots := slots, inflight := c.inflight.erase m.exec.reqId }.setPool w .idle) := by
  have hafter : ({ c with slots := slots, inflight := c.inflight.erase m.exec.reqId }.setPool w
      .idle).holders.Perm (c.others w) :=
    holders_setPool (c := { c with slots := slots, inflight := c.inflight.erase m.exec.reqId })
      .idle hpc
  refine hb.land (o := none) (g := id) (holders_perm hpc) hafter rfl (fun b hb => nomatch hb) rfl
    hslots (List.modify_id _ _).symm (fun j _ => rfl) (fun hending => hending) ?_ hb.lane
  intro r hl
  exact ⟨fun b hb => (nomatch hb), hl.owes, hl.lost⟩

theorem Books.gaveUp (hb : Books sha256 c) {after : After}
    (hpc : c.pool[w]? = some (.enqueueing m stage frame after)) (hdone : c.done = true) (k : ℕ) :
    Books sha256 ((Conn.lose { c with chunkSlots := k } m.number).setPool w (after.pc m)) := by
  have hafter : ((Conn.lose { c with chunkSlots := k } m.number).setPool w
      (after.pc m)).holders.Perm
        (_ ++ c.others w) :=
    holders_setPool (c := Conn.lose { c with chunkSlots := k } m.number) (after.pc m) hpc
  rw [After.holding_pc] at hafter
  refine hb.move (holders_perm hpc) hafter rfl rfl rfl rfl (fun j _ => rfl)
    (fun hending => hending) ?_ hb.lane
  intro r hl
  refine hl.lose rfl (ending_of_done hdone) ?_ rfl
  intro b hb
  cases hb
  rfl

/-! ## Runs -/

theorem Books.fresh : Books sha256 (Conn.fresh cfg : Conn Digest) := by
  have hnone : (Conn.fresh cfg : Conn Digest).holders = [] := by
    show (List.replicate cfg.concurrency PoolPc.idle).filterMap PoolPc.holding = []
    rw [List.filterMap_replicate_of_none rfl]
  refine ⟨?_, ?_, fun _ _ => rfl, fun _ => rfl, ?_⟩
  · rw [hnone]
    exact .empty
  · unfold Conn.flight
    rw [hnone]
    exact .empty
  · intro out hout _
    rw [List.mem_singleton.mp hout]
    rfl

theorem Books.absent : Books sha256 (Conn.absent : Conn Digest) :=
  ⟨.empty, .empty, fun _ _ => rfl, fun _ => rfl, fun _ hout => (nomatch hout)⟩

section Runs

variable [DecidableEq Digest] {s t : Session Digest} {a : Action}

/-- INTERNAL: **every step keeps the books**. -/
theorem books_step (hb : Books sha256 s.conn) (h : sessionStep sha256 cfg s a = some t) :
    Books sha256 t.conn := by
  cases step_moves h with
  | connect => exact .fresh
  | cancel => exact hb.still (.refl _) rfl (.refl _) rfl rfl (fun _ => ending_of_done rfl) hb.lane
  | exec e hreading => exact hb.decided hreading claim_admitted
  | abort reqId =>
    exact hb.still (.refl _) rfl (slotsKept_cancelSlot s.conn reqId) rfl rfl
      (fun hending => hending)
      hb.lane
  | recvError hreading =>
    refine hb.still ?_ rfl (.refl _) rfl rfl (fun _ => ending_of_not_serving rfl) hb.lane
    exact .of_eq (holders_of_reading hreading rfl rfl)
  | reply m frame hrecv => exact hb.replied hrecv
  | overflow m frame hrecv => exact hb.overflowed hrecv
  | enter m hrecv => exact hb.queued hrecv
  | refuse m hrecv => exact hb.refused hrecv
  | serve done pc hbefore hafter => exact hb.served done hbefore hafter
  | dequeue w m rest hpc hqueue => exact hb.dequeued hpc hqueue
  | exit w hpc _ => exact hb.setPool hpc rfl
  | vanished w m hpc hmissing => exact absurd hmissing (hb.get_of_waiting hpc rfl)
  | found w m i hpc => exact hb.setPool hpc rfl
  | skip w m i hpc => exact hb.decide hpc rfl rfl fun _ => rfl
  | start w run m i hpc => exact hb.decide hpc rfl rfl fun _ => rfl
  | chunk w m r stream data rest hpc hcalls =>
    refine hb.setPool hpc ?_
    rw [PoolPc.holding_running, r.script_chunk m.exec stream data rest hcalls]
    rfl
  | dropped w m r stream n rest hpc hcalls =>
    refine hb.setPool hpc ?_
    rw [PoolPc.holding_running m r, r.script_dropped m.exec stream n rest hcalls]
    rfl
  | conclude w m r hpc hcalls =>
    refine hb.setPool hpc ?_
    rw [PoolPc.holding_running, r.script_nil m.exec hcalls]
    rfl
  | enqueue w m stage frame after c o hpc henqueued => exact hb.enqueued hpc henqueued
  | giveUp w m stage frame after hpc hdone => exact hb.gaveUp hpc hdone _
  | finish w m hpc => exact hb.finished hpc (slotsKept_cancelSlot s.conn _)
  | tick | beatExit =>
    exact hb.still (.refl _) rfl (.refl _) rfl rfl (fun hending => hending) hb.lane
  | beat stage c o _ henqueued => exact hb.beat _ henqueued
  | beatGiveUp stage _ =>
    exact hb.still (.refl _) rfl (.refl _) rfl rfl (fun hending => hending) hb.lane
  | take ok out rest hready hout =>
    refine hb.sender ?_ hb.lane.order fun hdone => hdone
    rw [Conn.pushed, hready, hout]
    rfl
  | drained ok hready _ =>
    refine hb.sender ?_ hb.lane.order fun hdone => hdone
    rw [Conn.pushed, hready]
    rfl
  | release ok out htaken =>
    refine hb.sender ?_ hb.lane.order fun hdone => hdone
    rw [Conn.pushed, htaken]
    rfl
  | discard ok out hholding hfailed =>
    refine hb.sender ?_ (fun hsound => absurd hfailed (ne_true_of_eq_false hsound)) fun hdone =>
      hdone
    rw [Conn.pushed, hholding, List.append_assoc]
    rfl
  | sent out hholding hsound =>
    refine hb.sender ?_ hb.lane.order fun hdone => hdone
    rw [hb.pushed_holding hholding hsound, hb.lane.order hsound, List.append_assoc]
    rfl
  | fail out hholding hsound =>
    refine hb.sender ?_ (fun hfalse => nomatch hfalse) fun _ => rfl
    rw [hb.pushed_holding hholding hsound, hb.lane.order hsound]
    rfl

/-- INTERNAL: **the books are in order at any time**. -/
theorem books_of_reachable (h : Reachable (sessionSystem sha256 cfg) s) : Books sha256 s.conn := by
  refine Reachable.invariant (P := fun s => Books sha256 s.conn) ?_ ?_ h
  · intro s hs
    cases hs
    exact .absent
  · intro s t _ hb hnext
    obtain ⟨a, ha⟩ := hnext
    exact books_step hb ha

end Runs

end Steps

end ServerlessHarness.RemoteWorker
