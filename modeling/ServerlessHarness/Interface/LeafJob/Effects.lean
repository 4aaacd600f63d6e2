import ServerlessHarness.Model.LeafJob.Worker

/-!
# What one step of a leaf-job process does

`JobEffect` lists the steps of a process by what they do to the queue, the acknowledgements
and the result records, with the place the process leaves and the place it reaches.
`workerStep_effect` shows that there are no others, and `QueueMove` adds the steps of the queue
itself; every invariant of the queue is proved over these lists.
-/

set_option autoImplicit false

namespace ServerlessHarness.LeafJob

open Library

variable {host : Host} {cfg : JobConfig}

/-- The entry a process has claimed and not yet acknowledged. -/
def Pc.current : Pc → Option StreamId
  | .reapAck id _ _ _ => some id
  | .claimCount id _ => some id
  | .running id _ _ => some id
  | .write id _ _ _ _ => some id
  | .ack id => some id
  | _ => none

@[simp] theorem current_writeNext (dead : List DeadLetter) :
    (writeNext host dead).current = none := by
  fun_induction writeNext host dead <;> simp_all [Pc.current]

@[simp] theorem current_reapNext (ids : List StreamId) (dead : List DeadLetter) :
    (reapNext host ids dead).current = none := by
  cases ids with
  | nil => exact current_writeNext dead
  | cons id ids => rfl

@[simp] theorem current_gcNext (names : List String) : (gcNext names).current = none := by
  cases names <;> rfl

theorem processClaimed_cases (host : Host) (cfg : JobConfig) (id : StreamId) (env : Json) (n : ℕ) :
    processClaimed host cfg id env n = .exited 1 ∨
    ∃ sid, leafSessionId host env = some sid ∧
      (processClaimed host cfg id env n = .write id env sid deadLetterResult true ∨
        processClaimed host cfg id env n = .running id env sid) := by
  unfold processClaimed
  split
  · exact .inl rfl
  · rename_i sid hsid
    refine .inr ⟨sid, hsid, ?_⟩
    split
    · exact .inl rfl
    · exact .inr rfl

theorem afterRun_cases (id : StreamId) (env : Json) (sid : String) (result : LeafResult) :
    afterRun id env sid result = .exited 1 ∨
    ∃ acks, afterRun id env sid result = .write id env sid result acks := by
  unfold afterRun
  simp only
  split
  · exact .inl rfl
  · exact .inr ⟨_, rfl⟩

variable {pc : Pc} {ts : String} {id : StreamId}

theorem current_processClaimed {env : Json} {n : ℕ}
    (going : (processClaimed host cfg id env n).stopped = false) :
    (processClaimed host cfg id env n).current = some id := by
  rcases processClaimed_cases host cfg id env n with hexit | ⟨sid, -, hwrite | hrun⟩
  · rw [hexit] at going
    cases going
  · rw [hwrite]
    rfl
  · rw [hrun]
    rfl

theorem current_afterRun {env : Json} {sid : String} {result : LeafResult}
    (going : (afterRun id env sid result).stopped = false) :
    (afterRun id env sid result).current = some id := by
  rcases afterRun_cases id env sid result with hexit | ⟨acks, hwrite⟩
  · rw [hexit] at going
    cases going
  · rw [hwrite]
    rfl

/-- Where a process can go without claiming, running, writing or acknowledging anything. -/
inductive Pc.Passes (host : Host) (cfg : JobConfig) (srv : Server) : Pc → Pc → Prop where
  | grouped : Passes host cfg srv .ensureGroup .reapPending
  | listed : Passes host cfg srv .reapPending
      (reapNext host (reapable cfg (srv.queue.xpendingRange cfg.reapBatch srv.now)) [])
  | missed {id : StreamId} {ids : List StreamId} {dead : List DeadLetter} :
      Passes host cfg srv (.reapClaim id ids dead) (reapNext host ids dead)
  | skipped {env : Json} {sid : String} {dead : List DeadLetter} :
      Passes host cfg srv (.reapWrite env sid dead) (writeNext host dead)
  | surveyed {names : List String} : Passes host cfg srv .gcInfo (gcNext names)
  | unclaimed : Passes host cfg srv .claimAuto .claimRead
  | waits {deadline : ℕ} : Passes host cfg srv .claimRead (.blocked deadline)
  | drained {deadline : ℕ} : Passes host cfg srv (.blocked deadline) .deleteConsumer
  | ended {pc pc' : Pc} (stopped : pc'.stopped = true) : Passes host cfg srv pc pc'

/-- Every way a process `w` can step on the server `srv`, with its action. -/
inductive JobEffect (host : Host) (cfg : JobConfig) (srv : Server) (w : Worker) :
    WorkerAction → Server → Worker → Prop where
  | quiet {a : WorkerAction} {queue : GroupStream String String} {pc : Pc}
      (rows : queue = srv.queue ∨ queue = srv.queue.see w.consumerId srv.now)
      (alive : w.pc.stopped = false) (leaves : w.pc.current = none ∨ pc.stopped = true)
      (idle : pc.current = none) (passes : w.pc.Passes host cfg srv pc) :
      JobEffect host cfg srv w a { srv with queue := queue } { w with pc := pc }
  | reapClaimed {ts : String} {id : StreamId} {ids : List StreamId} {dead : List DeadLetter}
      {text : String} (at_pc : w.pc = .reapClaim id ids dead) (pending : srv.queue.Pending id)
      (found : srv.queue.stream.lookup id = some (id, text)) :
      JobEffect host cfg srv w (.command ts)
        { srv with
          queue := (srv.queue.see w.consumerId srv.now).claimRow id w.consumerId srv.now false }
        { w with pc := .reapAck id (host.parse text) ids dead }
  | reapAcked {ts : String} {id : StreamId} {envelope : Option Json} {ids : List StreamId}
      {dead : List DeadLetter} (at_pc : w.pc = .reapAck id envelope ids dead) :
      JobEffect host cfg srv w (.command ts)
        { srv with queue := srv.queue.xack id, acked := srv.acked ++ [id] }
        { w with pc := reapNext host ids (dead ++ [⟨id, envelope⟩]) }
  | reapWrote {ts : String} {env : Json} {sid : String} {dead : List DeadLetter}
      {record : LeafResultRecord} (at_pc : w.pc = .reapWrite env sid dead) :
      JobEffect host cfg srv w (.command ts)
        { srv with results := srv.results ++ [(resultKey sid, record)] }
        { w with pc := writeNext host dead }
  | gcDeleted {ts : String} {name : String} {names : List String}
      (at_pc : w.pc = .gcDelete name names) :
      JobEffect host cfg srv w (.command ts) { srv with queue := srv.queue.delConsumer name }
        { w with pc := gcNext names }
  | reclaimed {ts : String} {id : StreamId} {text : String} {pc : Pc} (at_pc : w.pc = .claimAuto)
      (pending : srv.queue.Pending id) (found : srv.queue.stream.lookup id = some (id, text))
      (next : pc = .exited 1 ∨ ∃ env, host.parse text = some env ∧ pc = .claimCount id env)
      (taken : (srv.queue.xautoclaim w.consumerId cfg.minIdleMs srv.now).1 = some id) :
      JobEffect host cfg srv w (.command ts)
        { srv with
          queue := (srv.queue.see w.consumerId srv.now).claimRow id w.consumerId srv.now false }
        { w with pc := pc }
  | counted {ts : String} {id : StreamId} {env : Json} (at_pc : w.pc = .claimCount id env) :
      JobEffect host cfg srv w (.command ts) srv
        { w with pc := processClaimed host cfg id env ((srv.queue.xpendingEntry id).getD 1) }
  | delivered {ts : String} {e : StreamId × String} {pc : Pc}
      (unread : (srv.queue.see w.consumerId srv.now).unread = some e)
      (at_pc : w.pc = .claimRead ∨ ∃ deadline, w.pc = .blocked deadline)
      (next : pc = .exited 1 ∨
        ∃ env, host.parse e.2 = some env ∧ pc = processClaimed host cfg e.1 env 1) :
      JobEffect host cfg srv w (.command ts)
        { srv with
          queue := (srv.queue.see w.consumerId srv.now).deliver w.consumerId srv.now e unread }
        { w with pc := pc }
  | finished {id : StreamId} {env : Json} {sid : String} {result : LeafResult}
      (at_pc : w.pc = .running id env sid) :
      JobEffect host cfg srv w (.finish result) srv { w with pc := afterRun id env sid result }
  | wrote {ts : String} {id : StreamId} {env : Json} {sid : String} {result : LeafResult}
      {acks : Bool} {record : LeafResultRecord} (at_pc : w.pc = .write id env sid result acks) :
      JobEffect host cfg srv w (.command ts)
        { srv with results := srv.results ++ [(resultKey sid, record)] }
        { w with pc := if acks then .ack id else .exited 1 }
  | acked {ts : String} {id : StreamId} (at_pc : w.pc = .ack id) :
      JobEffect host cfg srv w (.command ts)
        { srv with queue := srv.queue.xack id, acked := srv.acked ++ [id] }
        { w with pc := .claimAuto }
  | deleted {ts : String} (at_pc : w.pc = .deleteConsumer) :
      JobEffect host cfg srv w (.command ts)
        { srv with queue := srv.queue.delConsumer w.consumerId }
        { w with pc := .exited 0 }
  | beat {id : StreamId} {env : Json} {sid : String} (at_pc : w.pc = .running id env sid) :
      JobEffect host cfg srv w .beat srv { w with touches := w.touches ++ [id] }
  | touched {id : StreamId} {queue : GroupStream String String} (alive : w.pc.stopped = false)
      (sent : id ∈ w.touches)
      (rows : queue = srv.queue.see w.consumerId srv.now ∨ (srv.queue.Pending id ∧
        queue = (srv.queue.see w.consumerId srv.now).claimRow id w.consumerId srv.now true)) :
      JobEffect host cfg srv w (.touch id) { srv with queue := queue }
        { w with touches := w.touches.erase id }

section Commands

variable {srv : Server} {w : Worker}

theorem reapClaim_effect {ids : List StreamId} {dead : List DeadLetter}
    (at_pc : w.pc = .reapClaim id ids dead) (recv : w.pc.receive host cfg
      (srv.exec (.xclaim w.consumerId cfg.reapMinIdleMs false id)).2 = some pc) :
    JobEffect host cfg srv w (.command ts)
      (srv.exec (.xclaim w.consumerId cfg.reapMinIdleMs false id)).1 { w with pc := pc } := by
  simp only [Server.exec, at_pc] at recv ⊢
  rcases srv.queue.xclaim_cases w.consumerId cfg.reapMinIdleMs srv.now false id with
    ⟨hpending, hclaim⟩ | hclaim
  · obtain ⟨text, hfound⟩ := hpending.exists_lookup
    rw [hclaim] at recv ⊢
    simp only [hfound, if_true, Pc.receive, Option.some.injEq] at recv
    subst recv
    exact .reapClaimed at_pc hpending hfound
  · rw [hclaim] at recv ⊢
    simp only [Bool.false_eq_true, if_false, Pc.receive, Option.some.injEq] at recv
    subst recv
    exact .quiet (.inr rfl) (by rw [at_pc]; rfl) (.inl (by rw [at_pc]; rfl)) (by simp)
      (by rw [at_pc]; exact .missed)

theorem claimAuto_effect (at_pc : w.pc = .claimAuto) (recv : w.pc.receive host cfg
      (srv.exec (.xautoclaim w.consumerId cfg.minIdleMs)).2 = some pc) :
    JobEffect host cfg srv w (.command ts)
      (srv.exec (.xautoclaim w.consumerId cfg.minIdleMs)).1 { w with pc := pc } := by
  simp only [Server.exec, at_pc] at recv ⊢
  rcases srv.queue.xautoclaim_cases w.consumerId cfg.minIdleMs srv.now with
    ⟨id, hpending, hclaim⟩ | hclaim
  · obtain ⟨text, hfound⟩ := hpending.exists_lookup
    rw [hclaim] at recv ⊢
    simp only [Option.bind_some, hfound, Pc.receive] at recv
    refine .reclaimed at_pc hpending hfound ?_ (by rw [hclaim])
    split at recv
    · exact .inl (Option.some.inj recv).symm
    · rename_i env hparse
      exact .inr ⟨env, hparse, (Option.some.inj recv).symm⟩
  · rw [hclaim] at recv ⊢
    simp only [Option.bind_none, Pc.receive, Option.some.injEq] at recv
    subst recv
    exact .quiet (.inr rfl) (by rw [at_pc]; rfl) (.inl (by rw [at_pc]; rfl)) rfl
      (by rw [at_pc]; exact .unclaimed)

theorem delivered_cases (host : Host) (cfg : JobConfig) (m : StreamId × String) :
    Pc.receive.delivered host cfg m = .exited 1 ∨ ∃ env, host.parse m.2 = some env ∧
      Pc.receive.delivered host cfg m = processClaimed host cfg m.1 env 1 := by
  unfold Pc.receive.delivered
  split
  · exact .inl rfl
  · rename_i env hparse
    exact .inr ⟨env, hparse, rfl⟩

theorem read_effect (at_pc : w.pc = .claimRead ∨ ∃ deadline, w.pc = .blocked deadline)
    (recv : w.pc.receive host cfg (srv.exec (.xreadgroup w.consumerId)).2 = some pc) :
    JobEffect host cfg srv w (.command ts) (srv.exec (.xreadgroup w.consumerId)).1
      { w with pc := pc } := by
  have hidle : w.pc.stopped = false ∧ w.pc.current = none := by
    rcases at_pc with hpc | ⟨deadline, hpc⟩ <;> rw [hpc] <;> exact ⟨rfl, rfl⟩
  simp only [Server.exec] at recv ⊢
  rcases srv.queue.xreadgroup_cases w.consumerId srv.now with ⟨e, hunread, hread⟩ | ⟨-, hread⟩
  · rw [hread] at recv ⊢
    have hnext : pc = Pc.receive.delivered host cfg e := by
      rcases at_pc with hpc | ⟨deadline, hpc⟩ <;> rw [hpc] at recv <;>
        exact (Option.some.inj recv).symm
    exact .delivered hunread at_pc (hnext ▸ delivered_cases host cfg e)
  · rw [hread] at recv ⊢
    rcases at_pc with hpc | ⟨deadline, hpc⟩
    · rw [hpc] at recv
      obtain rfl := Option.some.inj recv
      exact .quiet (.inr rfl) hidle.1 (.inl hidle.2) rfl (by rw [hpc]; exact .waits)
    · rw [hpc] at recv
      cases recv

theorem command_effect {c : Command} (hc : w.pc.command cfg w.consumerId ts = some c)
    (hpc : w.pc.receive host cfg (srv.exec c).2 = some pc) :
    JobEffect host cfg srv w (.command ts) (srv.exec c).1 { w with pc := pc } := by
  cases hat : w.pc <;> rw [hat] at hc <;> first | obtain rfl := Option.some.inj hc | cases hc
  -- The three commands that change the rows have lemmas of their own.
  case reapClaim id ids dead => exact reapClaim_effect hat hpc
  case claimAuto => exact claimAuto_effect hat hpc
  case claimRead => exact read_effect (.inl hat) hpc
  case blocked deadline => exact read_effect (.inr ⟨deadline, hat⟩) hpc
  all_goals
    rw [hat] at hpc
    obtain rfl := Option.some.inj hpc
  case ensureGroup =>
    exact .quiet (.inl rfl) (by rw [hat]; rfl) (.inl (by rw [hat]; rfl)) rfl
      (by rw [hat]; exact .grouped)
  case reapPending =>
    exact .quiet (.inl rfl) (by rw [hat]; rfl) (.inl (by rw [hat]; rfl)) (by simp)
      (by rw [hat]; exact .listed)
  case gcInfo =>
    exact .quiet (.inl rfl) (by rw [hat]; rfl) (.inl (by rw [hat]; rfl)) (by simp)
      (by rw [hat]; exact .surveyed)
  case reapAck => exact .reapAcked hat
  case reapWrite => exact .reapWrote hat
  case gcDelete => exact .gcDeleted hat
  case claimCount => exact .counted hat
  case write => exact .wrote hat
  case ack => exact .acked hat
  case deleteConsumer => exact .deleted hat

end Commands

/-- INTERNAL: **the steps of a process**. -/
theorem workerStep_effect {srv srv' : Server} {w w' : Worker} {a : WorkerAction}
    (h : workerStep host cfg srv w a = some (srv', w')) : JobEffect host cfg srv w a srv' w' := by
  cases a with
  | command ts =>
    simp only [workerStep] at h
    split at h
    · obtain ⟨c, hc, hreply⟩ := Option.bind_eq_some_iff.mp h
      obtain ⟨pc, hpc, hr⟩ := Option.map_eq_some_iff.mp hreply
      obtain ⟨rfl, rfl⟩ := Prod.mk.inj hr
      exact command_effect hc hpc
    · cases h
  | error =>
    obtain ⟨pc, hpc, hr⟩ := Option.map_eq_some_iff.mp h
    obtain ⟨rfl, rfl⟩ := Prod.mk.inj hr
    have hout : w.pc.stopped = false ∧ (w.pc.current = none ∨ pc.stopped = true) ∧
        pc.current = none ∧ w.pc.Passes host cfg srv pc := by
      cases hat : w.pc <;> rw [hat] at hpc <;> first | obtain rfl := Option.some.inj hpc | cases hpc
      case reapWrite env sid dead => exact ⟨rfl, .inl rfl, current_writeNext dead, .skipped⟩
      all_goals exact ⟨rfl, .inr rfl, rfl, .ended rfl⟩
    exact .quiet (.inl rfl) hout.1 hout.2.1 hout.2.2.1 hout.2.2.2
  | timeout =>
    simp only [workerStep] at h
    split at h
    · rename_i deadline hat
      split at h
      · obtain ⟨rfl, rfl⟩ := Prod.mk.inj (Option.some.inj h)
        exact .quiet (.inl rfl) (by rw [hat]; rfl) (.inl (by rw [hat]; rfl)) rfl
          (by rw [hat]; exact .drained)
      · cases h
    · cases h
  | beat =>
    simp only [workerStep] at h
    split at h
    · rename_i id env sid hat
      obtain ⟨rfl, rfl⟩ := Prod.mk.inj (Option.some.inj h)
      exact .beat hat
    · cases h
  | touch id =>
    simp only [workerStep] at h
    split at h
    · rename_i hsent
      obtain ⟨rfl, rfl⟩ := Prod.mk.inj (Option.some.inj h)
      refine .touched hsent.1 hsent.2 ?_
      rcases srv.queue.xclaim_cases w.consumerId 0 srv.now true id with ⟨hpending, hclaim⟩ | hclaim
      · exact .inr ⟨hpending, by rw [hclaim]⟩
      · exact .inl (by rw [hclaim])
    · cases h
  | finish result =>
    simp only [workerStep] at h
    split at h
    · rename_i id env sid hat
      obtain ⟨rfl, rfl⟩ := Prod.mk.inj (Option.some.inj h)
      exact .finished hat
    · cases h
  | crash =>
    simp only [workerStep] at h
    split at h
    · cases h
    · rename_i hstopped
      obtain ⟨rfl, rfl⟩ := Prod.mk.inj (Option.some.inj h)
      exact .quiet (.inl rfl) (by simpa using hstopped) (.inr rfl) rfl (.ended rfl)

/-- What a step of the queue and its processes can be. -/
inductive QueueMove (host : Host) (cfg : JobConfig) (s : Sys) : Action → Sys → Prop where
  | tick (ms : ℕ) : QueueMove host cfg s (.tick ms)
      { s with srv := { s.srv with now := s.srv.now + ms } }
  | enqueue (envelope : String) : QueueMove host cfg s (.enqueue envelope)
      { s with srv := (s.srv.exec (.xadd envelope)).1 }
  | spawn {id : String} (fresh : id ∉ s.workers.map Worker.consumerId) :
      QueueMove host cfg s (.spawn id) { s with workers := s.workers ++ [⟨id, .ensureGroup, []⟩] }
  | worker {i : ℕ} {w w' : Worker} {a : WorkerAction} {srv' : Server}
      (hi : s.workers[i]? = some w) (effect : JobEffect host cfg s.srv w a srv' w') :
      QueueMove host cfg s (.worker i a) ⟨srv', s.workers.set i w'⟩

/-- There are no other steps. -/
theorem queueStep_move {s t : Sys} {a : Action} (h : queueStep host cfg s a = some t) :
    QueueMove host cfg s a t := by
  cases a with
  | tick ms =>
    cases h
    exact .tick ms
  | enqueue envelope =>
    cases h
    exact .enqueue envelope
  | spawn id =>
    simp only [queueStep] at h
    split at h
    · cases h
    · rename_i fresh
      cases h
      exact .spawn fresh
  | worker i a =>
    simp only [queueStep] at h
    split at h
    · cases h
    · rename_i w hi
      obtain ⟨⟨srv', w'⟩, hstep, rfl⟩ := Option.map_eq_some_iff.mp h
      exact .worker hi (workerStep_effect hstep)

end ServerlessHarness.LeafJob
