import ServerlessHarness.Analysis.LeafJob.Delivery

/-!
# An acknowledged entry has a result record

`processOne` writes the record before it acknowledges, on every path. The start-up reaper
acknowledges first and leaves the record to `main`, which writes it later and lets a failed
write pass. So an acknowledged entry whose envelope parses has a record in every run in which
the reaper acknowledges only entries that already have one, and its first acknowledgement of
another entry breaks this (`recorded_iff_reapSafe`).
-/

set_option autoImplicit false

namespace ServerlessHarness.LeafJob

open Library

variable {host : Host} {cfg : JobConfig}

/-- A record was written under the key. -/
def Server.Written (srv : Server) (key : String) : Prop := ∃ r ∈ srv.results, r.1 = key

/-- The envelope of the entry `id` is `env`. -/
def Server.Parsed (host : Host) (srv : Server) (id : StreamId) (env : Json) : Prop :=
  ∃ envelope, (id, envelope) ∈ srv.queue.stream.entries ∧ host.parse envelope = some env

/-- A record was written for the session id of the envelope. -/
def Server.Filed (host : Host) (srv : Server) (env : Json) : Prop :=
  ∃ sid, leafSessionId host env = some sid ∧ srv.Written (resultKey sid)

/-- Every acknowledged entry whose envelope parses has a result record. -/
def Server.Recorded (host : Host) (srv : Server) : Prop :=
  ∀ id ∈ srv.acked, ∀ env, srv.Parsed host id env → srv.Filed host env

/-! ## What a process knows -/

/-- What a process knows about its current entry: the envelope it works on is the entry's, its
session id is the envelope's, and before it acknowledges the record is written. -/
def Pc.Knows (host : Host) (srv : Server) : Pc → Prop
  | .claimCount id env => srv.Parsed host id env
  | .running id env sid => srv.Parsed host id env ∧ leafSessionId host env = some sid
  | .write id env sid _ _ => srv.Parsed host id env ∧ leafSessionId host env = some sid
  | .ack id => ∃ env, srv.Parsed host id env ∧ srv.Filed host env
  | _ => True

/-- Entries and records are added and never removed. -/
structure Server.Grows (srv srv' : Server) : Prop where
  entries : ∀ e ∈ srv.queue.stream.entries, e ∈ srv'.queue.stream.entries
  results : ∀ r ∈ srv.results, r ∈ srv'.results

variable {srv : Server} {env : Json} {id : StreamId} {s : Sys}

section Grows

variable {srv srv' : Server}

theorem Server.Parsed.grow (h : srv.Parsed host id env) (hg : srv.Grows srv') :
    srv'.Parsed host id env :=
  h.imp fun _ => And.imp_left (hg.entries _)

theorem Server.Filed.grow (h : srv.Filed host env) (hg : srv.Grows srv') :
    srv'.Filed host env := by
  obtain ⟨sid, hsid, r, hr, hkey⟩ := h
  exact ⟨sid, hsid, r, hg.results r hr, hkey⟩

theorem Pc.Knows.grow {pc : Pc} (h : pc.Knows host srv) (hg : srv.Grows srv') :
    pc.Knows host srv' := by
  cases pc with
  | claimCount => exact Server.Parsed.grow h hg
  | running | write => exact ⟨h.1.grow hg, h.2⟩
  | ack =>
    obtain ⟨env, hparsed, hfiled⟩ := h
    exact ⟨env, hparsed.grow hg, hfiled.grow hg⟩
  | _ => trivial

end Grows

theorem Server.Parsed.unique {env' : Json} (h : srv.Parsed host id env)
    (h' : srv.Parsed host id env') : env = env' := by
  obtain ⟨envelope, he, hparse⟩ := h
  obtain ⟨envelope', he', hparse'⟩ := h'
  obtain rfl : envelope = envelope' := (Prod.mk.inj (srv.queue.stream.entry_unique he he' rfl)).2
  exact Option.some.inj (hparse.symm.trans hparse')

theorem Pc.knows_of_current {pc : Pc} (h : pc.current = none) :
    pc.Knows host srv := by
  cases pc with
  | claimCount | running | write | ack => cases h
  | _ => trivial

theorem knows_processClaimed (n : ℕ) (h : srv.Parsed host id env) :
    (processClaimed host cfg id env n).Knows host srv := by
  rcases processClaimed_cases host cfg id env n with hexit | ⟨sid, hsid, hwrite | hrun⟩
  · rw [hexit]
    trivial
  · rw [hwrite]
    exact ⟨h, hsid⟩
  · rw [hrun]
    exact ⟨h, hsid⟩

section Effects

variable {srv srv' : Server} {w w' : Worker} {a : WorkerAction}

theorem JobEffect.grows (h : JobEffect host cfg srv w a srv' w') : srv.Grows srv' := by
  refine ⟨fun e he => by rw [h.advances.stream]; exact he, ?_⟩
  cases h with
  | reapWrote | wrote => exact fun r hr => List.mem_append_left _ hr
  | _ => exact fun r hr => hr

/-- What a process knows of its entry holds after an effect. -/
theorem JobEffect.knows (h : JobEffect host cfg srv w a srv' w') (hk : w.pc.Knows host srv) :
    w'.pc.Knows host srv' := by
  have hg := h.grows
  cases h with
  | quiet _ _ _ idle => exact Pc.knows_of_current idle
  | reapClaimed => trivial
  | reapAcked => exact Pc.knows_of_current (current_reapNext _ _)
  | reapWrote => exact Pc.knows_of_current (current_writeNext _)
  | gcDeleted => exact Pc.knows_of_current (current_gcNext _)
  | reclaimed _ _ found next =>
    rcases next with rfl | ⟨env, hparse, rfl⟩
    · trivial
    · exact ⟨_, (Stream.lookup_eq_some_iff.mp found).1, hparse⟩
  | counted at_pc =>
    rw [at_pc] at hk
    exact knows_processClaimed _ hk
  | delivered unread _ next =>
    rcases next with rfl | ⟨env, hparse, rfl⟩
    · trivial
    · exact knows_processClaimed 1 ⟨_, (Stream.firstAbove_eq_some unread).1, hparse⟩
  | @finished id env sid result at_pc =>
    rw [at_pc] at hk
    rcases afterRun_cases id env sid result with hexit | ⟨acks, hwrite⟩
    · simp only [hexit]
      trivial
    · simp only [hwrite]
      exact hk
  | @wrote _ id env sid _ acks record at_pc =>
    rw [at_pc] at hk
    have hfiled : Server.Filed host
        { srv with results := srv.results ++ [(resultKey sid, record)] } env :=
      ⟨sid, hk.2, _, List.mem_append_right _ (List.mem_singleton_self _), rfl⟩
    cases acks with
    | false => trivial
    | true => exact ⟨env, hk.1.grow hg, hfiled⟩
  | acked | deleted => trivial
  | beat => exact hk
  | touched => exact hk.grow hg

end Effects

theorem knows_of_reachable (h : Reachable (queueSystem host cfg) s) :
    ∀ w ∈ s.workers, w.pc.Knows host s.srv := by
  refine h.invariant (P := fun s => ∀ w ∈ s.workers, w.pc.Knows host s.srv) ?_ ?_
  · rintro s rfl w hw
    cases hw
  · rintro s t - hs ⟨a, ha⟩
    cases queueStep_move ha with
    | tick ms => exact fun w hw => (hs w hw).grow ⟨fun e he => he, fun r hr => hr⟩
    | enqueue envelope =>
      exact fun w hw => (hs w hw).grow ⟨fun e he => List.mem_append_left _ he, fun r hr => hr⟩
    | spawn fresh => exact forall_mem_concat hs trivial
    | worker hi heff =>
      exact forall_mem_set (fun v hv => (hs v hv).grow heff.grows)
        (heff.knows (hs _ (List.mem_of_getElem? hi)))

/-! ## Acknowledgements -/

/-- A record is there for the envelope of the entry, if it parses. -/
def Server.filed (host : Host) (srv : Server) (id : StreamId) : Bool :=
  match (srv.queue.stream.lookup id).bind fun e => host.parse e.2 with
  | none => true
  | some env =>
    match leafSessionId host env with
    | none => false
    | some sid => srv.results.any fun r => r.1 = resultKey sid

/-- An acknowledgement by the start-up reaper finds the entry's record written. -/
def reapSafe (host : Host) (s : Sys) : Action → Bool
  | .worker i (.command _) =>
    match (s.workers[i]?).map Worker.pc with
    | some (.reapAck id _ _ _) => s.srv.filed host id
    | _ => true
  | _ => true

theorem filed_iff :
    srv.filed host id = true ↔ ∀ env, srv.Parsed host id env → srv.Filed host env := by
  have hparsed : ∀ env, srv.Parsed host id env ↔
      ((srv.queue.stream.lookup id).bind fun e => host.parse e.2) = some env := by
    intro env
    rw [Option.bind_eq_some_iff]
    constructor
    · rintro ⟨envelope, he, hparse⟩
      exact ⟨(id, envelope), Stream.lookup_eq_some_iff.mpr ⟨he, rfl⟩, hparse⟩
    · rintro ⟨⟨i, envelope⟩, hfound, hparse⟩
      obtain ⟨hentry, rfl⟩ := Stream.lookup_eq_some_iff.mp hfound
      exact ⟨envelope, hentry, hparse⟩
  simp only [hparsed, Server.filed]
  split
  · rename_i hnone
    simp [hnone]
  · rename_i env henv
    simp only [henv, Option.some.injEq, forall_eq']
    split
    · rename_i hsid
      simp [Server.Filed, hsid]
    · rename_i sid hsid
      simp [Server.Filed, Server.Written, hsid]

theorem JobEffect.recorded {srv' : Server} {w w' : Worker} {a : WorkerAction}
    (h : JobEffect host cfg srv w a srv' w') (hk : w.pc.Knows host srv)
    (safe : ∀ ts id envelope ids dead, a = .command ts → w.pc = .reapAck id envelope ids dead →
      srv.filed host id = true) (hr : srv.Recorded host) : srv'.Recorded host := by
  have hg := h.grows
  have hstream := h.advances.stream
  have back : ∀ id env, srv'.Parsed host id env → srv.Parsed host id env := by
    rintro id env ⟨envelope, he, hparse⟩
    exact ⟨envelope, hstream ▸ he, hparse⟩
  have old : ∀ id ∈ srv.acked, ∀ env, srv'.Parsed host id env → srv'.Filed host env :=
    fun id hid env hparsed => (hr id hid env (back id env hparsed)).grow hg
  cases h with
  | reapAcked at_pc =>
    refine forall_mem_concat old fun env hparsed => ?_
    exact filed_iff.mp (safe _ _ _ _ _ rfl at_pc) env (back _ env hparsed)
  | acked at_pc =>
    refine forall_mem_concat old fun env hparsed => ?_
    rw [at_pc] at hk
    obtain ⟨env', hparsed', hfiled⟩ := hk
    exact hparsed'.unique (back _ env hparsed) ▸ hfiled
  | _ => exact old

/-- A step that acknowledges nothing too early keeps the records. -/
theorem Server.Recorded.step {t : Sys} {a : Action} (hr : s.srv.Recorded host)
    (hs : Reachable (queueSystem host cfg) s) (safe : reapSafe host s a = true)
    (ha : queueStep host cfg s a = some t) : t.srv.Recorded host := by
  cases queueStep_move ha with
  | tick | spawn => exact hr
  | enqueue envelope =>
    rintro id hid env ⟨text, he, hparse⟩
    -- The new entry has an id above all acknowledged ones.
    have hle : id ≤ s.srv.queue.stream.lastId :=
      ((custody_of_reachable hs).settled id hid).1.trans s.srv.queue.last_le
    rcases List.mem_append.mp he with he | he
    · exact hr id hid env ⟨text, he, hparse⟩
    · obtain ⟨rfl, -⟩ := Prod.mk.inj (List.mem_singleton.mp he)
      exact absurd hle (Stream.lastId_lt_nextId _ _).not_ge
  | worker hi heff =>
    refine heff.recorded (knows_of_reachable hs _ (List.mem_of_getElem? hi)) ?_ hr
    rintro ts id envelope ids dead rfl hat
    simpa [reapSafe, hi, hat] using safe

theorem not_recorded_of_not_reapSafe {t : Sys} {a : Action} (early : reapSafe host s a = false)
    (ha : queueStep host cfg s a = some t) : ¬ t.srv.Recorded host := by
  unfold reapSafe at early
  split at early
  · rename_i i ts
    split at early
    · rename_i id envelope ids dead hpc
      obtain ⟨w, hi, hat⟩ := Option.map_eq_some_iff.mp hpc
      simp only [queueStep, hi, workerStep, hat, Pc.ready, Pc.command, Pc.receive, Server.exec,
        if_true, Option.bind_some, Option.map_some, Option.some.injEq] at ha
      subst ha
      intro hr
      have hfiled : s.srv.filed host id = true :=
        filed_iff.mpr (hr id (List.mem_append_right _ (List.mem_singleton_self _)))
      rw [hfiled] at early
      cases early
    · cases early
  · cases early

/-- INTERNAL: **the record comes before the acknowledgement while the reaper waits for it**. In
every state of a run in which the start-up reaper acknowledges an entry only after its record
was written, each acknowledged entry whose envelope parses has a record under its session id;
and the next step keeps this exactly when it is not an early acknowledgement of the reaper. -/
theorem recorded_iff_reapSafe {s : Sys}
    (h : Reachable (guardedSystem host cfg (reapSafe host)) s) :
    s.srv.Recorded host ∧ ∀ a t, queueStep host cfg s a = some t →
      (t.srv.Recorded host ↔ reapSafe host s a = true) := by
  have hr : s.srv.Recorded host := by
    induction h with
    | init hinit =>
      obtain rfl := hinit
      intro id hid
      cases hid
    | step hs hn ih =>
      obtain ⟨a, ha⟩ := hn
      obtain ⟨safe, hstep⟩ := guarded_eq_some.mp ha
      exact ih.step hs.of_guarded safe hstep
  refine ⟨hr, fun a t ha => ⟨fun ht => ?_, fun safe => hr.step h.of_guarded safe ha⟩⟩
  by_contra hearly
  exact not_recorded_of_not_reapSafe (Bool.eq_false_of_not_eq_true hearly) ha ht

/-- A process claims the entry and crashes before it records anything; ninety seconds pass. -/
def attempt (i : ℕ) (consumerId : String) : List Action :=
  [.spawn consumerId] ++ startUp i ++
  [.worker i (.command ""), .worker i (.command ""), .worker i .crash, .tick 90000]

/-- After three attempts a fourth process gives the entry up, and crashes between the record and
the acknowledgement, which the reaper of a fifth process sends. -/
def reapAfterRecord : List Action :=
  [.enqueue "s"] ++ attempt 0 "a" ++ attempt 1 "b" ++ attempt 2 "c" ++
  [.spawn "d"] ++ startUp 3 ++ List.replicate 3 (.worker 3 (.command "")) ++
  [.worker 3 .crash, .tick 90000, .spawn "e"] ++ List.replicate 4 (.worker 4 (.command ""))

/-- The reaper acknowledges an entry whose record was written before the crash. -/
theorem recorded_iff_reapSafe_reaped :
    ∃ s, Reachable (guardedSystem textHost leafJobConfig (reapSafe textHost)) s ∧
      s.srv.acked = [.mk 0 1] ∧ s.srv.Recorded textHost := by
  obtain ⟨s, hs, hQ⟩ := exists_reachable_of_actions textHost leafJobConfig (reapSafe textHost)
    reapAfterRecord (fun s => s.srv.acked == [.mk 0 1]) (by decide +kernel)
  exact ⟨s, hs, beq_iff_eq.mp hQ, (recorded_iff_reapSafe hs).1⟩

/-! ## When the reaper finds nothing -/

/-- A process that is about to list the pending rows has none to reap: of those that were idle for
long enough none was delivered too often. -/
def reapIdle (cfg : JobConfig) (s : Sys) : Action → Bool
  | .worker i _ =>
    match (s.workers[i]?).map Worker.pc with
    | some .reapPending => reapable cfg (s.srv.queue.xpendingRange cfg.reapBatch s.srv.now) = []
    | _ => true
  | _ => true

def Pc.reaping : Pc → Bool
  | .reapClaim _ _ _ => true
  | .reapAck _ _ _ _ => true
  | _ => false

theorem reaping_writeNext (dead : List DeadLetter) : (writeNext host dead).reaping = false := by
  fun_induction writeNext host dead <;> simp_all [Pc.reaping]

theorem reaping_gcNext (names : List String) : (gcNext names).reaping = false := by
  cases names <;> rfl

theorem reaping_processClaimed (n : ℕ) : (processClaimed host cfg id env n).reaping = false := by
  rcases processClaimed_cases host cfg id env n with h | ⟨sid, -, h | h⟩ <;> rw [h] <;> rfl

/-- A process with nothing to reap does not begin to. -/
theorem JobEffect.reaping {srv' : Server} {w w' : Worker} {a : WorkerAction}
    (h : JobEffect host cfg srv w a srv' w') (hw : w.pc.reaping = false)
    (idle : w.pc = .reapPending →
      reapable cfg (srv.queue.xpendingRange cfg.reapBatch srv.now) = []) :
    w'.pc.reaping = false := by
  cases h with
  | @quiet _ _ pc _ _ _ _ passes =>
    show pc.reaping = false
    generalize hpc : w.pc = before at passes hw idle
    cases passes with
    | listed =>
      rw [idle rfl]
      rfl
    | missed => cases hw
    | skipped => exact reaping_writeNext _
    | surveyed => exact reaping_gcNext _
    | ended stopped => cases pc <;> first | rfl | cases stopped
    | _ => rfl
  | reapClaimed at_pc => rw [at_pc] at hw; cases hw
  | reapAcked at_pc => rw [at_pc] at hw; cases hw
  | reapWrote => exact reaping_writeNext _
  | gcDeleted => exact reaping_gcNext _
  | reclaimed _ _ _ next => rcases next with rfl | ⟨env, -, rfl⟩ <;> rfl
  | counted => exact reaping_processClaimed _
  | delivered _ _ next =>
    rcases next with rfl | ⟨env, -, rfl⟩
    · rfl
    · exact reaping_processClaimed 1
  | @finished id env sid result =>
    rcases afterRun_cases id env sid result with h | ⟨acks, h⟩ <;> simp only [h] <;> rfl
  | @wrote _ _ _ _ _ acks => cases acks <;> rfl
  | acked | deleted => rfl
  | beat | touched => exact hw

/-- INTERNAL: **no row past the bound is the cause**: a run in which each start-up reaper finds
nothing to take out is one in which none acknowledges too early. -/
theorem reachable_of_reapIdle (h : Reachable (guardedSystem host cfg (reapIdle cfg)) s) :
    Reachable (guardedSystem host cfg (reapSafe host)) s ∧
      ∀ w ∈ s.workers, w.pc.reaping = false := by
  induction h with
  | init hinit =>
    obtain rfl := hinit
    exact ⟨.init rfl, nofun⟩
  | @step s t hs hn ih =>
    obtain ⟨a, ha⟩ := hn
    obtain ⟨idle, hstep⟩ := guarded_eq_some.mp ha
    obtain ⟨hsafe, hreaping⟩ := ih
    have safe : reapSafe host s a = true := by
      unfold reapSafe
      split
      · split
        · rename_i hpc
          obtain ⟨w, hi, hat⟩ := Option.map_eq_some_iff.mp hpc
          have hw := hreaping w (List.mem_of_getElem? hi)
          rw [hat] at hw
          cases hw
        · rfl
      · rfl
    refine ⟨.step hsafe ⟨a, guarded_eq_some.mpr ⟨safe, hstep⟩⟩, ?_⟩
    cases queueStep_move hstep with
    | tick | enqueue => exact hreaping
    | spawn fresh => exact forall_mem_concat hreaping rfl
    | worker hi heff =>
      refine forall_mem_set hreaping (heff.reaping (hreaping _ (List.mem_of_getElem? hi)) ?_)
      intro hat
      simpa [reapIdle, hi, hat] using idle

/-! ## An acknowledgement without a record -/

/-- After four attempts the reaper of a fifth process acknowledges the entry, and the write of
its record fails. -/
def reapWithoutRecord : List Action :=
  [.enqueue "s"] ++ attempt 0 "a" ++ attempt 1 "b" ++ attempt 2 "c" ++ attempt 3 "d" ++
  [.spawn "e"] ++ List.replicate 4 (.worker 4 (.command "")) ++ [.worker 4 .error]

/-- The entry is acknowledged and there is no record at all. -/
theorem acked_without_record :
    ∃ s, Reachable (queueSystem textHost leafJobConfig) s ∧ s.srv.acked = [.mk 0 1] ∧
      s.srv.Parsed textHost (.mk 0 1) (.obj [("sessionId", .str "s")]) ∧
      s.srv.results.isEmpty = true ∧ ¬ s.srv.Recorded textHost := by
  obtain ⟨s, hs, hQ⟩ := exists_reachable_of_actions textHost leafJobConfig (fun _ _ => true)
    reapWithoutRecord
    (fun s => (s.srv.acked == [.mk 0 1]) &&
      (s.srv.queue.stream.entries == [(.mk 0 1, "s")]) && s.srv.results.isEmpty)
    (by decide +kernel)
  simp only [Bool.and_eq_true, beq_iff_eq] at hQ
  obtain ⟨⟨hacked, hentries⟩, hresults⟩ := hQ
  have hparsed : s.srv.Parsed textHost (.mk 0 1) (.obj [("sessionId", .str "s")]) :=
    ⟨"s", by simp [hentries], rfl⟩
  refine ⟨s, hs.of_guarded, hacked, hparsed, hresults, fun hr => ?_⟩
  obtain ⟨sid, -, r, hmem, -⟩ := hr _ (by simp [hacked]) _ hparsed
  rw [List.isEmpty_iff.mp hresults] at hmem
  cases hmem

end ServerlessHarness.LeafJob
