import ServerlessHarness.Interface.LeafJob.Effects
import ServerlessHarness.Library.Crew

/-!
# No entry of the work queue is lost

Each entry waits to be delivered, is pending, or was acknowledged (`Sys.Accounted`). A process
that is still going has a row for its current entry at most (`Custody`), so that deleting its
own consumer on the way out drops nothing. The one command that can drop a row is the deletion
of another consumer in `gcIdleConsumers`, which acts on a reply read earlier: in a run in which
it meets no rows every entry stays accounted for, and the first one that meets a row loses an
entry (`accounted_iff_gcSafe`).
-/

set_option autoImplicit false

namespace ServerlessHarness.LeafJob

open Library

variable {host : Host} {cfg : JobConfig}

/-! ## The rows of a process -/

/-- The rows and the heartbeats of a process that is still going concern its current entry;
a heartbeat for an earlier entry finds no row. -/
structure Tidy (q : GroupStream String String) (w : Worker) : Prop where
  rows : ∀ i, q.Holds w.consumerId i → w.pc.current = some i
  reached : ∀ i, w.pc.current = some i → i ≤ q.last
  touches : ∀ i ∈ w.touches, i ≤ q.last ∧ (w.pc.current = some i ∨ ¬ q.Pending i)

section Tidy

variable {q q' : GroupStream String String} {w : Worker} {pc : Pc}

theorem Tidy.advance {caller : String} (h : Tidy q w) (hadv : q.Advances q' caller)
    (hne : w.consumerId ≠ caller) : Tidy q' w where
  rows i hi := h.rows i (hadv.others _ i hne hi)
  reached i hi := (h.reached i hi).trans hadv.last_mono
  touches i hi := by
    obtain ⟨hle, hcurrent | hpending⟩ := h.touches i hi
    · exact ⟨hle.trans hadv.last_mono, .inl hcurrent⟩
    · obtain ⟨hle', hpending'⟩ := hadv.not_pending hle hpending
      exact ⟨hle', .inr hpending'⟩

theorem Tidy.stay (h : Tidy q w) (hpc : pc.current = w.pc.current) :
    Tidy q { w with pc := pc } where
  rows i hi := hpc.trans (h.rows i hi)
  reached i hi := h.reached i (hpc.symm.trans hi)
  touches i hi := by
    obtain ⟨hle, hcurrent | hpending⟩ := h.touches i hi
    · exact ⟨hle, .inl (hpc.trans hcurrent)⟩
    · exact ⟨hle, .inr hpending⟩

theorem Tidy.take {id : StreamId} (h : Tidy q w) (hadv : q.Advances q' w.consumerId)
    (hidle : w.pc.current = none) (hrows : ∀ i, q'.Holds w.consumerId i → i = id ∨
      q.Holds w.consumerId i) (hle : id ≤ q'.last) (hpc : pc.current = some id) :
    Tidy q' { w with pc := pc } where
  rows i hi := by
    rcases hrows i hi with rfl | hold
    · exact hpc
    · cases hidle.symm.trans (h.rows i hold)
  reached i hi := by
    obtain rfl := Option.some.inj (hpc.symm.trans hi)
    exact hle
  touches i hi := by
    obtain ⟨hold, hcurrent | hpending⟩ := h.touches i hi
    · cases hidle.symm.trans hcurrent
    · obtain ⟨hle', hpending'⟩ := hadv.not_pending hold hpending
      exact ⟨hle', .inr hpending'⟩

theorem Tidy.drop (h : Tidy q w) (hadv : q.Advances q' w.consumerId)
    (hrows : ∀ i, q'.Holds w.consumerId i → q.Holds w.consumerId i)
    (hgone : ∀ i, w.pc.current = some i → ¬ q'.Pending i) (hpc : pc.current = none) :
    Tidy q' { w with pc := pc } where
  rows i hi := absurd ⟨_, hi⟩ (hgone i (h.rows i (hrows i hi)))
  reached i hi := by cases hpc.symm.trans hi
  touches i hi := by
    obtain ⟨hle, hcurrent | hpending⟩ := h.touches i hi
    · exact ⟨hle.trans hadv.last_mono, .inr (hgone i hcurrent)⟩
    · obtain ⟨hle', hpending'⟩ := hadv.not_pending hle hpending
      exact ⟨hle', .inr hpending'⟩

end Tidy

variable {s t : Sys} {w w' : Worker} {a : WorkerAction} {srv' : Server}

theorem Tidy.enqueue {q : GroupStream String String} (h : Tidy q w) (now : ℕ) (envelope : String) :
    Tidy (q.xadd now envelope) w :=
  ⟨h.rows, h.reached, h.touches⟩

section Effects

variable {srv srv' : Server} {w w' : Worker} {a : WorkerAction}

theorem JobEffect.alive (h : JobEffect host cfg srv w a srv' w') :
    w.pc.stopped = false ∧ w'.consumerId = w.consumerId := by
  cases h with
  | quiet _ alive => exact ⟨alive, rfl⟩
  | touched alive => exact ⟨alive, rfl⟩
  | delivered _ at_pc =>
    rcases at_pc with at_pc | ⟨deadline, at_pc⟩ <;> rw [at_pc] <;> exact ⟨rfl, rfl⟩
  | reapClaimed at_pc | reapAcked at_pc | reapWrote at_pc | gcDeleted at_pc | reclaimed at_pc
  | counted at_pc | finished at_pc | wrote at_pc | acked at_pc | deleted at_pc | beat at_pc =>
    rw [at_pc]
    exact ⟨rfl, rfl⟩

theorem JobEffect.advances (h : JobEffect host cfg srv w a srv' w') :
    srv.queue.Advances srv'.queue w.consumerId := by
  cases h with
  | quiet rows =>
    rcases rows with rfl | rfl
    · exact .refl _ _
    · exact GroupStream.advances_see _
  | reapClaimed | reclaimed => exact .of_see GroupStream.advances_claimRow
  | reapAcked | acked => exact GroupStream.advances_xack _
  | reapWrote | counted | finished | wrote | beat => exact .refl _ _
  | gcDeleted | deleted => exact GroupStream.advances_delConsumer _
  | delivered unread => exact .of_see (GroupStream.advances_deliver unread)
  | touched _ _ rows =>
    rcases rows with rfl | ⟨-, rfl⟩
    · exact GroupStream.advances_see _
    · exact .of_see GroupStream.advances_claimRow

/-- A process that goes on has rows for its current entry only. -/
theorem JobEffect.tidy (h : JobEffect host cfg srv w a srv' w') (htidy : Tidy srv.queue w)
    (going : w'.pc.stopped = false) : Tidy srv'.queue w' := by
  have hadv := h.advances
  cases h with
  | quiet rows alive leaves idle =>
    have hsame : w.pc.current = none := leaves.resolve_right (by simpa using going)
    have hstay : Tidy srv.queue { w with pc := _ } := htidy.stay (idle.trans hsame.symm)
    rcases rows with rfl | rfl
    · exact hstay
    · exact ⟨hstay.rows, hstay.reached, hstay.touches⟩
  | reapClaimed at_pc pending =>
    refine htidy.take hadv (by rw [at_pc]; rfl) (fun i hi => ?_) pending.le_last rfl
    rcases GroupStream.holds_claimRow.mp hi with ⟨rfl, -, -⟩ | ⟨-, hold⟩
    · exact .inl rfl
    · exact .inr hold
  | reclaimed at_pc pending _ next =>
    rcases next with rfl | ⟨env, -, rfl⟩
    · cases going
    · refine htidy.take hadv (by rw [at_pc]; rfl) (fun i hi => ?_) pending.le_last rfl
      rcases GroupStream.holds_claimRow.mp hi with ⟨rfl, -, -⟩ | ⟨-, hold⟩
      · exact .inl rfl
      · exact .inr hold
  | delivered unread at_pc next =>
    have hidle : w.pc.current = none := by
      rcases at_pc with at_pc | ⟨deadline, at_pc⟩ <;> rw [at_pc] <;> rfl
    rcases next with rfl | ⟨env, -, rfl⟩
    · cases going
    · have hcurrent := current_processClaimed going
      refine htidy.take hadv hidle (fun i hi => ?_) (le_refl _) hcurrent
      rcases (GroupStream.holds_deliver unread).mp hi with hold | ⟨rfl, -⟩
      · exact .inr hold
      · exact .inl rfl
  | reapAcked at_pc =>
    refine htidy.drop hadv (fun i hi => (GroupStream.holds_xack.mp hi).2) ?_ (by simp)
    rintro i hi ⟨c, hc⟩
    rw [at_pc] at hi
    exact (GroupStream.holds_xack.mp hc).1 (Option.some.inj hi).symm
  | acked at_pc =>
    refine htidy.drop hadv (fun i hi => (GroupStream.holds_xack.mp hi).2) ?_ rfl
    rintro i hi ⟨c, hc⟩
    rw [at_pc] at hi
    exact (GroupStream.holds_xack.mp hc).1 (Option.some.inj hi).symm
  | gcDeleted at_pc =>
    refine htidy.drop hadv (fun i hi => (GroupStream.holds_delConsumer.mp hi).2) ?_ (by simp)
    intro i hi
    rw [at_pc] at hi
    cases hi
  | deleted => cases going
  | reapWrote at_pc => exact htidy.stay (by rw [at_pc]; exact current_writeNext _)
  | counted at_pc => exact htidy.stay (by rw [at_pc]; exact current_processClaimed going)
  | finished at_pc => exact htidy.stay (by rw [at_pc]; exact current_afterRun going)
  | wrote at_pc =>
    refine htidy.stay ?_
    rw [at_pc]
    split
    · rfl
    · rename_i hacks
      simp [hacks, Pc.stopped] at going
  | beat at_pc =>
    refine ⟨htidy.rows, htidy.reached, forall_mem_concat htidy.touches ?_⟩
    have hcurrent : w.pc.current = some _ := congrArg Pc.current at_pc
    exact ⟨htidy.reached _ hcurrent, .inl hcurrent⟩
  | touched _ sent rows =>
    refine ⟨fun i hi => ?_, fun i hi => (htidy.reached i hi).trans hadv.last_mono, fun i hi => ?_⟩
    · rcases rows with rfl | ⟨hpending, rfl⟩
      · exact htidy.rows i hi
      · rcases GroupStream.holds_claimRow.mp hi with ⟨rfl, -, -⟩ | ⟨-, hold⟩
        · exact (htidy.touches i sent).2.resolve_right (not_not_intro hpending)
        · exact htidy.rows i hold
    · obtain ⟨hle, hcurrent | hpending⟩ := htidy.touches i (List.mem_of_mem_erase hi)
      · exact ⟨hle.trans hadv.last_mono, .inl hcurrent⟩
      · obtain ⟨hle', hpending'⟩ := hadv.not_pending hle hpending
        exact ⟨hle', .inr hpending'⟩

end Effects

/-! ## The rows of all processes -/

/-- Who has rows: the processes have distinct consumer ids and are tidy, nobody else has rows,
and an acknowledged entry has none. -/
structure Custody (s : Sys) : Prop where
  distinct : (s.workers.map Worker.consumerId).Nodup
  known : ∀ c i, s.srv.queue.Holds c i → c ∈ s.workers.map Worker.consumerId
  tidy : ∀ w ∈ s.workers, w.pc.stopped = false → Tidy s.srv.queue w
  settled : ∀ i ∈ s.srv.acked, i ≤ s.srv.queue.last ∧ ¬ s.srv.queue.Pending i

theorem JobEffect.acked_cases {srv : Server} (h : JobEffect host cfg srv w a srv' w') :
    srv'.acked = srv.acked ∨ ∃ id, w.pc.current = some id ∧ srv'.acked = srv.acked ++ [id] ∧
      ¬ srv'.queue.Pending id := by
  have hgone : ∀ id, ¬ (srv.queue.xack id).Pending id := fun id ⟨c, hc⟩ =>
    (GroupStream.holds_xack.mp hc).1 rfl
  cases h with
  | reapAcked at_pc => exact .inr ⟨_, by rw [at_pc]; rfl, rfl, hgone _⟩
  | acked at_pc => exact .inr ⟨_, by rw [at_pc]; rfl, rfl, hgone _⟩
  | _ => exact .inl rfl

theorem Custody.worker (h : Custody s) {i : ℕ} (hi : s.workers[i]? = some w)
    (heff : JobEffect host cfg s.srv w a srv' w') :
    Custody ⟨srv', s.workers.set i w'⟩ := by
  have hw : w ∈ s.workers := List.mem_of_getElem? hi
  obtain ⟨halive, hid⟩ := heff.alive
  have hadv := heff.advances
  have hids : (s.workers.set i w').map Worker.consumerId = s.workers.map Worker.consumerId :=
    map_set_of_eq hi hid
  refine ⟨by rw [hids]; exact h.distinct, fun c j hj => ?_, fun v hv hgoing => ?_, fun j hj => ?_⟩
  · rw [hids]
    by_cases hc : c = w.consumerId
    · exact hc ▸ List.mem_map_of_mem hw
    · exact h.known c j (hadv.others c j hc hj)
  · rcases mem_set_of_nodup h.distinct hi hv with rfl | ⟨hv, hne⟩
    · exact heff.tidy (h.tidy w hw halive) hgoing
    · exact (h.tidy v hv hgoing).advance hadv hne
  · rcases heff.acked_cases with hsame | ⟨id, hcurrent, hacked, hgone⟩
    · obtain ⟨hle, hpending⟩ := h.settled j (hsame ▸ hj)
      exact hadv.not_pending hle hpending
    · change j ∈ srv'.acked at hj
      rw [hacked] at hj
      rcases List.mem_append.mp hj with hj | hj
      · obtain ⟨hle, hpending⟩ := h.settled j hj
        exact hadv.not_pending hle hpending
      · obtain rfl := List.mem_singleton.mp hj
        exact ⟨((h.tidy w hw halive).reached j hcurrent).trans hadv.last_mono, hgone⟩

/-- The rows are those of the processes in every run. -/
theorem custody_of_reachable (h : Reachable (queueSystem host cfg) s) : Custody s := by
  refine h.invariant (P := Custody) ?_ ?_
  · rintro s rfl
    refine ⟨by simp [Sys.empty], ?_, by simp [Sys.empty], by simp [Sys.empty]⟩
    rintro c i ⟨row, hrow, -⟩
    cases hrow
  · rintro s t - hs ⟨a, ha⟩
    cases queueStep_move ha with
    | tick ms => exact ⟨hs.distinct, hs.known, hs.tidy, hs.settled⟩
    | enqueue envelope =>
      exact ⟨hs.distinct, hs.known, fun w hw hgoing => (hs.tidy w hw hgoing).enqueue _ _,
        hs.settled⟩
    | spawn fresh =>
      refine ⟨?_, fun c i hi => ?_, forall_mem_concat hs.tidy fun hgoing => ?_, hs.settled⟩
      · rw [List.map_append, List.nodup_append_comm]
        exact List.nodup_cons.mpr ⟨fresh, hs.distinct⟩
      · rw [List.map_append]
        exact List.mem_append_left _ (hs.known c i hi)
      · exact ⟨fun i hi => absurd (hs.known _ i hi) fresh, by simp [Pc.current], by simp⟩
    | worker hi heff => exact hs.worker hi heff

/-! ## Entries -/

/-- The entry `i` waits to be delivered, is pending, or was acknowledged. -/
def Server.Accounted (srv : Server) (i : StreamId) : Prop :=
  srv.queue.last < i ∨ srv.queue.Pending i ∨ i ∈ srv.acked

/-- Every entry is accounted for. -/
def Sys.Accounted (s : Sys) : Prop :=
  ∀ e ∈ s.srv.queue.stream.entries, s.srv.Accounted e.1

/-- A deletion by `gcIdleConsumers` finds no rows of the consumer. -/
def gcSafe (s : Sys) : Action → Bool
  | .worker i (.command _) =>
    match (s.workers[i]?).map Worker.pc with
    | some (.gcDelete name _) => s.srv.queue.rowless name
    | _ => true
  | _ => true

/-- No effect loses an entry of the stream. -/
theorem JobEffect.accounted {srv : Server} (h : JobEffect host cfg srv w a srv' w')
    (htidy : Tidy srv.queue w)
    (safe : ∀ ts name names, a = .command ts → w.pc = .gcDelete name names →
      srv.queue.rowless name = true) {e : StreamId × String} (he : e ∈ srv.queue.stream.entries)
    (hacc : srv.Accounted e.1) :
    srv'.Accounted e.1 := by
  have claimed : ∀ {id c now justId}, ((srv.queue.see c now).claimRow id c now justId).Pending e.1 ↔
      srv.queue.Pending e.1 := GroupStream.pending_claimRow
  have acked : ∀ id, Server.Accounted
      { srv with queue := srv.queue.xack id, acked := srv.acked ++ [id] } e.1 := by
    intro id
    rcases hacc with hlt | ⟨c, hc⟩ | hacked
    · exact .inl hlt
    · by_cases hid : e.1 = id
      · exact .inr (.inr (List.mem_append_right _ (List.mem_singleton.mpr hid)))
      · exact .inr (.inl ⟨c, GroupStream.holds_xack.mpr ⟨hid, hc⟩⟩)
    · exact .inr (.inr (List.mem_append_left _ hacked))
  have deleted : ∀ name, (∀ i, ¬ srv.queue.Holds name i) → Server.Accounted
      { srv with queue := srv.queue.delConsumer name } e.1 := by
    intro name hnone
    rcases hacc with hlt | ⟨c, hc⟩ | hacked
    · exact .inl hlt
    · refine .inr (.inl ⟨c, GroupStream.holds_delConsumer.mpr ⟨?_, hc⟩⟩)
      rintro rfl
      exact hnone _ hc
    · exact .inr (.inr hacked)
  cases h with
  | quiet rows => rcases rows with rfl | rfl <;> exact hacc
  | reapClaimed | reclaimed => exact hacc.imp_right (Or.imp_left claimed.mpr)
  | reapAcked | acked => exact acked _
  | gcDeleted at_pc => exact deleted _ (GroupStream.rowless_iff.mp (safe _ _ _ rfl at_pc))
  | deleted at_pc =>
    refine deleted _ fun i hi => ?_
    have := htidy.rows i hi
    rw [at_pc] at this
    cases this
  | delivered unread =>
    rcases hacc with hlt | ⟨c, hc⟩ | hacked
    · rcases ((Stream.firstAbove_eq_some unread).2.2 e he hlt).eq_or_lt with heq | hlt
      · exact .inr (.inl ⟨_, (GroupStream.holds_deliver unread).mpr (.inr ⟨heq.symm, rfl⟩)⟩)
      · exact .inl hlt
    · exact .inr (.inl ⟨c, (GroupStream.holds_deliver unread).mpr (.inl hc)⟩)
    · exact .inr (.inr hacked)
  | touched _ _ rows =>
    rcases rows with rfl | ⟨-, rfl⟩
    · exact hacc
    · exact hacc.imp_right (Or.imp_left claimed.mpr)
  | reapWrote | counted | finished | wrote | beat => exact hacc

/-- A step that deletes no consumer with rows loses no entry. -/
theorem Sys.Accounted.step {a : Action} (hacc : s.Accounted) (hs : Custody s)
    (safe : gcSafe s a = true) (ha : queueStep host cfg s a = some t) : t.Accounted := by
  cases queueStep_move ha with
  | tick | spawn => exact hacc
  | enqueue envelope =>
    refine forall_mem_concat hacc (.inl ?_)
    exact s.srv.queue.last_le.trans_lt (Stream.lastId_lt_nextId _ _)
  | worker hi heff =>
    rename_i i w w' a srv'
    have htidy := hs.tidy w (List.mem_of_getElem? hi) heff.alive.1
    have hstream : srv'.queue.stream = s.srv.queue.stream := heff.advances.stream
    intro e he
    change e ∈ srv'.queue.stream.entries at he
    rw [hstream] at he
    refine heff.accounted htidy ?_ he (hacc e he)
    rintro ts name names rfl hat
    simpa [gcSafe, hi, hat] using safe

theorem exists_row_of_not_gcSafe {a : Action} (dropping : gcSafe s a = false)
    (ha : queueStep host cfg s a = some t) :
    ∃ name i, s.srv.queue.Holds name i ∧
      t.srv = { s.srv with queue := s.srv.queue.delConsumer name } := by
  unfold gcSafe at dropping
  split at dropping
  · rename_i i ts
    split at dropping
    · rename_i name names hpc
      obtain ⟨w, hi, hat⟩ := Option.map_eq_some_iff.mp hpc
      obtain ⟨row, hrow⟩ : ∃ row, s.srv.queue.Holds name row := by
        by_contra hnone
        rw [GroupStream.rowless_iff.mpr (not_exists.mp hnone)] at dropping
        cases dropping
      refine ⟨name, row, hrow, ?_⟩
      simp only [queueStep, hi, workerStep, hat, Pc.ready, Pc.command, Pc.receive, Server.exec,
        if_true, Option.bind_some, Option.map_some, Option.some.injEq] at ha
      rw [← ha]
    · cases dropping
  · cases dropping

theorem not_accounted_of_deleted (hs : Custody s) {name : String} {i : StreamId}
    (hrow : s.srv.queue.Holds name i)
    (ht : t.srv = { s.srv with queue := s.srv.queue.delConsumer name }) : ¬ t.Accounted := by
  intro hacc
  have hpending : s.srv.queue.Pending i := ⟨name, hrow⟩
  obtain ⟨envelope, hfound⟩ := hpending.exists_lookup
  have hentry : (i, envelope) ∈ t.srv.queue.stream.entries := by
    rw [ht]
    exact (Stream.lookup_eq_some_iff.mp hfound).1
  have := hacc _ hentry
  rw [ht] at this
  rcases this with hlt | ⟨c, hc⟩ | hacked
  · exact absurd hpending.le_last hlt.not_ge
  · obtain ⟨hne, hc⟩ := GroupStream.holds_delConsumer.mp hc
    exact hne (hc.unique hrow)
  · exact (hs.settled i hacked).2 hpending

/-- INTERNAL: **no entry is lost while the collector meets no rows**. In every state of a run in
which `gcIdleConsumers` deletes a consumer only while it has no rows, each enqueued entry waits
to be delivered, is pending, or was acknowledged by a step run for it; and the next step keeps
this exactly when it is not a deletion that meets a row. -/
theorem accounted_iff_gcSafe {s : Sys} (h : Reachable (guardedSystem host cfg gcSafe) s) :
    s.Accounted ∧ ∀ a t, queueStep host cfg s a = some t → (t.Accounted ↔ gcSafe s a = true) := by
  have hacc : s.Accounted := by
    induction h with
    | init hinit =>
      obtain rfl := hinit
      intro e he
      cases he
    | step hs hn ih =>
      obtain ⟨a, ha⟩ := hn
      obtain ⟨safe, hstep⟩ := guarded_eq_some.mp ha
      exact ih.step (custody_of_reachable hs.of_guarded) safe hstep
  have hs : Custody s := custody_of_reachable h.of_guarded
  refine ⟨hacc, fun a t ha => ⟨fun ht => ?_, fun safe => hacc.step hs safe ha⟩⟩
  by_contra hdropping
  obtain ⟨name, i, hrow, hsrv⟩ :=
    exists_row_of_not_gcSafe (Bool.eq_false_of_not_eq_true hdropping) ha
  exact not_accounted_of_deleted hs hrow hsrv ht

/-- A host for which every text is an envelope with that text as its session id. -/
def textHost : Host where
  parse text := some (.obj [("sessionId", .str text)])
  toText _ := none

/-- A process starts and runs its reaper and its collector on an empty reply. -/
def startUp (i : ℕ) : List Action := List.replicate 3 (.worker i (.command ""))

/-- A process reads an entry and crashes; another reclaims it, runs it and acknowledges it; a
third collects the first one's consumer. -/
def reclaimAfterCrash : List Action :=
  [.enqueue "s", .spawn "a"] ++ startUp 0 ++
  [.worker 0 (.command ""), .worker 0 (.command ""), .worker 0 .crash, .tick 90000, .spawn "b"] ++
  startUp 1 ++
  [.worker 1 (.command ""), .worker 1 (.command ""), .worker 1 .beat, .worker 1 (.touch (.mk 0 1)),
    .worker 1 (.finish .aborted), .worker 1 (.command ""), .worker 1 (.command ""),
    .tick 300000, .spawn "c"] ++
  startUp 2

/-- The collector deletes a consumer whose process crashed and whose entry was reclaimed. -/
theorem accounted_iff_gcSafe_reclaimed :
    ∃ s t, Reachable (guardedSystem textHost leafJobConfig gcSafe) s ∧ s.srv.acked = [.mk 0 1] ∧
      queueStep textHost leafJobConfig s (.worker 2 (.command "")) = some t ∧
      gcSafe s (.worker 2 (.command "")) = true ∧ t.Accounted := by
  obtain ⟨s, hs, hQ⟩ := exists_reachable_of_actions textHost leafJobConfig gcSafe
    reclaimAfterCrash
    (fun s => (s.srv.acked == [.mk 0 1]) && gcSafe s (.worker 2 (.command "")) &&
      (queueStep textHost leafJobConfig s (.worker 2 (.command ""))).isSome)
    (by decide +kernel)
  simp only [Bool.and_eq_true, beq_iff_eq] at hQ
  obtain ⟨⟨hacked, safe⟩, hstep⟩ := hQ
  obtain ⟨t, ht⟩ := Option.isSome_iff_exists.mp hstep
  exact ⟨s, t, hs, hacked, ht, safe, ((accounted_iff_gcSafe hs).2 _ t ht).mpr safe⟩

/-- A process stalls for five minutes before it reads its first entry, and another process has
listed its consumer as idle by then. -/
def stallBeforeRead : List Action :=
  [.spawn "a"] ++ startUp 0 ++ [.worker 0 (.command ""), .tick 300000, .spawn "b"] ++ startUp 1 ++
  [.enqueue "s", .worker 0 (.command ""), .worker 1 (.command ""), .worker 0 .crash]

/-- The entry read after the stall is neither waiting, nor pending, nor acknowledged: no process
will run it, and nothing is recorded for it. -/
theorem entry_lost_by_gc :
    ∃ s, Reachable (queueSystem textHost leafJobConfig) s ∧
      (.mk 300000 0, "s") ∈ s.srv.queue.stream.entries ∧ ¬ s.srv.Accounted (.mk 300000 0) ∧
      s.srv.results.isEmpty = true := by
  obtain ⟨s, hs, hQ⟩ := exists_reachable_of_actions textHost leafJobConfig (fun _ _ => true)
    stallBeforeRead
    (fun s => (s.srv.queue.stream.entries == [(.mk 300000 0, "s")]) && s.srv.queue.pel.isEmpty &&
      (s.srv.queue.last == .mk 300000 0) && s.srv.acked.isEmpty && s.srv.results.isEmpty)
    (by decide +kernel)
  simp only [Bool.and_eq_true, beq_iff_eq, List.isEmpty_iff] at hQ
  obtain ⟨⟨⟨⟨hentries, hpel⟩, hlast⟩, hacked⟩, hresults⟩ := hQ
  refine ⟨s, hs.of_guarded, by simp [hentries], ?_, by simp [hresults]⟩
  rintro (hlt | hpending | hmem)
  · rw [hlast] at hlt
    exact lt_irrefl _ hlt
  · rw [GroupStream.pending_iff, hpel] at hpending
    cases hpending
  · rw [hacked] at hmem
    cases hmem

end ServerlessHarness.LeafJob
