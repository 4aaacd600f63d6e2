import ServerlessHarness.Analysis.LeafJob.Attempts
import ServerlessHarness.Analysis.LeafJob.Records

/-!
# Entries whose attempts all end saturated

A saturated attempt is to be retried until the pool has room: `classifyOutcome` neither
acknowledges nor records it. But every reclaim raises the delivery count that the two
dead-letter checks compare with `maxAttempts`, whatever the attempts before it ended with. So the
entry is kept while each delivery finds it delivered less often than the checks allow
(`spared_of_saturated`), and the next reclaim gives it up.
-/

set_option autoImplicit false

namespace ServerlessHarness.LeafJob

open Library

variable {host : Host} {cfg : JobConfig} {id : StreamId}

/-! ## The runs -/

/-- The result says that the pool had no room. -/
def LeafResult.saturated : LeafResult → Bool
  | .failed .saturated _ => true
  | _ => false

/-- An attempt on the entry that ends with a result ends saturated. -/
def saturates (id : StreamId) (s : Sys) : Action → Bool
  | .worker i (.finish result) =>
    decide ((s.workers[i]?).bind (fun w => w.pc.leaf) ≠ some id) || result.saturated
  | _ => true

/-- The entry that the next command of a process delivers to it. -/
def Pc.delivers (cfg : JobConfig) (srv : Server) (consumerId : String) : Pc → Option StreamId
  | .claimAuto => (srv.queue.xautoclaim consumerId cfg.minIdleMs srv.now).1
  | .claimRead => srv.queue.unread.map Prod.fst
  | .blocked _ => srv.queue.unread.map Prod.fst
  | _ => none

/-- How often the entry was delivered, as long as it is pending. -/
def Server.deliveries (srv : Server) (id : StreamId) : ℕ := (srv.queue.xpendingEntry id).getD 0

/-- A delivery of the entry finds it delivered less often than both dead-letter checks allow. -/
def deliveredFew (cfg : JobConfig) (id : StreamId) (s : Sys) : Action → Bool
  | .worker i (.command _) =>
    decide ((s.workers[i]?).bind (fun w => w.pc.delivers cfg s.srv w.consumerId) ≠ some id) ||
      (decide (s.srv.deliveries id < cfg.maxAttempts) &&
        decide (s.srv.deliveries id < cfg.reapMaxAttempts))
  | _ => true

/-- Both at once. -/
def saturatedFew (cfg : JobConfig) (id : StreamId) (s : Sys) (a : Action) : Bool :=
  saturates id s a && deliveredFew cfg id s a

/-! ## What it means to be given up -/

/-- The process gives the entry up or records a result for it: it writes or acknowledges for the
entry, or has it among the entries that the reaper took out of the queue. -/
def Pc.givesUp (id : StreamId) : Pc → Bool
  | .write i _ _ _ _ => i = id
  | .ack i => i = id
  | .reapClaim _ _ dead => dead.any fun d => d.entryId = id
  | .reapAck i _ _ dead => i = id || dead.any fun d => d.entryId = id
  | .reapWrite _ _ dead => dead.any fun d => d.entryId = id
  | _ => false

/-- The envelope is that of an entry other than `id`, and `sid` its session id. -/
def Server.Foreign (host : Host) (srv : Server) (id : StreamId) (env : Json) (sid : String) :
    Prop :=
  ∃ i, i ≠ id ∧ srv.Parsed host i env ∧ leafSessionId host env = some sid

/-- The entry was not acknowledged, no process gives it up, and every result record was written for
the envelope of another entry. -/
structure Sys.Spared (host : Host) (s : Sys) (id : StreamId) : Prop where
  unacked : id ∉ s.srv.acked
  kept : ∀ w ∈ s.workers, w.pc.givesUp id = false
  unrecorded : ∀ r ∈ s.srv.results, ∃ env sid, s.srv.Foreign host id env sid ∧ r.1 = resultKey sid

/-! ## The dead letters of other entries -/

/-- The dead letters are other entries with their envelopes. -/
def DeadLetter.Elsewhere (host : Host) (srv : Server) (id : StreamId) (dead : List DeadLetter) :
    Prop :=
  ∀ d ∈ dead, d.entryId ≠ id ∧ ∀ env, d.envelope = some env → srv.Parsed host d.entryId env

/-- What a process that spares the entry works on: other entries, or this one before anything
was decided about it. -/
def Pc.Spares (host : Host) (cfg : JobConfig) (srv : Server) (id : StreamId) : Pc → Prop
  | .claimCount i _ => i = id → 1 ≤ cfg.maxAttempts
  | .write i _ _ _ _ => i ≠ id
  | .ack i => i ≠ id
  | .reapClaim i ids dead => i ≠ id ∧ id ∉ ids ∧ DeadLetter.Elsewhere host srv id dead
  | .reapAck i envelope ids dead =>
    id ∉ ids ∧ DeadLetter.Elsewhere host srv id (dead ++ [⟨i, envelope⟩])
  | .reapWrite env sid dead =>
    srv.Foreign host id env sid ∧ DeadLetter.Elsewhere host srv id dead
  | _ => True

variable {srv : Server} {dead : List DeadLetter} {env : Json} {pc : Pc}

theorem DeadLetter.Elsewhere.any_eq_false (h : DeadLetter.Elsewhere host srv id dead) :
    (dead.any fun d => decide (d.entryId = id)) = false := by
  rw [List.any_eq_false]
  intro d hd
  simpa using (h d hd).1

theorem Pc.Spares.givesUp (h : pc.Spares host cfg srv id) :
    pc.givesUp id = false := by
  cases pc with
  | write | ack => simpa [Pc.givesUp, Pc.Spares] using h
  | reapClaim i ids dead => exact h.2.2.any_eq_false
  | reapAck i envelope ids dead =>
    have hdead := h.2.any_eq_false
    simp only [List.any_append, List.any_cons, List.any_nil, Bool.or_false] at hdead
    simpa [Pc.givesUp, Bool.or_comm] using hdead
  | reapWrite env sid dead => exact h.2.any_eq_false
  | _ => rfl

section Grows

variable {srv srv' : Server}

theorem Server.Foreign.grow {sid : String} (h : srv.Foreign host id env sid) (hg : srv.Grows srv') :
    srv'.Foreign host id env sid := by
  obtain ⟨i, hne, hparsed, hsid⟩ := h
  exact ⟨i, hne, hparsed.grow hg, hsid⟩

theorem DeadLetter.Elsewhere.grow (h : DeadLetter.Elsewhere host srv id dead)
    (hg : srv.Grows srv') :
    DeadLetter.Elsewhere host srv' id dead := by
  intro d hd
  exact ⟨(h d hd).1, fun env henv => ((h d hd).2 env henv).grow hg⟩

theorem Pc.Spares.grow (h : pc.Spares host cfg srv id) (hg : srv.Grows srv') :
    pc.Spares host cfg srv' id := by
  cases pc with
  | claimCount | write | ack => exact h
  | reapClaim => exact ⟨h.1, h.2.1, h.2.2.grow hg⟩
  | reapAck => exact ⟨h.1, h.2.grow hg⟩
  | reapWrite => exact ⟨h.1.grow hg, h.2.grow hg⟩
  | _ => trivial

end Grows

theorem spares_writeNext (h : DeadLetter.Elsewhere host srv id dead) :
    (writeNext host dead).Spares host cfg srv id := by
  fun_induction writeNext host dead with
  | case1 => trivial
  | case2 d ds henv ih => exact ih fun d' hd' => h d' (List.mem_cons_of_mem _ hd')
  | case3 d ds env henv hobj sid hsid =>
    obtain ⟨hne, hparsed⟩ := h d (List.mem_cons_self ..)
    exact ⟨⟨d.entryId, hne, hparsed env henv, hsid⟩,
      fun d' hd' => h d' (List.mem_cons_of_mem _ hd')⟩
  | case4 d ds env henv hobj hsid ih => exact ih fun d' hd' => h d' (List.mem_cons_of_mem _ hd')
  | case5 d ds env henv hobj ih => exact ih fun d' hd' => h d' (List.mem_cons_of_mem _ hd')

theorem spares_reapNext {ids : List StreamId} (hids : id ∉ ids)
    (h : DeadLetter.Elsewhere host srv id dead) :
    (reapNext host ids dead).Spares host cfg srv id := by
  cases ids with
  | nil => exact spares_writeNext h
  | cons i ids =>
    rw [List.mem_cons, not_or] at hids
    exact ⟨Ne.symm hids.1, hids.2, h⟩

theorem spares_gcNext (names : List String) :
    (gcNext names).Spares host cfg srv id := by
  cases names <;> trivial

theorem afterRun_saturated {sid : String} {result : LeafResult} (h : result.saturated = true) :
    afterRun id env sid result = .exited 1 := by
  cases result with
  | failed reason message =>
    cases reason with
    | saturated => rfl
    | _ => cases h
  | _ => cases h

theorem spares_processClaimed {i : StreamId} {n : ℕ} (h : i = id → n ≤ cfg.maxAttempts) :
    (processClaimed host cfg i env n).Spares host cfg srv id := by
  unfold processClaimed
  split
  · trivial
  · split
    · rename_i hlt
      intro hid
      exact absurd (h hid) (Nat.not_le_of_lt hlt)
    · trivial

/-! ## One step -/

section Effects

variable {srv srv' : Server} {w w' : Worker} {a : WorkerAction}

/-- What the two conditions say about a step of one process. -/
structure StepFew (cfg : JobConfig) (id : StreamId) (srv : Server) (w : Worker) (a : WorkerAction) :
    Prop where
  saturates : ∀ result env sid, a = .finish result → w.pc = .running id env sid →
    result.saturated = true
  delivers : ∀ ts, a = .command ts → w.pc.delivers cfg srv w.consumerId = some id →
    srv.deliveries id < cfg.maxAttempts ∧ srv.deliveries id < cfg.reapMaxAttempts

/-- The row of the entry, if there is one, has a count within both bounds. -/
def Server.Few (cfg : JobConfig) (srv : Server) (id : StreamId) : Prop :=
  ∀ row ∈ srv.queue.pel, row.id = id →
    row.count ≤ cfg.maxAttempts ∧ row.count ≤ cfg.reapMaxAttempts

theorem JobEffect.few (h : JobEffect host cfg srv w a srv' w') (hfew : StepFew cfg id srv w a)
    (hspares : w.pc.Spares host cfg srv id) (hrows : srv.Few cfg id) : srv'.Few cfg id := by
  have filtered : ∀ {p : Row String → Bool}, ∀ row ∈ srv.queue.pel.filter p, row.id = id →
      row.count ≤ cfg.maxAttempts ∧ row.count ≤ cfg.reapMaxAttempts := by
    intro p row hrow
    exact hrows row (List.mem_filter.mp hrow).1
  -- A claim that does not count the entry leaves its row as it was.
  have uncounted : ∀ {i c now justId}, (i = id → justId = true) →
      ∀ row ∈ ((srv.queue.see c now).claimRow i c now justId).pel, row.id = id →
      row.count ≤ cfg.maxAttempts ∧ row.count ≤ cfg.reapMaxAttempts := by
    intro i c now justId hne row hrow hid
    obtain ⟨row₀, hrow₀, hid₀, hcount⟩ := GroupStream.count_claimRow hrow
    have hsame : ¬ (row₀.id = i ∧ justId = false) := by
      rintro ⟨rfl, hjust⟩
      have := hne (hid₀.trans hid)
      rw [hjust] at this
      cases this
    rw [hcount, if_neg hsame]
    exact hrows row₀ hrow₀ (hid₀.trans hid)
  cases h with
  | quiet rows => rcases rows with rfl | rfl <;> exact hrows
  | reapClaimed at_pc =>
    rw [at_pc] at hspares
    exact uncounted fun hid => absurd hid hspares.1
  | reapAcked | gcDeleted | acked | deleted => exact filtered
  | reapWrote | counted | finished | wrote | beat => exact hrows
  | @reclaimed ts i _ _ at_pc pending found next taken =>
    by_cases hid : i = id
    · subst hid
      have hbound := hfew.delivers ts rfl (by rw [at_pc]; exact taken)
      intro row hrow hrowid
      obtain ⟨row₀, hrow₀, hid₀, hcount⟩ := GroupStream.count_claimRow hrow
      have hentry : srv.queue.xpendingEntry i = some row₀.count :=
        GroupStream.xpendingEntry_eq_some.mpr ⟨row₀, hrow₀, hid₀.trans hrowid, rfl⟩
      rw [Server.deliveries, hentry, Option.getD_some] at hbound
      rw [hcount, if_pos ⟨hid₀.trans hrowid, rfl⟩]
      exact hbound
    · exact uncounted fun heq => absurd heq hid
  | @delivered ts e pc unread at_pc next =>
    intro row hrow hid
    rcases List.mem_append.mp hrow with hrow | hrow
    · exact hrows row hrow hid
    · obtain rfl := List.mem_singleton.mp hrow
      have hdelivers : w.pc.delivers cfg srv w.consumerId = some id := by
        have hunread : srv.queue.unread = some e := unread
        rcases at_pc with at_pc | ⟨deadline, at_pc⟩ <;>
          simp [at_pc, Pc.delivers, hunread, ← hid]
      have hbound := hfew.delivers ts rfl hdelivers
      exact ⟨Nat.lt_of_le_of_lt (Nat.zero_le _) hbound.1,
        Nat.lt_of_le_of_lt (Nat.zero_le _) hbound.2⟩
  | touched _ _ rows =>
    rcases rows with rfl | ⟨-, rfl⟩
    · exact hrows
    · exact uncounted fun _ => rfl

theorem notMem_reapable (hrows : srv.Few cfg id) :
    id ∉ reapable cfg (srv.queue.xpendingRange cfg.reapBatch srv.now) := by
  intro hid
  obtain ⟨r, hr, hrid⟩ := List.mem_map.mp hid
  obtain ⟨hr, hreap⟩ := List.mem_filter.mp hr
  obtain ⟨row, hrow, rfl⟩ := List.mem_map.mp hr
  have hle := (hrows row (List.mem_of_mem_take hrow) hrid).2
  simp only [Bool.and_eq_true, decide_eq_true_eq] at hreap
  exact absurd hle (Nat.not_le_of_lt hreap.2)

theorem Pc.Passes.spares {pc' : Pc} (h : pc.Passes host cfg srv pc')
    (hspares : pc.Spares host cfg srv id) (hrows : srv.Few cfg id) :
    pc'.Spares host cfg srv id := by
  cases h with
  | grouped => trivial
  | listed => exact spares_reapNext (notMem_reapable hrows) (by simp [DeadLetter.Elsewhere])
  | missed => exact spares_reapNext hspares.2.1 hspares.2.2
  | skipped => exact spares_writeNext hspares.2
  | surveyed => exact spares_gcNext _
  | unclaimed | waits | drained => trivial
  | ended stopped =>
    cases pc' with
    | exited | crashed => trivial
    | _ => cases stopped

theorem JobEffect.spares (h : JobEffect host cfg srv w a srv' w') (hfew : StepFew cfg id srv w a)
    (hspares : w.pc.Spares host cfg srv id) (hrows : srv.Few cfg id) :
    w'.pc.Spares host cfg srv' id := by
  have hg := h.grows
  cases h with
  | quiet _ _ _ _ passes => exact (passes.spares hspares hrows).grow hg
  | reapClaimed at_pc _ found =>
    rw [at_pc] at hspares
    refine ⟨hspares.2.1, forall_mem_concat (hspares.2.2.grow hg) ⟨hspares.1, fun env henv => ?_⟩⟩
    exact ⟨_, (Stream.lookup_eq_some_iff.mp found).1, henv⟩
  | reapAcked at_pc =>
    rw [at_pc] at hspares
    exact spares_reapNext hspares.1 (hspares.2.grow hg)
  | reapWrote at_pc =>
    rw [at_pc] at hspares
    exact spares_writeNext (hspares.2.grow hg)
  | gcDeleted => exact spares_gcNext _
  | @reclaimed ts i _ _ at_pc _ _ next taken =>
    rcases next with rfl | ⟨env, -, rfl⟩
    · trivial
    · rintro rfl
      have hbound := hfew.delivers ts rfl (by rw [at_pc]; exact taken)
      exact Nat.lt_of_le_of_lt (Nat.zero_le _) hbound.1
  | @counted _ i env at_pc =>
    rw [at_pc] at hspares
    apply spares_processClaimed
    rintro rfl
    cases hentry : srv.queue.xpendingEntry i with
    | none => exact hspares rfl
    | some n =>
      obtain ⟨row, hrow, hid, rfl⟩ := GroupStream.xpendingEntry_eq_some.mp hentry
      exact (hrows row hrow hid).1
  | @delivered ts e pc unread at_pc next =>
    rcases next with rfl | ⟨env, -, rfl⟩
    · trivial
    · apply spares_processClaimed
      rintro rfl
      have hdelivers : w.pc.delivers cfg srv w.consumerId = some e.1 := by
        have hunread : srv.queue.unread = some e := unread
        rcases at_pc with at_pc | ⟨deadline, at_pc⟩ <;> simp [at_pc, Pc.delivers, hunread]
      exact Nat.lt_of_le_of_lt (Nat.zero_le _) (hfew.delivers ts rfl hdelivers).1
  | @finished i env sid result at_pc =>
    by_cases hid : i = id
    · subst hid
      simp only [afterRun_saturated (hfew.saturates result env sid rfl at_pc)]
      trivial
    · rcases afterRun_cases i env sid result with hexit | ⟨acks, hwrite⟩
      · simp only [hexit]
        trivial
      · simp only [hwrite]
        exact hid
  | @wrote _ _ _ _ _ acks _ at_pc =>
    rw [at_pc] at hspares
    cases acks with
    | true => exact hspares
    | false => trivial
  | acked | deleted => trivial
  | beat => exact hspares
  | touched => exact hspares.grow hg

theorem JobEffect.foreign (h : JobEffect host cfg srv w a srv' w')
    (hspares : w.pc.Spares host cfg srv id) (hk : w.pc.Knows host srv)
    (hacked : id ∉ srv.acked)
    (hresults : ∀ r ∈ srv.results, ∃ env sid, srv.Foreign host id env sid ∧ r.1 = resultKey sid) :
    id ∉ srv'.acked ∧
      ∀ r ∈ srv'.results, ∃ env sid, srv'.Foreign host id env sid ∧ r.1 = resultKey sid := by
  have hg := h.grows
  have old : ∀ r ∈ srv.results,
      ∃ env sid, srv'.Foreign host id env sid ∧ r.1 = resultKey sid := by
    intro r hr
    obtain ⟨env, sid, hforeign, hkey⟩ := hresults r hr
    exact ⟨env, sid, hforeign.grow hg, hkey⟩
  cases h with
  | reapAcked at_pc =>
    rw [at_pc] at hspares
    refine ⟨?_, old⟩
    have hne := (hspares.2 _ (List.mem_append_right _ (List.mem_singleton_self _))).1
    simpa [hacked] using Ne.symm hne
  | acked at_pc =>
    rw [at_pc] at hspares
    refine ⟨?_, old⟩
    simpa [hacked] using Ne.symm hspares
  | reapWrote at_pc =>
    rw [at_pc] at hspares
    exact ⟨hacked, forall_mem_concat old ⟨_, _, hspares.1.grow hg, rfl⟩⟩
  | @wrote _ i env sid _ _ _ at_pc =>
    rw [at_pc] at hspares hk
    exact ⟨hacked, forall_mem_concat old ⟨env, sid, ⟨i, hspares, hk.1.grow hg, hk.2⟩, rfl⟩⟩
  | _ => exact ⟨hacked, old⟩

end Effects

/-! ## The run -/

/-- The entry is spared by every process, with a delivery count within both bounds. -/
structure Saturated (host : Host) (cfg : JobConfig) (id : StreamId) (s : Sys) : Prop where
  few : s.srv.Few cfg id
  spares : ∀ w ∈ s.workers, w.pc.Spares host cfg s.srv id
  unacked : id ∉ s.srv.acked
  foreign : ∀ r ∈ s.srv.results, ∃ env sid, s.srv.Foreign host id env sid ∧ r.1 = resultKey sid

theorem stepFew_of_saturatedFew {s : Sys} {i : ℕ} {w : Worker} {a : WorkerAction}
    (hi : s.workers[i]? = some w) (h : saturatedFew cfg id s (.worker i a) = true) :
    StepFew cfg id s.srv w a := by
  rw [saturatedFew, Bool.and_eq_true] at h
  constructor
  · rintro result env sid rfl hat
    simpa [saturates, hi, hat, Pc.leaf] using h.1
  · rintro ts rfl hdelivers
    simpa [deliveredFew, hi, hdelivers] using h.2

/-- A step that finds the entry delivered few times keeps it. -/
theorem Saturated.step {s t : Sys} {a : Action} (h : Saturated host cfg id s)
    (hs : Reachable (queueSystem host cfg) s) (few : saturatedFew cfg id s a = true)
    (ha : queueStep host cfg s a = some t) : Saturated host cfg id t := by
  cases queueStep_move ha with
  | tick ms =>
    have hg : s.srv.Grows { s.srv with now := s.srv.now + ms } :=
      ⟨fun e he => he, fun r hr => hr⟩
    exact ⟨h.few, fun w hw => (h.spares w hw).grow hg, h.unacked, h.foreign⟩
  | enqueue envelope =>
    have hg : s.srv.Grows (s.srv.exec (.xadd envelope)).1 :=
      ⟨fun e he => List.mem_append_left _ he, fun r hr => hr⟩
    refine ⟨h.few, fun w hw => (h.spares w hw).grow hg, h.unacked, ?_⟩
    intro r hr
    obtain ⟨env, sid, hforeign, hkey⟩ := h.foreign r hr
    exact ⟨env, sid, hforeign.grow hg, hkey⟩
  | spawn fresh =>
    exact ⟨h.few, forall_mem_concat h.spares trivial, h.unacked, h.foreign⟩
  | worker hi heff =>
    rename_i i w w' a srv'
    have hw : w ∈ s.workers := List.mem_of_getElem? hi
    have hfew := stepFew_of_saturatedFew hi few
    obtain ⟨hacked, hresults⟩ := heff.foreign (h.spares w hw) (knows_of_reachable hs w hw)
      h.unacked h.foreign
    refine ⟨heff.few hfew (h.spares w hw) h.few, ?_, hacked, hresults⟩
    exact forall_mem_set (fun v hv => (h.spares v hv).grow heff.grows)
      (heff.spares hfew (h.spares w hw) h.few)

/-- INTERNAL: **an entry that is only ever saturated is kept while it is delivered few times**. In
every state of a run in which each attempt on the entry that ends with a result ends saturated,
and each delivery of the entry finds it delivered less often than the dead-letter checks allow,
the entry was not acknowledged, no process gives it up, and no result record is its own. -/
theorem spared_of_saturated {s : Sys}
    (h : Reachable (guardedSystem host cfg (saturatedFew cfg id)) s) : s.Spared host id := by
  have hsat : Saturated host cfg id s := by
    induction h with
    | init hinit =>
      subst hinit
      exact ⟨by simp [Server.Few, Sys.empty, GroupStream.empty], by simp [Sys.empty],
        by simp [Sys.empty], by simp [Sys.empty]⟩
    | step hs hn ih =>
      obtain ⟨a, ha⟩ := hn
      obtain ⟨few, hstep⟩ := guarded_eq_some.mp ha
      exact ih.step hs.of_guarded few hstep
  exact ⟨hsat.unacked, fun w hw => (hsat.spares w hw).givesUp, hsat.foreign⟩

/-- A process claims the entry, finds the pool full and exits; ninety seconds pass. -/
def saturatedAttempt (i : ℕ) (consumerId : String) : List Action :=
  [.spawn consumerId] ++ startUp i ++
  [.worker i (.command ""), .worker i (.command ""),
    .worker i (.finish (.failed .saturated none)), .tick 90000]

/-- Three attempts that find the pool full. -/
def threeSaturated : List Action :=
  [.enqueue "s"] ++ saturatedAttempt 0 "a" ++ saturatedAttempt 1 "b" ++ saturatedAttempt 2 "c"

/-- After three saturated attempts the entry is still there, delivered three times. -/
theorem spared_of_saturated_thrice :
    ∃ s, Reachable (guardedSystem textHost leafJobConfig
        (saturatedFew leafJobConfig (.mk 0 1))) s ∧
      s.srv.queue.xpendingEntry (.mk 0 1) = some 3 ∧ s.Spared textHost (.mk 0 1) := by
  obtain ⟨s, hs, hQ⟩ := exists_reachable_of_actions textHost leafJobConfig
    (saturatedFew leafJobConfig (.mk 0 1)) threeSaturated
    (fun s => s.srv.queue.xpendingEntry (.mk 0 1) == some 3) (by decide +kernel)
  exact ⟨s, hs, beq_iff_eq.mp hQ, spared_of_saturated hs⟩

/-- A fourth process claims the entry and gives it up. -/
def fourthDelivery : List Action :=
  threeSaturated ++ [.spawn "d"] ++ startUp 3 ++ List.replicate 4 (.worker 3 (.command ""))

/-- The entry was dead-lettered, with a failed record, although every attempt on it ended
saturated. -/
theorem saturated_dead_lettered :
    ∃ s, Reachable (guardedSystem textHost leafJobConfig (saturates (.mk 0 1))) s ∧
      .mk 0 1 ∈ s.srv.acked ∧
      s.srv.results.map (fun r => (r.1, r.2.status, r.2.reason)) =
        [(resultKey "s", .failed, some .error)] := by
  obtain ⟨s, hs, hQ⟩ := exists_reachable_of_actions textHost leafJobConfig (saturates (.mk 0 1))
    fourthDelivery
    (fun s => decide (s.srv.acked = [.mk 0 1] ∧
      s.srv.results.map (fun r => (r.1, r.2.status, r.2.reason)) =
        [(resultKey "s", .failed, some .error)])) (by decide +kernel)
  obtain ⟨hacked, hresults⟩ := of_decide_eq_true hQ
  exact ⟨s, hs, by simp [hacked], hresults⟩

end ServerlessHarness.LeafJob
