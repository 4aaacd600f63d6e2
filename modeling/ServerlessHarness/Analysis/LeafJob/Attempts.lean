import ServerlessHarness.Analysis.LeafJob.Delivery

/-!
# How often `runLeaf` is started for an entry

`Watched` adds to the system the calls of `runLeaf` made so far. A call is decided by the
delivery count that `claim` returns, and each claim that is still waiting for this count was
paid for by one delivery: the calls made and the claims not yet decided are together at most
the delivery count of the entry's row (`Attempted.paid`). So the calls stay within `maxAttempts`
as long as each `XPENDING` finds the row (`runs_le_maxAttempts`). When the row is gone `claim`
returns a count of one, whatever the entry went through before.
-/

set_option autoImplicit false

namespace ServerlessHarness.LeafJob

open Library

variable {host : Host} {cfg : JobConfig}

/-! ## Calls of `runLeaf` -/

/-- A call of `runLeaf`: the entry, and whether it was acknowledged already when the delivery
count that led to the call was read. -/
structure Start where
  id : StreamId
  settled : Bool
deriving DecidableEq

/-- The system and the calls of `runLeaf` made so far. -/
structure Watched where
  sys : Sys
  starts : List Start

/-- The entry a process runs a leaf for. -/
def Pc.leaf : Pc → Option StreamId
  | .running id _ _ => some id
  | _ => none

/-- The call of `runLeaf` that a step from `s` to `t` makes: a process reads a delivery count and
goes on to run the leaf.
SRCLINE: leaf-job-runner.ts:53-78 -/
def startOf (s t : Sys) : Action → Option Start
  | .worker i (.command _) =>
    ((t.workers[i]?).bind fun w => w.pc.leaf).map fun id => ⟨id, decide (id ∈ s.srv.acked)⟩
  | _ => none

/-- The system after a step to `t`, with the call the step makes. -/
def Watched.after (s : Watched) (a : Action) (t : Sys) : Watched :=
  ⟨t, s.starts ++ (startOf s.sys t a).toList⟩

/-- One step. -/
def watchedStep (host : Host) (cfg : JobConfig) (s : Watched) (a : Action) : Option Watched :=
  (queueStep host cfg s.sys a).map (s.after a)

/-- The runs whose actions all meet `G`, with their calls of `runLeaf`. -/
def watchedSystem (host : Host) (cfg : JobConfig) (G : Sys → Action → Bool) :
    TransitionSystem Watched :=
  .ofStep (· = ⟨.empty, []⟩) (guarded (fun s => G s.sys) (watchedStep host cfg))

/-- How often `runLeaf` was called for the entry. -/
def Watched.runs (s : Watched) (id : StreamId) : ℕ := s.starts.countP fun st => st.id = id

variable {s : Watched} {a : WorkerAction} {i : ℕ} {id : StreamId} {w w' : Worker}
  {srv' : Server}

theorem Watched.reachable_sys {G : Sys → Action → Bool}
    (h : Reachable (watchedSystem host cfg G) s) : Reachable (queueSystem host cfg) s.sys := by
  induction h with
  | init hinit =>
    subst hinit
    exact .init rfl
  | step _ hn ih =>
    obtain ⟨a, ha⟩ := hn
    obtain ⟨t, ht, rfl⟩ := Option.map_eq_some_iff.mp (guarded_eq_some.mp ha).2
    exact .step ih ⟨a, ht⟩

/-- The command that reads the delivery count of a claimed entry finds the entry's row. -/
def countFound (s : Sys) : Action → Bool
  | .worker i (.command _) =>
    match (s.workers[i]?).map Worker.pc with
    | some (.claimCount id _) => (s.srv.queue.xpendingEntry id).isSome
    | _ => true
  | _ => true

/-! ## Claims that are not decided yet -/

/-- The process has claimed the entry and not read its delivery count yet. -/
def Pc.undecided (id : StreamId) : Pc → Bool
  | .claimCount i _ => i = id
  | _ => false

theorem Pc.undecided_of_current {pc : Pc} (h : pc.current ≠ some id) :
    pc.undecided id = false := by
  cases pc with
  | claimCount i env => simpa [Pc.undecided, Pc.current] using h
  | _ => rfl

theorem Pc.leaf_of_current {pc : Pc} (h : pc.current = none) : pc.leaf = none := by
  cases pc with
  | running => cases h
  | _ => rfl

@[simp] theorem leaf_afterRun (id : StreamId) (env : Json) (sid : String) (result : LeafResult) :
    (afterRun id env sid result).leaf = none := by
  rcases afterRun_cases id env sid result with hexit | ⟨acks, hwrite⟩
  · rw [hexit]
    rfl
  · rw [hwrite]
    rfl

@[simp] theorem undecided_afterRun (id i : StreamId) (env : Json) (sid : String)
    (result : LeafResult) : (afterRun id env sid result).undecided i = false := by
  rcases afterRun_cases id env sid result with hexit | ⟨acks, hwrite⟩
  · rw [hexit]
    rfl
  · rw [hwrite]
    rfl

@[simp] theorem undecided_processClaimed (id i : StreamId) (env : Json) (n : ℕ) :
    (processClaimed host cfg id env n).undecided i = false := by
  rcases processClaimed_cases host cfg id env n with hexit | ⟨sid, -, hwrite | hrun⟩
  · rw [hexit]
    rfl
  · rw [hwrite]
    rfl
  · rw [hrun]
    rfl

theorem leaf_processClaimed {i : StreamId} {env : Json} {n : ℕ}
    (h : (processClaimed host cfg id env n).leaf = some i) : i = id ∧ n ≤ cfg.maxAttempts := by
  unfold processClaimed at h
  split at h
  · cases h
  · split at h
    · cases h
    · rename_i hle
      exact ⟨(Option.some.inj h).symm, Nat.le_of_not_lt hle⟩

/-- The process `w'` starts a leaf for the entry by the action. -/
def WorkerAction.starts (w' : Worker) (id : StreamId) : WorkerAction → Bool
  | .command _ => w'.pc.leaf = some id
  | _ => false

theorem WorkerAction.starts_eq_false (h : w'.pc.leaf = none) (id : StreamId) :
    a.starts w' id = false := by
  cases a with
  | command ts => simp [WorkerAction.starts, h]
  | _ => rfl

section Effects

variable {srv srv' : Server} {w w' : Worker} {a : WorkerAction}

/-- The deliveries that the calls and the claims of one step need, for the entry `id`. -/
def WorkerAction.cost (w w' : Worker) (id : StreamId) (a : WorkerAction) : ℤ :=
  share (w'.pc.undecided id) + share (a.starts w' id) - share (w.pc.undecided id)

theorem WorkerAction.cost_nonpos (undecided : w'.pc.undecided id = false)
    (starts : a.starts w' id = false) : a.cost w w' id ≤ 0 := by
  have := share_nonneg (w.pc.undecided id)
  simp only [WorkerAction.cost, undecided, starts, share_false]
  omega

theorem share_starts_processClaimed (host : Host) (cfg : JobConfig) (w : Worker)
    (a : WorkerAction) (id i : StreamId) (env : Json) (n : ℕ) :
    share (a.starts { w with pc := processClaimed host cfg id env n } i) ≤
      share (decide (id = i)) := by
  cases hstarts : a.starts { w with pc := processClaimed host cfg id env n } i with
  | false => exact share_nonneg _
  | true =>
    cases a with
    | command ts =>
      have hleaf : (processClaimed host cfg id env n).leaf = some i := of_decide_eq_true hstarts
      rw [(leaf_processClaimed hleaf).1]
      simp
    | _ => cases hstarts

/-- INTERNAL: **each call and each claim is paid for by a delivery**: the row of an entry is an old
one whose count grew by what the step costs, or a new one that covers it. -/
theorem JobEffect.paid (h : JobEffect host cfg srv w a srv' w') :
    ∀ row' ∈ srv'.queue.pel,
      (∃ row ∈ srv.queue.pel, row.id = row'.id ∧ row.count + a.cost w w' row'.id ≤ row'.count) ∨
      (srv.queue.last < row'.id ∧ w.pc.current = none ∧ a.cost w w' row'.id ≤ row'.count) := by
  -- Rows that are kept or raised pay for a step that costs nothing.
  have kept : (∀ row' ∈ srv'.queue.pel,
        ∃ row ∈ srv.queue.pel, row.id = row'.id ∧ row.count ≤ row'.count) →
      (∀ id, a.cost w w' id ≤ 0) → ∀ row' ∈ srv'.queue.pel,
      (∃ row ∈ srv.queue.pel, row.id = row'.id ∧ row.count + a.cost w w' row'.id ≤ row'.count) ∨
      (srv.queue.last < row'.id ∧ w.pc.current = none ∧ a.cost w w' row'.id ≤ row'.count) := by
    intro hrows hcost row' hrow'
    obtain ⟨row, hrow, hid, hle⟩ := hrows row' hrow'
    have := hcost row'.id
    exact .inl ⟨row, hrow, hid, by omega⟩
  have filtered : ∀ {p : Row String → Bool}, ∀ row' ∈ srv.queue.pel.filter p,
      ∃ row ∈ srv.queue.pel, row.id = row'.id ∧ row.count ≤ row'.count := by
    intro p row' hrow'
    exact ⟨row', (List.mem_filter.mp hrow').1, rfl, le_refl _⟩
  have unchanged : ∀ row' ∈ srv.queue.pel,
      ∃ row ∈ srv.queue.pel, row.id = row'.id ∧ row.count ≤ row'.count :=
    fun row' hrow' => ⟨row', hrow', rfl, le_refl _⟩
  have raised : ∀ {id c now justId},
      ∀ row' ∈ ((srv.queue.see c now).claimRow id c now justId).pel,
      ∃ row ∈ srv.queue.pel, row.id = row'.id ∧ row.count ≤ row'.count := by
    intro id c now justId row' hrow'
    obtain ⟨row, hrow, hid, hcount⟩ := GroupStream.count_claimRow hrow'
    refine ⟨row, hrow, hid, ?_⟩
    rw [hcount]
    split <;> omega
  have idle : w'.pc.current = none → ∀ id, a.cost w w' id ≤ 0 := by
    intro hidle id
    apply WorkerAction.cost_nonpos
    · exact Pc.undecided_of_current (by rw [hidle]; simp)
    · exact WorkerAction.starts_eq_false (Pc.leaf_of_current hidle) id
  cases h with
  | quiet rows alive leaves hidle =>
    rcases rows with rfl | rfl
    · exact kept unchanged (idle hidle)
    · exact kept unchanged (idle hidle)
  | reapClaimed =>
    apply kept raised
    intro id
    exact WorkerAction.cost_nonpos rfl (WorkerAction.starts_eq_false rfl id)
  | reapAcked | gcDeleted => exact kept filtered (idle (by simp))
  | reapWrote => exact kept unchanged (idle (by simp))
  | @reclaimed _ id _ _ at_pc pending found next =>
    rcases next with rfl | ⟨env, -, rfl⟩
    · exact kept raised (idle rfl)
    · -- The new claim is the delivery that the row's count grows by.
      intro row' hrow'
      obtain ⟨row, hrow, hid, hcount⟩ := GroupStream.count_claimRow hrow'
      refine .inl ⟨row, hrow, hid, ?_⟩
      rw [hcount, hid]
      by_cases hsame : id = row'.id
      · simp [WorkerAction.cost, WorkerAction.starts, Pc.undecided, Pc.leaf, at_pc, hsame]
      · simp [WorkerAction.cost, WorkerAction.starts, Pc.undecided, Pc.leaf, at_pc, hsame,
          Ne.symm hsame]
  | @counted ts id env at_pc =>
    apply kept unchanged
    intro i
    have hstarts := share_starts_processClaimed host cfg w (.command ts) id i env
      ((srv.queue.xpendingEntry id).getD 1)
    have hundecided : w.pc.undecided i = decide (id = i) := by rw [at_pc]; rfl
    simp only [WorkerAction.cost, undecided_processClaimed, share_false, hundecided]
    omega
  | @delivered ts e pc unread at_pc next =>
    have hidle : w.pc.current = none := by
      rcases at_pc with at_pc | ⟨deadline, at_pc⟩ <;> rw [at_pc] <;> rfl
    have hcost : ∀ i, WorkerAction.cost w { w with pc := pc } i (.command ts) ≤
        share (decide (e.1 = i)) := by
      intro i
      rcases next with rfl | ⟨env, -, rfl⟩
      · exact (idle rfl i).trans (share_nonneg _)
      · have hstarts := share_starts_processClaimed host cfg w (.command ts) e.1 i env 1
        have := share_nonneg (w.pc.undecided i)
        simp only [WorkerAction.cost, undecided_processClaimed, share_false]
        omega
    have hlast : srv.queue.last < e.1 := (Stream.firstAbove_eq_some unread).2.1
    intro row' hrow'
    have := hcost row'.id
    rcases List.mem_append.mp hrow' with hrow' | hrow'
    · -- The other rows are of entries delivered before.
      have hle := srv.queue.delivered row'.id (List.mem_map_of_mem hrow')
      have hne : e.1 ≠ row'.id := fun heq => absurd (heq ▸ hlast) hle.not_gt
      simp only [hne, decide_false, share_false] at this
      exact .inl ⟨row', hrow', rfl, by omega⟩
    · obtain rfl := List.mem_singleton.mp hrow'
      refine .inr ⟨hlast, hidle, ?_⟩
      simpa using this
  | finished at_pc =>
    apply kept unchanged
    intro id
    exact WorkerAction.cost_nonpos (by simp) (WorkerAction.starts_eq_false (by simp) id)
  | @wrote _ _ _ _ _ acks _ at_pc =>
    apply kept unchanged
    intro id
    cases acks <;> exact WorkerAction.cost_nonpos rfl (WorkerAction.starts_eq_false rfl id)
  | acked | deleted => exact kept filtered (idle rfl)
  | beat at_pc =>
    apply kept unchanged
    intro id
    exact WorkerAction.cost_nonpos (by rw [at_pc]; rfl) rfl
  | @touched id _ alive sent rows =>
    have hcost : ∀ i, WorkerAction.cost w { w with touches := w.touches.erase id } i (.touch id) ≤
        0 := by
      intro i
      simp [WorkerAction.cost, WorkerAction.starts]
    rcases rows with rfl | ⟨-, rfl⟩
    · exact kept unchanged hcost
    · exact kept raised hcost

/-- A leaf starts on a row with attempts left. -/
theorem JobEffect.started (h : JobEffect host cfg srv w a srv' w')
    (found : ∀ ts i env, a = .command ts → w.pc = .claimCount i env →
      (srv.queue.xpendingEntry i).isSome = true) (hstarts : a.starts w' id = true) :
    srv'.acked = srv.acked ∧
      ∃ row ∈ srv'.queue.pel, row.id = id ∧ row.count ≤ cfg.maxAttempts := by
  have absurd_of_leaf : w'.pc.leaf = none → False := by
    intro hleaf
    rw [WorkerAction.starts_eq_false hleaf] at hstarts
    cases hstarts
  cases h with
  | quiet _ _ _ hidle => exact (absurd_of_leaf (Pc.leaf_of_current hidle)).elim
  | reapClaimed | acked | deleted => exact (absurd_of_leaf rfl).elim
  | reapAcked | reapWrote | gcDeleted => exact (absurd_of_leaf (Pc.leaf_of_current (by simp))).elim
  | reclaimed _ _ _ next =>
    rcases next with rfl | ⟨env, -, rfl⟩
    · exact (absurd_of_leaf rfl).elim
    · exact (absurd_of_leaf rfl).elim
  | @counted ts i env at_pc =>
    have hleaf : (processClaimed host cfg i env ((srv.queue.xpendingEntry i).getD 1)).leaf =
        some id := of_decide_eq_true hstarts
    obtain ⟨rfl, hle⟩ := leaf_processClaimed hleaf
    obtain ⟨n, hn⟩ := Option.isSome_iff_exists.mp (found ts id env rfl at_pc)
    obtain ⟨row, hrow, hid, rfl⟩ := GroupStream.xpendingEntry_eq_some.mp hn
    rw [hn] at hle
    exact ⟨rfl, row, hrow, hid, hle⟩
  | delivered unread _ next =>
    rcases next with rfl | ⟨env, -, rfl⟩
    · exact (absurd_of_leaf rfl).elim
    · obtain ⟨rfl, hle⟩ := leaf_processClaimed (of_decide_eq_true hstarts)
      exact ⟨rfl, _, List.mem_append_right _ (List.mem_singleton_self _), rfl, hle⟩
  | finished | beat | touched => cases hstarts
  | @wrote _ _ _ _ _ acks =>
    cases acks <;> exact (absurd_of_leaf rfl).elim

end Effects

/-! ## The bound -/

/-- The calls made and the claims not decided yet are paid for by deliveries, so that the calls
stay within the bound; no call was made for an entry that was acknowledged before. -/
structure Attempted (cfg : JobConfig) (s : Watched) : Prop where
  paid : ∀ row ∈ s.sys.srv.queue.pel,
    (s.runs row.id : ℤ) + tally (fun w => w.pc.undecided row.id) s.sys.workers ≤ row.count
  reached : ∀ st ∈ s.starts, st.id ≤ s.sys.srv.queue.last
  within : ∀ id, s.runs id ≤ cfg.maxAttempts
  timely : ∀ st ∈ s.starts, st.settled = false

theorem startOf_worker {s : Sys} (hi : s.workers[i]? = some w) {st : Start}
    (h : startOf s ⟨srv', s.workers.set i w'⟩ (.worker i a) = some st) :
    a.starts w' st.id = true ∧ st.settled = decide (st.id ∈ s.srv.acked) := by
  have hself : (s.workers.set i w')[i]? = some w' :=
    List.getElem?_set_self (List.getElem?_eq_some_iff.mp hi).1
  cases a with
  | command ts =>
    simp only [startOf, hself, Option.bind_some] at h
    obtain ⟨id, hleaf, rfl⟩ := Option.map_eq_some_iff.mp h
    exact ⟨decide_eq_true hleaf, rfl⟩
  | _ => cases h

theorem countP_startOf_le {s : Sys} (srv' : Server) (w' : Worker) (a : WorkerAction)
    (hi : s.workers[i]? = some w) (id : StreamId) :
    (((startOf s ⟨srv', s.workers.set i w'⟩ (.worker i a)).toList.countP
      fun st => st.id = id : ℕ) : ℤ) ≤ share (a.starts w' id) := by
  cases hstart : startOf s ⟨srv', s.workers.set i w'⟩ (.worker i a) with
  | none => exact share_nonneg _
  | some st =>
    by_cases hid : st.id = id
    · subst hid
      simp [(startOf_worker hi hstart).1]
    · simpa [hid] using share_nonneg _

theorem Attempted.paid_worker (h : Attempted cfg s) (hs : Custody s.sys)
    (hi : s.sys.workers[i]? = some w) (heff : JobEffect host cfg s.sys.srv w a srv' w')
    {row' : Row String} (hrow' : row' ∈ srv'.queue.pel) :
    (s.runs row'.id : ℤ) + share (a.starts w' row'.id) +
      tally (fun w => w.pc.undecided row'.id) (s.sys.workers.set i w') ≤ row'.count := by
  have hset := tally_set (fun w => w.pc.undecided row'.id) w' hi
  rcases heff.paid row' hrow' with ⟨row, hrow, hid, hcost⟩ | ⟨hlast, hidle, hcost⟩
  · have hpaid := h.paid row hrow
    rw [hid] at hpaid
    simp only [WorkerAction.cost] at hcost
    omega
  · -- Nobody has claimed or run an entry that was not delivered before.
    have hruns : s.runs row'.id = 0 := by
      rw [Watched.runs, List.countP_eq_zero]
      intro st hst
      have hle := h.reached st hst
      simpa using ne_of_lt (hle.trans_lt hlast)
    have hnone : tally (fun w => w.pc.undecided row'.id) s.sys.workers = 0 := by
      apply tally_eq_zero
      intro v hv
      cases hstopped : v.pc.stopped with
      | true => cases hpc : v.pc <;> first | rfl | (rw [hpc] at hstopped; cases hstopped)
      | false =>
        apply Pc.undecided_of_current
        intro hcurrent
        exact absurd ((hs.tidy v hv hstopped).reached _ hcurrent) hlast.not_ge
    simp only [WorkerAction.cost] at hcost
    rw [hruns]
    push_cast
    omega

/-- The count of the attempts, over one step of a worker. -/
theorem Attempted.worker (h : Attempted cfg s) (hs : Custody s.sys)
    (hi : s.sys.workers[i]? = some w) (heff : JobEffect host cfg s.sys.srv w a srv' w')
    (found : ∀ ts j env, a = .command ts → w.pc = .claimCount j env →
      (s.sys.srv.queue.xpendingEntry j).isSome = true) :
    Attempted cfg (s.after (.worker i a) ⟨srv', s.sys.workers.set i w'⟩) := by
  have hruns : ∀ id, ((s.after (.worker i a) ⟨srv', s.sys.workers.set i w'⟩).runs id : ℤ) ≤
      s.runs id + share (a.starts w' id) := by
    intro id
    have := countP_startOf_le srv' w' a hi id
    simp only [Watched.runs, Watched.after, List.countP_append, Nat.cast_add]
    omega
  have hpaid : ∀ row' ∈ srv'.queue.pel,
      ((s.after (.worker i a) ⟨srv', s.sys.workers.set i w'⟩).runs row'.id : ℤ) +
        tally (fun w => w.pc.undecided row'.id) (s.sys.workers.set i w') ≤ row'.count := by
    intro row' hrow'
    have := h.paid_worker hs hi heff hrow'
    have := hruns row'.id
    omega
  have hcustody : Custody ⟨srv', s.sys.workers.set i w'⟩ := hs.worker hi heff
  refine ⟨hpaid, ?_, ?_, ?_⟩
  · intro st hst
    rcases List.mem_append.mp hst with hst | hst
    · exact (h.reached st hst).trans heff.advances.last_mono
    · have hstart := (startOf_worker hi (Option.mem_toList.mp hst)).1
      obtain ⟨-, row, hrow, hid, -⟩ := heff.started found hstart
      rw [← hid]
      exact srv'.queue.delivered row.id (List.mem_map_of_mem hrow)
  · intro id
    cases hstart : a.starts w' id with
    | false =>
      have := hruns id
      have := h.within id
      simp only [hstart, share_false] at *
      omega
    | true =>
      obtain ⟨-, row, hrow, rfl, hcount⟩ := heff.started found hstart
      have := hpaid row hrow
      have := tally_nonneg (fun w => w.pc.undecided row.id) (s.sys.workers.set i w')
      omega
  · intro st hst
    rcases List.mem_append.mp hst with hst | hst
    · exact h.timely st hst
    · obtain ⟨hstart, hsettled⟩ := startOf_worker hi (Option.mem_toList.mp hst)
      obtain ⟨hacked, row, hrow, hid, -⟩ := heff.started found hstart
      rw [hsettled]
      apply decide_eq_false
      intro hmem
      have hpending : srv'.queue.Pending st.id :=
        GroupStream.pending_iff.mpr (hid ▸ List.mem_map_of_mem hrow)
      exact (hcustody.settled st.id (hacked ▸ hmem)).2 hpending

theorem Attempted.outside (h : Attempted cfg s) {a : Action} {t : Sys}
    (quiet : startOf s.sys t a = none) (rows : t.srv.queue.pel = s.sys.srv.queue.pel)
    (last : t.srv.queue.last = s.sys.srv.queue.last)
    (claims : ∀ id, tally (fun w => w.pc.undecided id) t.workers =
      tally (fun w => w.pc.undecided id) s.sys.workers) : Attempted cfg (s.after a t) := by
  have hstarts : (s.after a t).starts = s.starts := by
    simp [Watched.after, quiet]
  refine ⟨?_, ?_, ?_, ?_⟩
  · intro row hrow
    have hrow' : row ∈ s.sys.srv.queue.pel := rows ▸ hrow
    rw [Watched.runs, hstarts]
    exact (claims row.id).symm ▸ h.paid row hrow'
  · intro st hst
    rw [hstarts] at hst
    exact last.symm ▸ h.reached st hst
  · intro id
    rw [Watched.runs, hstarts]
    exact h.within id
  · rw [hstarts]
    exact h.timely

/-- The attempts are counted in every run. -/
theorem attempted_of_reachable (h : Reachable (watchedSystem host cfg countFound) s) :
    Attempted cfg s := by
  induction h with
  | init hinit =>
    subst hinit
    exact ⟨by simp [Sys.empty, GroupStream.empty], by simp, by simp [Watched.runs], by simp⟩
  | @step s t hs hn ih =>
    obtain ⟨a, ha⟩ := hn
    obtain ⟨hfound, hstep⟩ := guarded_eq_some.mp ha
    obtain ⟨t, ht, rfl⟩ := Option.map_eq_some_iff.mp hstep
    cases queueStep_move ht with
    | tick | enqueue => exact ih.outside rfl rfl rfl fun id => rfl
    | spawn fresh =>
      refine ih.outside rfl rfl rfl fun id => ?_
      simp [tally, Pc.undecided]
    | worker hi heff =>
      apply ih.worker (custody_of_reachable (Watched.reachable_sys hs)) hi heff
      rintro ts j env rfl hat
      simpa [countFound, hi, hat] using hfound

/-- INTERNAL: **`runLeaf` is called at most `maxAttempts` times for an entry while each delivery
count is found**. In every state of a run in which each `XPENDING` that reads the delivery count of
a claimed entry finds the entry's row, no entry was run more often than `maxAttempts`, and none
was run that had been acknowledged when its delivery count was read. -/
theorem runs_le_maxAttempts {s : Watched} (h : Reachable (watchedSystem host cfg countFound) s) :
    (∀ id, s.runs id ≤ cfg.maxAttempts) ∧ ∀ st ∈ s.starts, st.settled = false :=
  ⟨(attempted_of_reachable h).within, (attempted_of_reachable h).timely⟩

theorem exists_watched_of_actions (host : Host) (cfg : JobConfig) (G : Sys → Action → Bool)
    (as : List Action) (P : Watched → Bool)
    (h : (runActions (guarded (fun s => G s.sys) (watchedStep host cfg)) ⟨.empty, []⟩ as).map P =
      some true) :
    ∃ s, Reachable (watchedSystem host cfg G) s ∧ P s = true := by
  refine exists_reachable_of_runActions ?_ as P h
  rfl

/-- An entry that was read once and reclaimed once was run twice. -/
theorem runs_le_maxAttempts_reclaimed :
    ∃ s, Reachable (watchedSystem textHost leafJobConfig countFound) s ∧ s.runs (.mk 0 1) = 2 ∧
      (∀ id, s.runs id ≤ 3) ∧ ∀ st ∈ s.starts, st.settled = false := by
  obtain ⟨s, hs, hQ⟩ := exists_watched_of_actions textHost leafJobConfig countFound
    reclaimAfterCrash (fun s => s.runs (.mk 0 1) == 2) (by decide +kernel)
  exact ⟨s, hs, beq_iff_eq.mp hQ, runs_le_maxAttempts hs⟩

/-- A process starts, claims the entry and, with a count read, runs it; ninety seconds pass
without a heartbeat. -/
def stalledAttempt (i : ℕ) (consumerId : String) : List Action :=
  [.spawn consumerId] ++ startUp i ++
  [.worker i (.command ""), .worker i (.command ""), .tick 90000]

/-- Three processes run the entry and stall. A fourth claims it; before it reads the delivery
count, which is four by now, the first process finishes and acknowledges the entry. -/
def ackBeforeCount : List Action :=
  [.enqueue "s"] ++ stalledAttempt 0 "a" ++ stalledAttempt 1 "b" ++ stalledAttempt 2 "c" ++
  [.spawn "d"] ++ startUp 3 ++
  [.worker 3 (.command ""), .worker 0 (.finish .aborted), .worker 0 (.command ""),
    .worker 0 (.command ""), .worker 3 (.command "")]

/-- The fourth process runs the entry although it was acknowledged, and for the fourth time. -/
theorem runs_after_ack :
    ∃ s, Reachable (watchedSystem textHost leafJobConfig fun _ _ => true) s ∧
      s.runs (.mk 0 1) = leafJobConfig.maxAttempts + 1 ∧ ⟨.mk 0 1, true⟩ ∈ s.starts := by
  obtain ⟨s, hs, hQ⟩ := exists_watched_of_actions textHost leafJobConfig (fun _ _ => true)
    ackBeforeCount
    (fun s => (s.runs (.mk 0 1) == 4) && decide ((⟨.mk 0 1, true⟩ : Start) ∈ s.starts))
    (by decide +kernel)
  simp only [Bool.and_eq_true, beq_iff_eq, decide_eq_true_eq] at hQ
  exact ⟨s, hs, hQ.1, hQ.2⟩

end ServerlessHarness.LeafJob
