import ServerlessHarness.Analysis.VmPool.Books

/-!
# Closing the pool

What the lock, the wait groups and the two closed channels guarantee. Each counter that a
goroutine waits for is the number of goroutines that will still decrement it: the lock is
held by one sweeping goroutine, `inFlightWarms` counts the registered replenish callbacks,
`reclaimDone` and the reaper's wait group the goroutines that have not exited. A goroutine
that has exited left an empty queue that nothing can be added to. `Close` passes a wait only
when the counter is zero, and after it has set `closed` none of them can rise again
(`Closing.stages`).
-/

set_option autoImplicit false

namespace ServerlessHarness.VmPool

open Library

/-- A `Close` that has closed the pool. -/
def Role.closing : Role → Bool
  | .closer n => 1 ≤ n
  | _ => false

/-- The reclaim goroutine or a reap worker that has not exited, or has. -/
def Role.isLoop : Role → Bool
  | .loop _ => true
  | _ => false

def Role.isWorker : Role → Bool
  | .worker _ => true
  | _ => false

/-- What a `Close` that has passed `n` statements has established. -/
structure Stage (L : Ledger) (n : Nat) : Prop where
  warms : 2 ≤ n → L.warms = 0
  queueClosed : 4 ≤ n → L.queueClosed = true
  loops : 5 ≤ n → L.loops = 0
  reaperClosed : 6 ≤ n → ∀ r ∈ L.reaper, r.closed = true
  running : 7 ≤ n → ∀ r ∈ L.reaper, r.running = 0

/-- The invariant of closing. -/
structure Closing (L : Ledger) (l : List Stake) : Prop where
  locked : tally Stake.locked l = share L.locked
  ready : L.closed = true → ∀ e ∈ L.live, (L.acct e.2).ready = []
  closers : tally (fun st => st.role.closing) l = share L.closed
  queueClosed : L.queueClosed = true → L.closed = true
  warms : L.warms = tally Stake.registered l
  loops : (L.loops : ℤ) = tally (fun st => st.role = .loop false) l
  oneLoop : tally (fun st => st.role.isLoop) l = 1
  loopExited : ∀ st ∈ l, st.role = .loop true → L.queue = [] ∧ L.queueClosed = true
  running : ∀ r ∈ L.reaper, (r.running : ℤ) = tally (fun st => st.role = .worker false) l
  workers : L.reaper.isSome = true ↔ 1 ≤ tally (fun st => st.role.isWorker) l
  workerExited : ∀ st ∈ l, st.role = .worker true → ∀ r ∈ L.reaper, r.queue = [] ∧ r.closed = true
  stages : ∀ st ∈ l, ∀ n, st.role = .closer n → Stage L n

variable {st : Stake} {n : Nat}

section Steps

variable {L L' : Ledger} {l : List Stake} {st st' : Stake} (h : Effect L st L' st')
include h

theorem Effect.role_cases : st'.role = st.role ∨
    (st.role = .worker false ∧ st'.role = .worker true) ∨
    (st.role = .loop false ∧ st'.role = .loop true) ∨
    ∃ n, st.role = .closer n ∧ st'.role = .closer (n + 1) := by
  cases h with
  | workerExit _ role => exact .inr (.inl ⟨role, rfl⟩)
  | loopExit _ role => exact .inr (.inr (.inl ⟨role, rfl⟩))
  | close _ role | passWarms role | passVictims role | closeQueue role | passLoop role
  | closeReaper role | passReaper role => exact .inr (.inr (.inr ⟨_, role, rfl⟩))
  | _ => exact .inl rfl

theorem Effect.locked_balance (held : st.locked = true → L.locked = true) :
    share L'.locked + share st.locked = share L.locked + share st'.locked := by
  cases h with
  | lock free unlocked => simp [free, unlocked]
  | unlock locked => simp [locked, held locked]
  | _ => rfl

theorem Effect.closers_balance :
    share L'.closed + share st.role.closing = share L.closed + share st'.role.closing := by
  cases h with
  | close isOpen role => simp [isOpen, role, Ledger.close, Role.closing]
  | passWarms role | passVictims role | closeQueue role | passLoop role | closeReaper role
  | passReaper role => simp [role, Role.closing]
  | workerExit _ role | loopExit _ role => simp [role, Role.closing]
  | _ => rfl

theorem Effect.warms_balance :
    L'.warms + share st.registered = L.warms + share st'.registered := by
  cases h with
  | startRefill _ _ idle => simp [idle.registered]
  | unregister registered => simp [registered]
  | _ => rfl

theorem Effect.warms_le (closed : L.closed = true) : L'.warms ≤ L.warms := by
  cases h with
  | startRefill _ _ _ _ isOpen => simp [closed] at isOpen
  | unregister => simp
  | _ => exact le_refl _

theorem Effect.loops_balance (counted : st.role = .loop false → 1 ≤ L.loops) :
    (L'.loops : ℤ) + share (decide (st.role = .loop false)) =
      L.loops + share (decide (st'.role = .loop false)) := by
  cases h with
  | loopExit _ role =>
    have := counted role
    simp [role]
    omega
  | close _ role => simp [role, Ledger.close]
  | passWarms role | passVictims role | closeQueue role | passLoop role | closeReaper role
  | passReaper role => simp [role]
  | workerExit _ role => simp [role]
  | _ => rfl

theorem Effect.ready_step
    (ready : L.closed = true → ∀ e ∈ L.live, (L.acct e.2).ready = []) :
    L'.closed = true → ∀ e ∈ L'.live, (L'.acct e.2).ready = [] := by
  intro hc e he
  have written (hc : L.closed = true) (he : e ∈ L.live) (x : Nat) (a : Account)
      (ha : a.ready = (L.acct x).ready ∨ a.ready = []) : ((L.post x a).acct e.2).ready = [] := by
    by_cases hx : e.2 = x
    · subst hx
      simpa [Ledger.post, ready hc e he] using ha
    · simpa [Ledger.post, Function.update_of_ne hx] using ready hc e he
  cases h with
  | openRun =>
    rcases List.mem_append.mp he with he | he
    · exact written hc he _ _ (.inr rfl)
    · obtain rfl : e = (_, L.nextRun) := by simpa using he
      simp [Ledger.openRun]
  | takeReady live hready =>
    have := ready hc _ live
    simp [hready] at this
  | settleReady _ _ isOpen => simp [show L.closed = true from hc] at isOpen
  | takeStandbys live hready =>
    have hnil := ready hc _ live
    rw [hready, List.append_eq_nil_iff] at hnil
    exact written hc he _ _ (.inr hnil.2)
  | startWarm | startRefill | settleCold | settleFail | settleClosed | takeGate | dropGate
  | discharge => exact written hc he _ _ (.inl rfl)
  | dropRun | detachRun => exact ready hc e (List.mem_filter.mp he).1
  | close =>
    have hmem : e.2 ∈ L.live.map Prod.snd := List.mem_map_of_mem he
    simp [Ledger.close, if_pos hmem]
  | _ => exact ready hc e he

theorem Effect.queueClosed_step (queueClosed : L.queueClosed = true → L.closed = true)
    (stage : ∀ n, st.role = .closer n → 1 ≤ n → L.closed = true) :
    L'.queueClosed = true → L'.closed = true := by
  intro hq
  cases h with
  | closeQueue role => exact stage 3 role (by omega)
  | close => rfl
  | _ => exact queueClosed hq

theorem Effect.loopExited_step
    (exited : L.queue = [] ∧ L.queueClosed = true)
    (queueClosed : L.queueClosed = true → L.closed = true) :
    L'.queue = [] ∧ L'.queueClosed = true := by
  cases h with
  | enqueue isOpen => simp [queueClosed exited.2] at isOpen
  | dequeue _ _ queue => simp [exited.1] at queue
  | closeQueue => exact ⟨exited.1, rfl⟩
  | _ => exact exited

theorem Effect.running_balance (counted : st.role = .worker false → ∀ r ∈ L.reaper, 1 ≤ r.running)
    {r' : Reaper} (hr' : L'.reaper = some r') : ∃ r, L.reaper = some r ∧
      (r'.running : ℤ) + share (decide (st.role = .worker false)) =
        r.running + share (decide (st'.role = .worker false)) := by
  cases h with
  | submit _ _ reaper =>
    obtain rfl := Option.some.inj hr'
    exact ⟨_, reaper, rfl⟩
  | workerTake _ role reaper =>
    obtain rfl := Option.some.inj hr'
    exact ⟨_, reaper, rfl⟩
  | workerExit _ role reaper =>
    obtain rfl := Option.some.inj hr'
    have := counted role _ reaper
    refine ⟨_, reaper, ?_⟩
    simp [role]
    omega
  | closeReaper role =>
    obtain ⟨r, hr, rfl⟩ := Option.map_eq_some_iff.mp hr'
    exact ⟨r, hr, by simp [role]⟩
  | close _ role | passWarms role | passVictims role | closeQueue role | passLoop role
  | passReaper role => exact ⟨r', hr', by simp [role]⟩
  | loopExit _ role => exact ⟨r', hr', by simp [role]⟩
  | _ => exact ⟨r', hr', rfl⟩

theorem Effect.reaper_cases {r' : Reaper} (hr' : L'.reaper = some r') : ∃ r, L.reaper = some r ∧
    (r.closed = true → r'.closed = true) ∧ r'.running ≤ r.running ∧
    (r.queue = [] → r.closed = true → r'.queue = []) := by
  cases h with
  | @submit vm r _ _ reaper isOpen =>
    obtain rfl := Option.some.inj hr'
    exact ⟨r, reaper, id, le_refl _, fun _ hc => by simp [hc] at isOpen⟩
  | @workerTake vm rest r _ _ reaper queue =>
    obtain rfl := Option.some.inj hr'
    exact ⟨r, reaper, id, le_refl _, fun hq => by simp [hq] at queue⟩
  | @workerExit r _ _ reaper =>
    obtain rfl := Option.some.inj hr'
    exact ⟨r, reaper, id, Nat.sub_le _ _, fun hq _ => hq⟩
  | closeReaper =>
    obtain ⟨r, hr, rfl⟩ := Option.map_eq_some_iff.mp hr'
    exact ⟨r, hr, fun _ => rfl, le_refl _, fun hq _ => hq⟩
  | _ => exact ⟨r', hr', id, le_refl _, fun hq _ => hq⟩

theorem Effect.workerExited_step (exited : ∀ r ∈ L.reaper, r.queue = [] ∧ r.closed = true) :
    ∀ r ∈ L'.reaper, r.queue = [] ∧ r.closed = true := by
  intro r' hr'
  obtain ⟨r, hr, closed, -, queue⟩ := h.reaper_cases hr'
  obtain ⟨hq, hc⟩ := exited r hr
  exact ⟨queue hq hc, closed hc⟩

theorem Effect.stage_step (closed : 1 ≤ n → L.closed = true) (stage : Stage L n)
    (nonneg : 0 ≤ L'.warms) : Stage L' n where
  warms hn := by
    have hle := h.warms_le (closed (by omega))
    have hzero := stage.warms hn
    omega
  queueClosed hn := by
    have hclosed := stage.queueClosed hn
    cases h with
    | closeQueue => rfl
    | _ => exact hclosed
  loops hn := by
    have hzero := stage.loops hn
    cases h with
    | loopExit => simp [hzero]
    | _ => exact hzero
  reaperClosed hn r' hr' := by
    obtain ⟨r, hr, hclosed, -, -⟩ := h.reaper_cases hr'
    exact hclosed (stage.reaperClosed hn r hr)
  running hn r' hr' := by
    obtain ⟨r, hr, -, hle, -⟩ := h.reaper_cases hr'
    have hzero := stage.running hn r hr
    omega

theorem Effect.stage_next (hr : st'.role = .closer n) (old : ∀ m, st.role = .closer m → Stage L m)
    (same : st'.role ≠ st.role) : Stage L' n := by
  cases h with
  | close =>
    obtain rfl : 1 = n := Role.closer.inj hr
    constructor <;> omega
  | passWarms role warms =>
    obtain rfl : 2 = n := Role.closer.inj hr
    have := old _ role
    constructor <;> intro hn
    · exact warms
    all_goals omega
  | passVictims role =>
    obtain rfl : 3 = n := Role.closer.inj hr
    have := old _ role
    constructor <;> intro hn
    · exact this.warms (by omega)
    all_goals omega
  | closeQueue role =>
    obtain rfl : 4 = n := Role.closer.inj hr
    have := old _ role
    constructor <;> intro hn
    · exact this.warms (by omega)
    · rfl
    all_goals omega
  | passLoop role loops =>
    obtain rfl : 5 = n := Role.closer.inj hr
    have := old _ role
    constructor <;> intro hn
    · exact this.warms (by omega)
    · exact this.queueClosed (by omega)
    · exact loops
    all_goals omega
  | closeReaper role =>
    obtain rfl : 6 = n := Role.closer.inj hr
    have := old _ role
    constructor <;> intro hn
    · exact this.warms (by omega)
    · exact this.queueClosed (by omega)
    · exact this.loops (by omega)
    · intro r hr
      obtain ⟨r, -, rfl⟩ := Option.map_eq_some_iff.mp hr
      rfl
    · omega
  | passReaper role running =>
    obtain rfl : 7 = n := Role.closer.inj hr
    have := old _ role
    constructor <;> intro hn
    · exact this.warms (by omega)
    · exact this.queueClosed (by omega)
    · exact this.loops (by omega)
    · exact this.reaperClosed (by omega)
    · exact running
  | workerExit | loopExit => simp at hr
  | _ => exact absurd rfl same

theorem Effect.loop_exits (hr : st'.role = .loop true) (same : st'.role ≠ st.role) :
    L'.queue = [] ∧ L'.queueClosed = true := by
  cases h with
  | loopExit _ _ queue isClosed => exact ⟨queue, isClosed⟩
  | workerExit | close | passWarms | passVictims | closeQueue | passLoop | closeReaper
  | passReaper => simp at hr
  | _ => exact absurd rfl same

theorem Effect.worker_exits (hr : st'.role = .worker true) (same : st'.role ≠ st.role) :
    ∀ r ∈ L'.reaper, r.queue = [] ∧ r.closed = true := by
  cases h with
  | workerExit _ _ _ queue isClosed =>
    intro r hr
    obtain rfl := Option.some.inj hr
    exact ⟨queue, isClosed⟩
  | loopExit | close | passWarms | passVictims | closeQueue | passLoop | closeReaper
  | passReaper => simp at hr
  | _ => exact absurd rfl same

end Steps

/-! ## Closing over whole runs -/

section

variable {L : Ledger} {l : List Stake} (c : Closing L l)
include c

theorem Closing.closed_of_stage (hst : st ∈ l) (hr : st.role = .closer n) (hn : 1 ≤ n) :
    L.closed = true := by
  have hpos := tally_pos (p := fun st : Stake => st.role.closing) hst
    (by simp [hr, Role.closing, hn])
  rw [c.closers] at hpos
  cases hc : L.closed with
  | true => rfl
  | false => simp [hc] at hpos

theorem Closing.locked_of_stake (hst : st ∈ l) (hlocked : st.locked = true) :
    L.locked = true := by
  have hpos := tally_pos hst hlocked
  rw [c.locked] at hpos
  cases hc : L.locked with
  | true => rfl
  | false => simp [hc] at hpos

end

/-- One effect keeps the state of the close. -/
theorem Closing.act {L L' : Ledger} {l : List Stake} {i : Nat} {st' : Stake} (c : Closing L l)
    (hi : l[i]? = some st) (h : Effect L st L' st') : Closing L' (l.set i st') := by
  have hst : st ∈ l := List.mem_of_getElem? hi
  have warms : L'.warms = tally Stake.registered (l.set i st') := by
    have balance := h.warms_balance
    have turn := tally_set Stake.registered st' hi
    have old := c.warms
    omega
  have roles (f : Role → Bool) (hf : ∀ r, f (.worker r) = f (.worker false))
      (hg : ∀ r, f (.loop r) = f (.loop false)) (hc : ∀ n, f (.closer n) = f (.closer 0)) :
      tally (fun st => f st.role) (l.set i st') = tally (fun st => f st.role) l := by
    have turn := tally_set (fun st => f st.role) st' hi
    have same : f st'.role = f st.role := by
      rcases h.role_cases with hr | ⟨hr, hr'⟩ | ⟨hr, hr'⟩ | ⟨n, hr, hr'⟩
      · rw [hr]
      · rw [hr, hr', hf]
      · rw [hr, hr', hg]
      · rw [hr, hr', hc, hc n]
    rw [same] at turn
    omega
  refine ⟨?_, h.ready_step c.ready, ?_, ?_, warms, ?_, ?_, ?_, ?_, ?_, ?_, ?_⟩
  · have balance := h.locked_balance (c.locked_of_stake hst)
    have turn := tally_set Stake.locked st' hi
    have old := c.locked
    omega
  · have balance := h.closers_balance
    have turn := tally_set (fun st : Stake => st.role.closing) st' hi
    have old := c.closers
    omega
  · exact h.queueClosed_step c.queueClosed fun n hr hn => c.closed_of_stage hst hr hn
  · have counted (hr : st.role = .loop false) : 1 ≤ L.loops := by
      have hpos := tally_pos (p := fun st : Stake => decide (st.role = .loop false)) hst
        (by simp [hr])
      have old := c.loops
      omega
    have balance := h.loops_balance counted
    have turn := tally_set (fun st : Stake => decide (st.role = .loop false)) st' hi
    have old := c.loops
    omega
  · rw [roles Role.isLoop (fun _ => rfl) (fun _ => rfl) fun _ => rfl]
    exact c.oneLoop
  · refine forall_mem_set ?_ ?_
    · exact fun x hx hr => h.loopExited_step (c.loopExited x hx hr) c.queueClosed
    · intro hr
      by_cases same : st'.role = st.role
      · exact h.loopExited_step (c.loopExited st hst (same ▸ hr)) c.queueClosed
      · exact h.loop_exits hr same
  · intro r' hr'
    have counted (hr : st.role = .worker false) (r : Reaper) (hreaper : r ∈ L.reaper) :
        1 ≤ r.running := by
      have hpos := tally_pos (p := fun st : Stake => decide (st.role = .worker false)) hst
        (by simp [hr])
      have old := c.running r hreaper
      omega
    obtain ⟨r, hr, balance⟩ := h.running_balance counted hr'
    have turn := tally_set (fun st : Stake => decide (st.role = .worker false)) st' hi
    have old := c.running r hr
    omega
  · rw [h.frame.2.2.1, roles Role.isWorker (fun _ => rfl) (fun _ => rfl) fun _ => rfl]
    exact c.workers
  · refine forall_mem_set ?_ ?_
    · exact fun x hx hr => h.workerExited_step (c.workerExited x hx hr)
    · intro hr
      by_cases same : st'.role = st.role
      · exact h.workerExited_step (c.workerExited st hst (same ▸ hr))
      · exact h.worker_exits hr same
  · have nonneg : 0 ≤ L'.warms := warms ▸ tally_nonneg _ _
    refine forall_mem_set ?_ ?_
    · exact fun x hx n hr => h.stage_step (c.closed_of_stage hx hr) (c.stages x hx n hr) nonneg
    · intro n hr
      by_cases same : st'.role = st.role
      · have hr' : st.role = .closer n := same ▸ hr
        exact h.stage_step (c.closed_of_stage hst hr') (c.stages st hst n hr') nonneg
      · exact h.stage_next hr (c.stages st hst) same

/-- A new thread keeps the state of the close. -/
theorem Closing.join {L : Ledger} {l : List Stake} (c : Closing L l) (h : Joins st) :
    Closing L (l ++ [st]) := by
  cases h with
  | @intro role hrole =>
    have adds (p : Stake → Bool) (hp : p { role := role } = false) :
        tally p (l ++ [{ role := role }]) = tally p l := by
      rw [tally_append]
      simp [tally, hp]
    have hcases : role.closing = false ∧ role ≠ .loop false ∧ role.isLoop = false ∧
        role ≠ .loop true ∧ role ≠ .worker false ∧ role.isWorker = false ∧ role ≠ .worker true ∧
        ∀ n, role = .closer n → n = 0 := by
      rcases hrole with rfl | rfl | rfl | rfl | rfl | rfl <;>
        simp [Role.closing, Role.isLoop, Role.isWorker]
    obtain ⟨closing, loop, isLoop, loopExited, worker, isWorker, workerExited, stage⟩ := hcases
    exact
      { locked := by rw [adds _ rfl]; exact c.locked
        ready := c.ready
        closers := by rw [adds _ closing]; exact c.closers
        queueClosed := c.queueClosed
        warms := by rw [adds _ rfl]; exact c.warms
        loops := by rw [adds _ (by simpa using loop)]; exact c.loops
        oneLoop := by rw [adds _ isLoop]; exact c.oneLoop
        loopExited := forall_mem_concat c.loopExited fun hr => absurd hr loopExited
        running := by rw [adds _ (by simpa using worker)]; exact c.running
        workers := by rw [adds _ isWorker]; exact c.workers
        workerExited := forall_mem_concat c.workerExited fun hr => absurd hr workerExited
        stages := forall_mem_concat c.stages fun n hr => by
          obtain rfl := stage n hr
          constructor <;> omega }

/-- The close has not begun at first. -/
theorem LedgerInit.closing {x : Ledger × List Stake} (init : LedgerInit x) : Closing x.1 x.2 := by
  have roles {st : Stake} (hst : st ∈ x.2) : st = { role := .loop false } ∨
      st = { role := .worker false } := by
    rw [init.stakes] at hst
    rcases List.mem_cons.mp hst with rfl | hst
    · exact .inl rfl
    · exact .inr (List.eq_of_mem_replicate hst)
  have count (p : Stake → Bool) : tally p x.2 = share (p { role := .loop false }) +
      (x.1.reaper.elim 0 Reaper.running) * share (p { role := .worker false }) := by
    rw [init.stakes]
    simp [tally, total, List.map_replicate, List.sum_replicate]
  refine ⟨?_, ?_, ?_, ?_, ?_, ?_, ?_, ?_, ?_, ?_, ?_, ?_⟩
  · simp [count, init.unlocked]
  · simp [init.live]
  · simp [count, init.closed, Role.closing]
  · simp [init.queueClosed]
  · simp [count, init.warms]
  · simp [count, init.loops]
  · simp [count, Role.isLoop]
  · intro st hst hr
    rcases roles hst with rfl | rfl <;> simp at hr
  · intro r hr
    simp [count, show x.1.reaper = some r from hr]
  · cases hr : x.1.reaper with
    | none => simp [count, hr, Role.isWorker]
    | some r =>
      have := (init.reaper r hr).2.2
      simp [count, hr, Role.isWorker]
      omega
  · intro st hst hr
    rcases roles hst with rfl | rfl <;> simp at hr
  · intro st hst n hr
    rcases roles hst with rfl | rfl <;> simp at hr

/-- INTERNAL: **the invariant of closing holds in every reachable state**. -/
theorem closing_of_reachable {x : Ledger × List Stake} (h : Reachable ledgerSystem x) :
    Closing x.1 x.2 := by
  refine h.invariant (P := fun x => Closing x.1 x.2) (fun x init => LedgerInit.closing init) ?_
  rintro _ _ - c (⟨hi, step⟩ | ⟨joins⟩)
  · exact c.act hi step
  · exact c.join joins

end ServerlessHarness.VmPool
