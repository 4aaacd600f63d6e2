import ServerlessHarness.Analysis.VmPool.Books

/-!
# Custody of the VMs

Conservation laws of the ledger, each stated for every weight `u` on VMs. Every VM that
was restored is in one place: a ready list, the hands of one goroutine, a queue, or the
calls of `Destroy` and `Reap` (`Custody.held`). Every such call has returned or is being
made by one goroutine (`Custody.returned`). What was given to an `Exec` has left the ready
lists and the batches for good (`Custody.given`).

The weight that is one on a single VM turns a sum into the number of its occurrences
(`total_unit`).
-/

set_option autoImplicit false

namespace ServerlessHarness.VmPool

open Library

/-- The weight of the VMs in a goroutine's hands, but for one it is destroying. -/
def Stake.holds (u : VM → ℤ) (st : Stake) : ℤ := total u st.mine + total u st.vms

/-- The weight of the standbys. -/
def Ledger.ready (L : Ledger) (u : VM → ℤ) : ℤ :=
  weigh L.live L.acct (fun _ => 1) fun a => total u a.ready

/-- The weight of the queued batches. -/
def Ledger.queued (L : Ledger) (u : VM → ℤ) : ℤ := total (fun b => total u b.vms) L.queue

/-- The weight of the reaper's queue. -/
def Ledger.reaping (L : Ledger) (u : VM → ℤ) : ℤ := L.reaper.elim 0 fun r => total u r.queue

/-- The weight of the calls of `Destroy` and `Reap` made so far. -/
def Ledger.called (L : Ledger) (u : VM → ℤ) : ℤ :=
  total u L.hist.destroyCalls + total u L.hist.reapCalls

/-- The weight of those that returned. -/
def Ledger.returned (L : Ledger) (u : VM → ℤ) : ℤ :=
  total u L.hist.destroyReturns + total u L.hist.reapReturns

/-- The conservation laws. -/
structure Custody (L : Ledger) (l : List Stake) : Prop where
  held : ∀ u, L.ready u + L.queued u + L.reaping u + total (Stake.holds u) l + L.called u =
    total u L.hist.restored
  returned : ∀ u, L.returned u + total (fun st => total u st.inDestroy) l = L.called u
  given : ∀ u, (∀ v, 0 ≤ u v) →
    total u L.hist.given + L.ready u + L.queued u + total (fun st => total u st.vms) l ≤
      total u L.hist.restored
  refs : L.hist.restored.map VM.ref = List.range L.hist.restored.length
  noReaper : L.reaper = none → L.hist.reapCalls = []
  resumed : ∀ v ∈ L.hist.resumed, v ∈ L.hist.restored

/-! ## One VM -/

/-- The weight that is one on `v` and zero elsewhere. -/
def unit (v : VM) : VM → ℤ := fun x => if x = v then 1 else 0

theorem total_unit (v : VM) (l : List VM) : total (unit v) l = l.count v := by
  induction l with
  | nil => rfl
  | cons x l ih =>
    rw [total_cons, ih, List.count_cons, unit]
    by_cases hx : x = v <;> simp [hx, add_comm]

theorem unit_nonneg (v x : VM) : 0 ≤ unit v x := by
  unfold unit
  split <;> simp

theorem Ledger.total_standbys (L : Ledger) (u : VM → ℤ) : total u L.standbys = L.ready u := by
  simp only [Ledger.standbys, Ledger.ready, weigh, one_mul, total_flatMap]

variable {L : Ledger} {l : List Stake} {st : Stake}

theorem held_perm
    (held : ∀ u, L.ready u + L.queued u + L.reaping u + total (Stake.holds u) l + L.called u =
      total u L.hist.restored) :
    (L.standbys ++ l.flatMap (fun st => st.mine ++ st.vms) ++ L.queue.flatMap ReclaimBatch.vms ++
      L.reaper.elim [] Reaper.queue ++ L.hist.destroyCalls ++ L.hist.reapCalls).Perm
      L.hist.restored := by
  rw [List.perm_iff_count]
  intro v
  have law := held (unit v)
  have hands : total (Stake.holds (unit v)) l =
      total (unit v) (l.flatMap fun st => st.mine ++ st.vms) := by
    rw [total_flatMap]
    exact total_congr fun st _ => (total_append _ _ _).symm
  have queued : L.queued (unit v) = total (unit v) (L.queue.flatMap ReclaimBatch.vms) :=
    (total_flatMap _ _ _).symm
  have reaping : L.reaping (unit v) = total (unit v) (L.reaper.elim [] Reaper.queue) := by
    unfold Ledger.reaping
    cases L.reaper <;> rfl
  rw [← L.total_standbys, hands, queued, reaping] at law
  simp only [Ledger.called, total_unit] at law
  simp only [List.count_append]
  omega

theorem restored_of_held
    (held : ∀ u, L.ready u + L.queued u + L.reaping u + total (Stake.holds u) l + L.called u =
      total u L.hist.restored) (hst : st ∈ l) {v : VM} (hv : v ∈ st.mine ++ st.vms) :
    v ∈ L.hist.restored := by
  have hands : v ∈ l.flatMap fun st => st.mine ++ st.vms := List.mem_flatMap.mpr ⟨st, hst, hv⟩
  refine (held_perm held).mem_iff.mp ?_
  simp only [List.mem_append]
  tauto

section Balance

variable {L L' : Ledger} {l : List Stake} {st st' : Stake} (b : Books L l) (hst : st ∈ l)
  (h : Effect L st L' st') (u : VM → ℤ)

theorem Ledger.ready_post_same {g : Nat} {a : Account} (ha : a.ready = (L.acct g).ready) :
    weigh L.live (Function.update L.acct g a) (fun _ => 1) (fun a => total u a.ready) = L.ready u :=
  weigh_update_same _ _ (by rw [ha])

theorem Ledger.ready_close (L : Ledger) : L.close.ready u = 0 := by
  have : L.close.ready u = total (fun _ => 0) L.live := by
    apply total_congr
    intro e he
    have hmem : e.2 ∈ L.live.map Prod.snd := List.mem_map_of_mem he
    simp [Ledger.close, if_pos hmem]
  simpa [total] using this

include b in
theorem Books.ready_update (a : Account) {e : Key × Nat} (he : e ∈ L.live) :
    weigh L.live (Function.update L.acct e.2 a) (fun _ => 1) (fun a => total u a.ready) =
      L.ready u + (total u a.ready - total u (L.acct e.2).ready) := by
  rw [b.weigh_update _ _ _ he, one_mul]
  rfl

include b hst h

/-- INTERNAL: **an effect moves VMs from one place to another**, and creates them only by a
restore. -/
theorem Books.held_balance :
    L'.ready u + L'.queued u + L'.reaping u + st'.holds u + L'.called u +
        total u L.hist.restored =
      L.ready u + L.queued u + L.reaping u + st.holds u + L.called u +
        total u L'.hist.restored := by
  have ok := b.stakes st hst
  cases h with
  | openRun =>
    rw [show (L.openRun _ _).ready u = L.ready u from b.weigh_openRun _ _ _ _ rfl]
    rfl
  | takeReady live ready idle =>
    simp only [Ledger.ready, Ledger.post, b.ready_update u _ live, ready, Stake.holds, idle.mine,
      idle.vms, total_append, total_cons, total_nil]
    simp only [Ledger.queued, Ledger.reaping, Ledger.called]
    omega
  | settleReady warm vms =>
    have live := (b.warm_live hst warm).1
    simp only [Ledger.ready, Ledger.post, b.ready_update u _ live, Stake.holds, vms, total_append,
      total_cons, total_nil]
    simp only [Ledger.queued, Ledger.reaping, Ledger.called]
    omega
  | takeStandbys live ready =>
    simp only [Ledger.ready, Ledger.post, b.ready_update u _ live, ready, Stake.holds, total_append]
    simp only [Ledger.queued, Ledger.reaping, Ledger.called]
    omega
  | settleCold warm vms =>
    simp only [Ledger.ready, Ledger.post, Ledger.ready_post_same, Stake.holds, vms,
      (ok.warm _ warm).1, total_cons, total_nil]
    simp only [Ledger.queued, Ledger.reaping, Ledger.called]
    omega
  | startWarm | startRefill | settleFail | settleClosed | takeGate | dropGate | discharge =>
    simp only [Ledger.ready, Ledger.post, Ledger.ready_post_same]
    rfl
  | dropRun tomb live _ _ ready | detachRun live _ _ ready =>
    simp only [Ledger.ready, b.weigh_filter _ (fun a => total u a.ready) live (by simp [ready])]
    rfl
  | close _ _ idle perm =>
    rw [L.ready_close, ← L.total_standbys, ← total_perm u perm]
    simp only [Stake.holds, idle.mine, idle.vms, total_nil]
    simp only [Ledger.queued, Ledger.reaping, Ledger.called, Ledger.close]
    omega
  | restore _ _ _ vms =>
    simp only [Ledger.ready, Ledger.queued, Ledger.reaping, Ledger.called, Stake.holds, vms,
      total_append, total_cons, total_nil]
    omega
  | callDestroy vms =>
    simp only [Ledger.ready, Ledger.queued, Ledger.reaping, Ledger.called, Stake.holds, vms,
      total_append, total_cons, total_nil]
    omega
  | callDestroyMine mine | callReap mine =>
    simp only [Ledger.ready, Ledger.queued, Ledger.reaping, Ledger.called, Stake.holds, mine,
      total_append, total_cons, total_nil]
    omega
  | submit mine _ reaper =>
    simp only [Ledger.ready, Ledger.queued, Ledger.reaping, Ledger.called, Stake.holds, mine,
      reaper, Option.elim, total_append, total_cons, total_nil]
    omega
  | workerTake _ _ reaper queue =>
    simp only [Ledger.ready, Ledger.queued, Ledger.reaping, Ledger.called, Stake.holds, reaper,
      queue, Option.elim, total_append, total_cons, total_nil]
    omega
  | workerExit _ _ reaper queue =>
    simp only [Ledger.ready, Ledger.queued, Ledger.reaping, Ledger.called, Stake.holds, reaper,
      Option.elim]
  | closeReaper =>
    cases hr : L.reaper <;>
      simp only [Ledger.ready, Ledger.queued, Ledger.reaping, Ledger.called, Stake.holds, hr,
        Option.map_some, Option.map_none, Option.elim]
  | enqueue =>
    simp only [Ledger.ready, Ledger.queued, Ledger.reaping, Ledger.called, Stake.holds,
      total_append, total_cons, total_nil]
    omega
  | dequeue idle _ queue =>
    simp only [Ledger.ready, Ledger.queued, Ledger.reaping, Ledger.called, Stake.holds, queue,
      idle.vms, total_cons, total_nil]
    omega
  | _ => rfl

omit b hst in
theorem Effect.returned_balance :
    L'.returned u + total u st'.inDestroy + L.called u =
      L.returned u + total u st.inDestroy + L'.called u := by
  cases h with
  | callDestroy _ inDestroy | callDestroyMine _ inDestroy | callReap _ inDestroy =>
    simp only [Ledger.returned, Ledger.called, inDestroy, total_append, total_cons, total_nil]
    omega
  | returnDestroy inDestroy | returnReap inDestroy =>
    simp only [Ledger.returned, Ledger.called, inDestroy, total_append, total_cons, total_nil]
    omega
  | workerTake idle =>
    simp only [Ledger.returned, Ledger.called, idle.inDestroy, total_append, total_cons, total_nil]
    omega
  | _ => rfl

theorem Books.given_balance (hu : ∀ v, 0 ≤ u v) :
    total u L'.hist.given + L'.ready u + L'.queued u + total u st'.vms +
        total u L.hist.restored ≤
      total u L.hist.given + L.ready u + L.queued u + total u st.vms +
        total u L'.hist.restored := by
  cases h with
  | openRun =>
    rw [show (L.openRun _ _).ready u = L.ready u from b.weigh_openRun _ _ _ _ rfl]
    exact le_refl _
  | takeReady live ready idle =>
    simp only [Ledger.ready, Ledger.post, b.ready_update u _ live, ready, idle.vms, total_append,
      total_cons, total_nil]
    simp only [Ledger.queued]
    omega
  | settleReady warm vms =>
    have live := (b.warm_live hst warm).1
    simp only [Ledger.ready, Ledger.post, b.ready_update u _ live, vms, total_append,
      total_cons, total_nil]
    simp only [Ledger.queued]
    omega
  | takeStandbys live ready =>
    simp only [Ledger.ready, Ledger.post, b.ready_update u _ live, ready, total_append]
    simp only [Ledger.queued]
    omega
  | settleCold warm vms =>
    simp only [Ledger.ready, Ledger.post, Ledger.ready_post_same, vms, total_append, total_cons,
      total_nil]
    simp only [Ledger.queued]
    omega
  | startWarm | startRefill | settleFail | settleClosed | takeGate | dropGate | discharge =>
    simp only [Ledger.ready, Ledger.post, Ledger.ready_post_same]
    exact le_refl _
  | dropRun tomb live _ _ ready | detachRun live _ _ ready =>
    simp only [Ledger.ready, b.weigh_filter _ (fun a => total u a.ready) live (by simp [ready])]
    exact le_refl _
  | close _ _ idle perm =>
    rw [L.ready_close, ← L.total_standbys, ← total_perm u perm]
    simp only [Ledger.queued, Ledger.close, idle.vms, total_nil]
    omega
  | restore _ _ _ vms =>
    simp only [Ledger.ready, Ledger.queued, vms, total_append, total_cons, total_nil]
    omega
  | @callDestroy vm rest vms =>
    have := hu vm
    simp only [Ledger.ready, Ledger.queued, vms, total_cons]
    omega
  | enqueue =>
    simp only [Ledger.ready, Ledger.queued, total_append, total_cons, total_nil]
    omega
  | dequeue idle _ queue =>
    simp only [Ledger.ready, Ledger.queued, queue, idle.vms, total_cons, total_nil]
    omega
  | _ => exact le_refl _

omit b hst in
theorem Effect.refs_step (refs : L.hist.restored.map VM.ref = List.range L.hist.restored.length) :
    L'.hist.restored.map VM.ref = List.range L'.hist.restored.length := by
  cases h with
  | restore _ ref => simp [refs, ref, List.range_succ]
  | _ => exact refs

omit b hst in
theorem Effect.noReaper_step (noReaper : L.reaper = none → L.hist.reapCalls = []) :
    L'.reaper = none → L'.hist.reapCalls = [] := by
  intro hnone
  cases h with
  | callReap _ _ _ reaper => simp_all
  | submit | workerTake | workerExit => simp at hnone
  | closeReaper => exact noReaper (by simpa using hnone)
  | _ => exact noReaper hnone

omit b hst in
theorem Effect.resumed_step (resumed : ∀ v ∈ L.hist.resumed, v ∈ L.hist.restored)
    (held : ∀ v ∈ st.mine ++ st.vms, v ∈ L.hist.restored) :
    ∀ v ∈ L'.hist.resumed, v ∈ L'.hist.restored := by
  intro v hv
  cases h with
  | @resume vm source =>
    rcases List.mem_append.mp hv with hv | hv
    · exact resumed v hv
    · obtain rfl : v = vm := by simpa using hv
      rcases source with ⟨mine, -⟩ | ⟨-, vms, -⟩
      · exact held v (by simp [mine])
      · exact held v (by simp [vms])
  | restore => exact List.mem_append_left _ (resumed v hv)
  | _ => exact resumed v hv

end Balance

/-! ## Custody over whole runs -/

theorem Custody.act {L' : Ledger} {i : Nat} {st' : Stake} (c : Custody L l) (b : Books L l)
    (hi : l[i]? = some st) (h : Effect L st L' st') : Custody L' (l.set i st') := by
  have hst : st ∈ l := List.mem_of_getElem? hi
  refine ⟨fun u => ?_, fun u => ?_, fun u hu => ?_, h.refs_step c.refs, h.noReaper_step c.noReaper,
    h.resumed_step c.resumed fun v hv => restored_of_held c.held hst hv⟩
  · have balance := b.held_balance hst h u
    have turn := total_set (Stake.holds u) st' hi
    have old := c.held u
    omega
  · have balance := h.returned_balance u
    have turn := total_set (fun st => total u st.inDestroy) st' hi
    have old := c.returned u
    omega
  · have balance := b.given_balance hst h u hu
    have turn := total_set (fun st => total u st.vms) st' hi
    have old := c.given u hu
    omega

theorem Custody.join (c : Custody L l) (h : Joins st) :
    Custody L (l ++ [st]) := by
  cases h with
  | intro =>
    exact { c with
      held := fun u => by simpa [Stake.holds] using c.held u
      returned := fun u => by simpa using c.returned u
      given := fun u hu => by simpa using c.given u hu }

theorem LedgerInit.custody {x : Ledger × List Stake} (init : LedgerInit x) : Custody x.1 x.2 where
  held u := by
    have hreaper : x.1.reaping u = 0 := by
      unfold Ledger.reaping
      cases hr : x.1.reaper with
      | none => rfl
      | some r => simp [(init.reaper r hr).1]
    rw [init.total_eq_zero (Stake.holds u) fun _ => rfl, hreaper]
    simp [Ledger.ready, Ledger.queued, Ledger.called, weigh, init.live, init.queue, init.hist]
  returned u := by
    rw [init.total_eq_zero (fun st => total u st.inDestroy) fun _ => rfl]
    simp [Ledger.called, Ledger.returned, init.hist]
  given u _ := by
    rw [init.total_eq_zero (fun st => total u st.vms) fun _ => rfl]
    simp [Ledger.ready, Ledger.queued, weigh, init.live, init.queue, init.hist]
  refs := by simp [init.hist]
  noReaper _ := by simp [init.hist]
  resumed := by simp [init.hist]

/-- INTERNAL: **custody in every reachable state**. -/
theorem custody_of_reachable {x : Ledger × List Stake} (h : Reachable ledgerSystem x) :
    Custody x.1 x.2 := by
  refine h.invariant (P := fun x => Custody x.1 x.2) (fun x init => LedgerInit.custody init) ?_
  rintro _ _ hr c (⟨hi, step⟩ | ⟨joins⟩)
  · exact c.act (books_of_reachable hr) hi step
  · exact c.join joins

section

variable {L : Ledger} {l : List Stake} (c : Custody L l)
include c

theorem Custody.restored_nodup : L.hist.restored.Nodup := by
  have : (L.hist.restored.map VM.ref).Nodup := by
    rw [c.refs]
    exact List.nodup_range
  exact this.of_map

theorem Custody.returned_perm :
    (L.hist.destroyReturns ++ L.hist.reapReturns ++ l.flatMap Stake.inDestroy).Perm
      (L.hist.destroyCalls ++ L.hist.reapCalls) := by
  rw [List.perm_iff_count]
  intro v
  have law := c.returned (unit v)
  rw [← total_flatMap] at law
  simp only [Ledger.called, Ledger.returned, total_unit] at law
  simp only [List.count_append]
  omega

theorem Custody.given_nodup : L.hist.given.Nodup := by
  rw [List.nodup_iff_count_le_one]
  intro v
  have once := List.nodup_iff_count_le_one.mp c.restored_nodup v
  have lists (l : List VM) : 0 ≤ total (unit v) l := total_nonneg fun x _ => unit_nonneg v x
  have law := c.given (unit v) (unit_nonneg v)
  have ready : 0 ≤ L.ready (unit v) := by
    rw [← L.total_standbys]
    exact lists _
  have queued : 0 ≤ L.queued (unit v) := total_nonneg fun b _ => lists b.vms
  have hands : 0 ≤ total (fun st : Stake => total (unit v) st.vms) l :=
    total_nonneg fun st _ => lists st.vms
  rw [total_unit, total_unit] at law
  omega

end

end ServerlessHarness.VmPool
