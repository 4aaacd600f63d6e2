import ServerlessHarness.Interface.VmPool.Observations

/-!
# Admission control

The number of VMs held against the budget rises only where `admitLocked` has just said that
one more fits, and then by one. So every count up to the present one was once checked
(`Budgeted`), in the wrapping arithmetic of the code, and `committedLocked` is at most the
budget in every state. The count itself is what the books say it is: the standbys, the VMs
that Execs hold, and the restores under way.
-/

set_option autoImplicit false

namespace ServerlessHarness.VmPool

open Library

/-! ## Wrapping arithmetic -/

theorem wrap64_add_wrap64 (a b : ℤ) : wrap64 (wrap64 a + b) = wrap64 (a + b) := by
  simp [wrap64]

theorem wrap64_wrap64_mul (a b : ℤ) : wrap64 (wrap64 a * b) = wrap64 (a * b) := by
  simp [wrap64]

theorem wrap64_wrap64_mul_add (a b : ℤ) : wrap64 (wrap64 a * b + b) = wrap64 ((a + 1) * b) := by
  rw [← wrap64_add_wrap64, wrap64_wrap64_mul, wrap64_add_wrap64, add_mul, one_mul]

theorem wrap64_le_self {z : ℤ} (h : 0 ≤ z) : wrap64 z ≤ z := by
  unfold wrap64
  rw [Int.bmod_def]
  split <;> omega

theorem wrap64_of_lt {z : ℤ} (h0 : 0 ≤ z) (h : z < 2 ^ 63) : wrap64 z = z := by
  unfold wrap64
  rw [Int.bmod_def]
  split <;> omega

theorem total_one {α : Type} (l : List α) : total (fun _ => (1 : ℤ)) l = l.length := by
  induction l with
  | nil => rfl
  | cons _ _ ih => simp [ih, add_comm]

/-! ## The ledger's count -/

section Count

variable {L L' : Ledger} {l : List Stake} {st st' : Stake} (b : Books L l) (hst : st ∈ l)
  (h : Effect L st L' st')

theorem Ledger.committed_eq_weigh (L : Ledger) :
    L.committed = weigh L.live L.acct (fun _ => 1) Ledger.vms := by
  simp [Ledger.committed, weigh]

include b in
/-- INTERNAL: **what is counted**: the standbys, the goroutines charged for a VM and the
goroutines warming one. -/
theorem Books.committed_eq :
    L.committed = L.standbys.length + total (Stake.charged fun _ => 1) l +
      total (Stake.warmed fun _ => 1) l := by
  have inFlight := b.inFlight fun _ => 1
  have warming := b.warming fun _ => 1
  have standbys : (L.standbys.length : ℤ) =
      total (fun e => ((L.acct e.2).ready.length : ℤ)) L.live := by
    simp only [← total_one, Ledger.standbys, total_flatMap]
  simp only [one_mul] at inFlight warming
  rw [standbys, ← inFlight, ← warming, ← total_add, ← total_add]
  rfl

include b in
theorem Books.committed_update (a : Account) {e : Key × Nat} (he : e ∈ L.live) :
    weigh L.live (Function.update L.acct e.2 a) (fun _ => 1) Ledger.vms =
      L.committed + (Ledger.vms a - Ledger.vms (L.acct e.2)) := by
  rw [b.weigh_update _ _ _ he, one_mul, L.committed_eq_weigh]

include b hst h

/-- INTERNAL: **an effect raises the count only when one more VM was admitted**, and then by
one. -/
theorem Books.committed_step :
    L'.committed ≤ L.committed ∨ L.Admits ∧ L'.committed = L.committed + 1 := by
  cases h with
  | startWarm live admits | startRefill live admits =>
    refine .inr ⟨admits, ?_⟩
    simp only [Ledger.committed_eq_weigh, Ledger.post, b.committed_update _ live, Ledger.vms]
    omega
  | openRun =>
    refine .inl (le_of_eq ?_)
    rw [Ledger.committed_eq_weigh, Ledger.committed_eq_weigh]
    exact b.weigh_openRun _ _ _ _ rfl
  | takeReady live ready =>
    refine .inl (le_of_eq ?_)
    simp only [Ledger.committed_eq_weigh, Ledger.post, b.committed_update _ live, Ledger.vms, ready,
      List.length_append, List.length_singleton]
    omega
  | takeStandbys live ready =>
    refine .inl ?_
    simp only [Ledger.committed_eq_weigh, Ledger.post, b.committed_update _ live, Ledger.vms, ready,
      List.length_append]
    omega
  | settleCold warm | settleFail warm | settleReady warm | settleClosed warm =>
    have live := (b.warm_live hst warm).1
    refine .inl ?_
    simp only [Ledger.committed_eq_weigh, Ledger.post, b.committed_update _ live, Ledger.vms,
      List.length_append, List.length_singleton]
    omega
  | discharge charge =>
    have live := (b.charge_live hst charge).1
    refine .inl ?_
    simp only [Ledger.committed_eq_weigh, Ledger.post, b.committed_update _ live, Ledger.vms]
    omega
  | takeGate | dropGate =>
    refine .inl (le_of_eq ?_)
    simp only [Ledger.committed_eq_weigh, Ledger.post]
    rw [weigh_update_same]
    rfl
  | dropRun tomb live inFlight warming ready | detachRun live inFlight warming ready =>
    have nonneg := b.counters_nonneg live
    refine .inl (le_of_eq ?_)
    simp only [Ledger.committed_eq_weigh]
    exact b.weigh_filter _ Ledger.vms live (by simp [Ledger.vms, ready]; omega)
  | close =>
    left
    unfold Ledger.committed
    apply total_le_total
    intro e _
    simp only [Ledger.close]
    split
    · simp [Ledger.vms]
    · exact le_refl _
  | _ => exact .inl (le_refl _)

end Count

/-- Every count up to the present one was admitted. -/
structure Budgeted (L : Ledger) : Prop where
  admitted : ∀ k : ℤ, 1 ≤ k → k ≤ L.committed →
    wrap64 (k * perVMBytes L.cfg) ≤ wrap64 (L.cfg.maxCommittedBytes - L.cfg.memoryReserveBytes)

theorem Ledger.Admits.next {L : Ledger} (h : L.Admits) :
    wrap64 ((L.committed + 1) * perVMBytes L.cfg) ≤
      wrap64 (L.cfg.maxCommittedBytes - L.cfg.memoryReserveBytes) := by
  unfold Ledger.Admits at h
  rwa [wrap64_add_wrap64, wrap64_wrap64_mul_add] at h

/-- INTERNAL: **every count was admitted, in every reachable state**. -/
theorem budgeted_of_reachable {x : Ledger × List Stake} (h : Reachable ledgerSystem x) :
    Budgeted x.1 := by
  refine h.invariant (P := fun x => Budgeted x.1) ?_ ?_
  · refine fun x init => ⟨fun k hk hle => ?_⟩
    have : x.1.committed = 0 := by simp [Ledger.committed, LedgerInit.live init]
    omega
  · rintro _ _ hr budgeted (⟨hi, step⟩ | ⟨joins⟩)
    · refine ⟨fun k hk hle => ?_⟩
      rw [step.map_cases.1]
      rcases (books_of_reachable hr).committed_step (List.mem_of_getElem? hi) step with
        hdown | ⟨admits, hup⟩
      · exact budgeted.admitted k hk (hle.trans hdown)
      · rcases lt_or_eq_of_le (hup ▸ hle) with hlt | rfl
        · exact budgeted.admitted k hk (Int.lt_add_one_iff.mp hlt)
        · exact admits.next
    · exact budgeted

/-! ## The pool's count -/

/-- The VMs in ready lists, held by Execs that have not started their teardown, and being
restored for an `Exec` or a replenishment. -/
def Sys.chargedVMs (s : Sys) : Nat :=
  s.pool.standbys.length + (s.threads.filterMap Thread.heldVM).length +
    (s.threads.filterMap Thread.restore).length

theorem committed_eq_chargedVMs {cfg : Config} {lc : Launcher} {s : Sys}
    (h : Reachable (poolSystem cfg lc) s) : s.pool.ledger.committed = s.chargedVMs := by
  rw [(books_of_pool h).committed_eq, total_map, total_map]
  simp only [fun t : Thread => t.charges.1, fun t : Thread => t.charges.2.1]
  rw [← total_filterMap, ← total_filterMap, total_one, total_one]
  simp only [Sys.chargedVMs, Nat.cast_add]
  rfl

theorem charged_nodup {cfg : Config} {lc : Launcher} {s : Sys}
    (h : Reachable (poolSystem cfg lc) s) :
    (s.pool.standbys ++ s.threads.filterMap Thread.heldVM ++
      (s.threads.filterMap Thread.restore).flatMap WarmPc.vms).Nodup := by
  rw [List.nodup_iff_count_le_one]
  intro v
  have hone : s.pool.hist.restored.count v ≤ 1 :=
    List.nodup_iff_count_le_one.mp (restored_nodup h) v
  have hheld := (held_perm_restored h).count_eq v
  have hthreads : ((s.threads.filterMap Thread.heldVM).count v : ℤ) +
      ((s.threads.filterMap Thread.restore).flatMap WarmPc.vms).count v ≤
        (s.threads.flatMap Thread.owned).count v := by
    rw [← total_unit, ← total_unit, ← total_unit, total_flatMap, total_flatMap, total_filterMap,
      total_filterMap, ← total_add]
    apply total_le_total
    intro t _
    have hsub := t.charges.2.2.count_le v
    rw [List.count_append] at hsub
    rw [← total_flatMap, total_unit, total_unit, total_unit]
    omega
  simp only [Sys.held, List.count_append] at hheld ⊢
  omega

theorem Budgeted.exact {L : Ledger} (budgeted : Budgeted L) (hpos : 0 < perVMBytes L.cfg)
    (hbudget : 0 ≤ L.cfg.maxCommittedBytes - L.cfg.memoryReserveBytes)
    (hroom : L.cfg.maxCommittedBytes - L.cfg.memoryReserveBytes + perVMBytes L.cfg < 2 ^ 63)
    (n : ℕ) (hn : n ≤ L.committed) :
    n * perVMBytes L.cfg ≤ L.cfg.maxCommittedBytes - L.cfg.memoryReserveBytes := by
  induction n with
  | zero => simpa using hbudget
  | succ n ih =>
    have hprev := ih (by push_cast at hn; omega)
    have hnext := budgeted.admitted (n + 1 : ℕ) (by push_cast; omega) hn
    have hexact : ((n + 1 : ℕ) : ℤ) * perVMBytes L.cfg =
        n * perVMBytes L.cfg + perVMBytes L.cfg := by rw [Nat.cast_succ, add_mul, one_mul]
    have hnonneg : 0 ≤ (n : ℤ) * perVMBytes L.cfg := mul_nonneg (Int.natCast_nonneg n) hpos.le
    rw [hexact] at hnext ⊢
    rwa [wrap64_of_lt (by omega) (by omega), wrap64_of_lt hbudget (by omega)] at hnext

/-- **Admission control holds, and counts every VM once.** In every state of every run of a
pool that was made from an accepted configuration, what `committedLocked` returns is at most
the budget; it is `PerVMBytes` times the number of VMs in ready lists, held by Execs before
their teardown, and being restored, in the wrapping product of `int64`; those VMs are
pairwise different; and the product is exact when the budget and one more VM are in the range
of `int64`.
SRCLINE: budget.go:40-88, pool.go:392-554, replenish.go:78-145, sweep.go:30-99 -/
theorem committedLocked_le_and_eq {cfg cfg' : Config} {lc : Launcher} {s : Sys}
    (hcfg : cfg.normalize = .ok cfg') (h : Reachable (poolSystem cfg lc) s) :
    s.pool.committedLocked ≤ cfg'.maxCommittedBytes - cfg'.memoryReserveBytes ∧
    s.pool.committedLocked = wrap64 (perVMBytes cfg' * s.chargedVMs) ∧
    (s.pool.standbys ++ s.threads.filterMap Thread.heldVM ++
      (s.threads.filterMap Thread.restore).flatMap WarmPc.vms).Nodup ∧
    (0 < perVMBytes cfg' →
      cfg'.maxCommittedBytes - cfg'.memoryReserveBytes + perVMBytes cfg' < 2 ^ 63 →
      s.pool.committedLocked = perVMBytes cfg' * s.chargedVMs) := by
  obtain rfl : s.pool.cfg = cfg' := by
    have := (frame_of_pool h).1
    rw [hcfg] at this
    exact (Except.ok.inj this).symm
  have budgeted : Budgeted s.pool.ledger :=
    budgeted_of_reachable ((pool_refines cfg lc).reachable h).1
  have count := committed_eq_chargedVMs h
  have hreserve := reserve_lt_of_normalize hcfg
  have value : s.pool.committedLocked = wrap64 (s.chargedVMs * perVMBytes s.pool.cfg) := by
    rw [← count, ← wrap64_wrap64_mul]
    rfl
  refine ⟨?_, ?_, ?_, ?_⟩
  · rw [value]
    rcases Nat.eq_zero_or_pos s.chargedVMs with hzero | hpos
    · rw [hzero]
      simp only [Nat.cast_zero, zero_mul]
      show (0 : ℤ) ≤ _
      omega
    · have checked := budgeted.admitted s.chargedVMs (by omega) (le_of_eq count.symm)
      exact checked.trans (wrap64_le_self (sub_nonneg.mpr hreserve.le))
  · rw [value, mul_comm]
  · exact charged_nodup h
  · intro hpos hroom
    have hle : s.chargedVMs * perVMBytes s.pool.cfg ≤
        s.pool.cfg.maxCommittedBytes - s.pool.cfg.memoryReserveBytes :=
      budgeted.exact hpos (sub_nonneg.mpr hreserve.le) hroom s.chargedVMs (le_of_eq count.symm)
    have hnonneg : 0 ≤ s.chargedVMs * perVMBytes s.pool.cfg :=
      mul_nonneg (Int.natCast_nonneg _) hpos.le
    rw [value, wrap64_of_lt hnonneg (by omega), mul_comm]

/-- An `Exec` that runs on its VM is counted. -/
theorem committedLocked_le_and_eq_running :
    ∃ s, Reachable (poolSystem (smallConfig 0) smallLauncher) s ∧ s.chargedVMs = 1 ∧
      s.pool.committedLocked = perVMBytes (smallConfig 0).withDefaults * 1 := by
  obtain ⟨s, hs, hP⟩ := exists_reachable_of_runSmall 0
    (.callExec "a" 0 :: List.replicate 12 (.run 1 .go)) (fun s => s.chargedVMs == 1)
    (by decide +kernel)
  have hcount : s.chargedVMs = 1 := by simpa using hP
  refine ⟨s, hs, hcount, ?_⟩
  have hnormal : (smallConfig 0).normalize = .ok (smallConfig 0).withDefaults := rfl
  have hexact := (committedLocked_le_and_eq hnormal hs).2.2.2
    (by decide +kernel) (by decide +kernel)
  rw [hexact, hcount]
  rfl

end ServerlessHarness.VmPool
