import ServerlessHarness.Analysis.VmPool.Books

/-!
# The exec gates

A run's gate is full exactly when one goroutine holds it. Under a launcher that serializes
the Execs of a run, a VM that was resumed for a run stays in the hands of the goroutine that
holds the run's gate until its teardown is complete, because the gate is opened by the last
deferred call of `ExecPhased`, after the teardown.
-/

set_option autoImplicit false

namespace ServerlessHarness.VmPool

open Library

/-- The teardown of a VM is complete: `Destroy` returned, the barrier of a split teardown
succeeded, or `Reap` returned. -/
def History.TornDown (h : History) (v : VM) : Prop :=
  v ∈ h.destroyReturns ∨ v ∈ h.barriers ∨ v ∈ h.reapReturns

/-- The invariant of the gates. -/
structure Gates (L : Ledger) (l : List Stake) : Prop where
  held : ∀ g, tally (fun st => st.gate = some g) l = share (L.acct g).gate
  fresh : ∀ g, L.nextRun ≤ g → (L.acct g).gate = false
  resumed : ∀ v ∈ L.hist.resumed, v.run = none ∨ L.hist.TornDown v ∨
    ∃ st ∈ l, v ∈ st.mine ++ st.inDestroy ∧ (L.serialize = true → st.gate = v.run)

variable {L : Ledger} {l : List Stake} {v : VM} {st : Stake}

section Steps

variable {L L' : Ledger} {l : List Stake} {st st' : Stake} (h : Effect L st L' st')
include h

/-- INTERNAL: **a gate is filled by the goroutine that takes it and emptied by the one that
holds it**. -/
theorem Effect.gate_balance (fresh : ∀ g, L.nextRun ≤ g → (L.acct g).gate = false)
    (held : ∀ g, st.gate = some g → (L.acct g).gate = true) (g : Nat) :
    share (L'.acct g).gate + share (decide (st.gate = some g)) =
      share (L.acct g).gate + share (decide (st'.gate = some g)) := by
  have written (x : Nat) (a : Account) (ha : a.gate = (L.acct x).gate) :
      ((L.post x a).acct g).gate = (L.acct g).gate := Ledger.post_same Account.gate L ha g
  cases h with
  | openRun =>
    rw [show ((L.openRun _ _).acct g).gate = (L.acct g).gate from
      written L.nextRun ⟨_, [], 0, 0, false⟩ (fresh _ (le_refl _)).symm]
  | takeReady | startWarm | startRefill | settleCold | settleFail | settleReady | settleClosed
  | discharge | takeStandbys =>
    rw [written]
    rfl
  | @takeGate e charge gate free =>
    by_cases hg : g = e.2
    · subst hg
      simp [Ledger.post, gate, free]
    · simp [Ledger.post, Function.update_of_ne hg, gate, Ne.symm hg]
  | @dropGate x gate =>
    by_cases hg : g = x
    · subst hg
      simp [Ledger.post, gate, held g gate]
    · simp [Ledger.post, Function.update_of_ne hg, gate, Ne.symm hg]
  | close =>
    have : (L.close.acct g).gate = (L.acct g).gate := by
      simp only [Ledger.close]
      split <;> rfl
    rw [this]
  | _ => rfl

theorem Effect.gate_fresh (fresh : ∀ g, L.nextRun ≤ g → (L.acct g).gate = false)
    (charged : ∀ e, st.charge = some e → e.2 < L.nextRun) :
    ∀ g, L'.nextRun ≤ g → (L'.acct g).gate = false := by
  intro g hg
  have written (hg : L.nextRun ≤ g) (x : Nat) (a : Account) (ha : a.gate = (L.acct x).gate) :
      ((L.post x a).acct g).gate = false :=
    (Ledger.post_same Account.gate L ha g).trans (fresh g hg)
  cases h with
  | openRun =>
    have hlt : L.nextRun + 1 ≤ g := hg
    simpa [Ledger.openRun, Function.update_of_ne (by omega : g ≠ L.nextRun)] using
      fresh g (by omega)
  | takeReady | startWarm | startRefill | settleCold | settleFail | settleReady | settleClosed
  | discharge | takeStandbys =>
    refine written hg _ _ ?_
    rfl
  | @takeGate e charge =>
    have hlt := charged e charge
    have hg : L.nextRun ≤ g := hg
    simpa [Ledger.post, Function.update_of_ne (by omega : g ≠ e.2)] using fresh g hg
  | @dropGate x =>
    by_cases hx : g = x
    · simp [Ledger.post, hx]
    · simpa [Ledger.post, Function.update_of_ne hx] using fresh g hg
  | close =>
    have : (L.close.acct g).gate = (L.acct g).gate := by
      simp only [Ledger.close]
      split <;> rfl
    rw [this]
    exact fresh g hg
  | _ => exact fresh g hg

theorem Effect.tornDown_mono (torn : L.hist.TornDown v) : L'.hist.TornDown v := by
  unfold History.TornDown at *
  cases h with
  | returnDestroy | barrier | returnReap =>
    simp only [List.mem_append]
    tauto
  | _ => exact torn

theorem Effect.resumed_kept (ok : st.Ok L) (hrun : v.run ≠ none)
    (hv : v ∈ st.mine ++ st.inDestroy) (gate : L.serialize = true → st.gate = v.run) :
    L'.hist.TornDown v ∨
      v ∈ st'.mine ++ st'.inDestroy ∧ (L'.serialize = true → st'.gate = v.run) := by
  cases h with
  | @returnDestroy vm inDestroy =>
    rcases List.mem_append.mp hv with hv | hv
    · exact .inr ⟨by simp [hv], gate⟩
    · obtain rfl : v = vm := by simpa [inDestroy] using hv
      exact .inl (.inl (by simp))
  | @returnReap vm inDestroy =>
    rcases List.mem_append.mp hv with hv | hv
    · exact .inr ⟨by simp [hv], gate⟩
    · obtain rfl : v = vm := by simpa [inDestroy] using hv
      exact .inl (.inr (.inr (by simp)))
  | submit mine _ _ _ barrier =>
    rcases List.mem_append.mp hv with hv | hv
    · refine .inl (.inr (.inl ?_))
      obtain rfl : v = _ := by simpa [mine] using hv
      exact barrier
    · exact .inr ⟨by simp [hv], gate⟩
  | callDestroyMine mine inDestroy | callReap mine inDestroy =>
    refine .inr ⟨?_, gate⟩
    simpa [mine, inDestroy] using hv
  | callDestroy vms inDestroy =>
    refine .inr ⟨?_, gate⟩
    simp only [inDestroy, List.append_nil] at hv
    simp [hv]
  | dropGate _ mine inDestroy => simp [mine, inDestroy] at hv
  | @takeGate e charge hnone =>
    refine .inr ⟨hv, fun hserialize => ?_⟩
    exact absurd ((gate hserialize).symm.trans hnone) hrun
  | takeReady _ _ idle | workerTake idle => simp [idle.mine, idle.inDestroy] at hv
  | settleCold warm =>
    obtain ⟨mine, inDestroy, -⟩ := ok.warm _ warm
    simp [mine, inDestroy] at hv
  | _ => exact .inr ⟨hv, gate⟩

theorem Effect.resumed_new (ok : st.Ok L) (hv : v ∈ L'.hist.resumed) (hnew : v ∉ L.hist.resumed) :
    v.run = none ∨
      v ∈ st'.mine ++ st'.inDestroy ∧ (L'.serialize = true → st'.gate = v.run) := by
  cases h with
  | @resume vm held =>
    obtain rfl : v = vm := by
      rcases List.mem_append.mp hv with hv | hv
      · exact absurd hv hnew
      · simpa using hv
    rcases held with ⟨mine, -, gate⟩ | ⟨-, -, hrun⟩
    · refine .inr ⟨by simp [mine], fun hserialize => ?_⟩
      obtain ⟨g, hg⟩ := Option.isSome_iff_exists.mp (gate hserialize)
      rw [hg, (ok.gate g hg).2.2.2 v (by simp [mine])]
    · exact .inl hrun
  | _ => exact absurd hv hnew

end Steps

/-! ## The gates over whole runs -/

theorem Gates.full (c : Gates L l) (hst : st ∈ l) {g : Nat} (hg : st.gate = some g) :
    (L.acct g).gate = true := by
  have hpos := tally_pos (p := fun st : Stake => decide (st.gate = some g)) hst (by simp [hg])
  rw [c.held g] at hpos
  cases hc : (L.acct g).gate with
  | true => rfl
  | false => simp [hc] at hpos

/-- One effect keeps the gates. -/
theorem Gates.act {L' : Ledger} {i : Nat} {st' : Stake} (c : Gates L l) (b : Books L l)
    (hi : l[i]? = some st) (h : Effect L st L' st') : Gates L' (l.set i st') := by
  have hst : st ∈ l := List.mem_of_getElem? hi
  have ok := b.stakes st hst
  have hlen : i < l.length := (List.getElem?_eq_some_iff.mp hi).1
  have mem' : st' ∈ l.set i st' := List.mem_iff_getElem?.mpr ⟨i, by simp [hlen]⟩
  refine ⟨fun g => ?_, ?_, fun v hv => ?_⟩
  · have balance := h.gate_balance c.fresh (fun g hg => c.full hst hg) g
    have turn := tally_set (fun st : Stake => decide (st.gate = some g)) st' hi
    have old := c.held g
    omega
  · exact h.gate_fresh c.fresh fun e he => b.fresh e (b.charge_live hst he).1
  · by_cases hrun : v.run = none
    · exact .inl hrun
    by_cases hold : v ∈ L.hist.resumed
    · rcases c.resumed v hold with hnone | torn | ⟨x, hx, hvx, gate⟩
      · exact absurd hnone hrun
      · exact .inr (.inl (h.tornDown_mono torn))
      · -- the goroutine that has the VM is the one that moved, or another one
        obtain ⟨j, hj⟩ := List.mem_iff_getElem?.mp hx
        by_cases hij : i = j
        · subst hij
          obtain rfl : x = st := Option.some.inj (hj.symm.trans hi)
          rcases h.resumed_kept ok hrun hvx gate with torn | ⟨hv', gate'⟩
          · exact .inr (.inl torn)
          · exact .inr (.inr ⟨st', mem', hv', gate'⟩)
        · have hserialize : L'.serialize = L.serialize := by cases h <;> rfl
          refine .inr (.inr ⟨x, ?_, hvx, hserialize ▸ gate⟩)
          exact List.mem_iff_getElem?.mpr ⟨j, by rw [List.getElem?_set_ne hij, hj]⟩
    · rcases h.resumed_new ok hv hold with hnone | ⟨hv', gate'⟩
      · exact absurd hnone hrun
      · exact .inr (.inr ⟨st', mem', hv', gate'⟩)

theorem Gates.join (c : Gates L l) (h : Joins st) :
    Gates L (l ++ [st]) := by
  cases h with
  | intro =>
    refine ⟨fun g => ?_, c.fresh, fun v hv => ?_⟩
    · rw [tally_append, ← c.held g]
      simp [tally]
    · rcases c.resumed v hv with hnone | torn | ⟨x, hx, hvx⟩
      · exact .inl hnone
      · exact .inr (.inl torn)
      · exact .inr (.inr ⟨x, List.mem_append_left _ hx, hvx⟩)

theorem LedgerInit.gates {x : Ledger × List Stake} (init : LedgerInit x) : Gates x.1 x.2 where
  held g := by
    rw [(init.accounts g).1]
    exact init.total_eq_zero _ fun _ => rfl
  fresh g _ := (init.accounts g).1
  resumed := by simp [init.hist]

/-- INTERNAL: **the invariant of the gates holds in every reachable state**. -/
theorem gates_of_reachable {x : Ledger × List Stake} (h : Reachable ledgerSystem x) :
    Gates x.1 x.2 := by
  refine h.invariant (P := fun x => Gates x.1 x.2) (fun x init => LedgerInit.gates init) ?_
  rintro _ _ hr c (⟨hi, step⟩ | ⟨joins⟩)
  · exact c.act (books_of_reachable hr) hi step
  · exact c.join joins

/-- INTERNAL: **at most one resumed VM of a run is not torn down**, when Execs are
serialized. -/
theorem Gates.resumed_unique (c : Gates L l) (b : Books L l) (serialize : L.serialize = true)
    {w : VM} (hv : v ∈ L.hist.resumed) (hw : w ∈ L.hist.resumed) (torn : ¬ L.hist.TornDown v)
    (torn' : ¬ L.hist.TornDown w) (hrun : v.run ≠ none) (same : v.run = w.run) : v = w := by
  obtain ⟨st, hst, hvst, gate⟩ : ∃ st ∈ l, v ∈ st.mine ++ st.inDestroy ∧ st.gate = v.run := by
    rcases c.resumed v hv with h | h | ⟨st, hst, hvst, gate⟩
    · exact absurd h hrun
    · exact absurd h torn
    · exact ⟨st, hst, hvst, gate serialize⟩
  obtain ⟨st', hst', hwst, gate'⟩ : ∃ st ∈ l, w ∈ st.mine ++ st.inDestroy ∧ st.gate = v.run := by
    rcases c.resumed w hw with h | h | ⟨st, hst, hwst, gate⟩
    · exact absurd h (same ▸ hrun)
    · exact absurd h torn'
    · exact ⟨st, hst, hwst, same ▸ gate serialize⟩
  obtain ⟨g, hg⟩ := Option.ne_none_iff_exists'.mp hrun
  rw [hg] at gate gate'
  have one : tally (fun st : Stake => decide (st.gate = some g)) l ≤ 1 := by
    rw [c.held g]
    cases (L.acct g).gate <;> simp
  obtain rfl : st = st' := eq_of_tally_le_one one hst hst' (by simp [gate]) (by simp [gate'])
  have hlen := ((b.stakes st hst).gate g gate).2.2.1
  exact eq_of_length_le_one hlen hvst hwst

end ServerlessHarness.VmPool
