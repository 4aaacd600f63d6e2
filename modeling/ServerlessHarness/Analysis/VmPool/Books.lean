import Mathlib.Tactic.LinearCombination
import ServerlessHarness.Analysis.VmPool.Names
import ServerlessHarness.Interface.VmPool.Ledger

/-!
# The books balance

The invariant of the ledger that every other result rests on. The map's keys and
references are unique and name directories under the root; each run's `inFlight` is the
number of goroutines charged to it, each run's `warming` the number of goroutines that
started one and have not settled it; a standby was restored for the run that holds it; and
what a goroutine answers for has one of a few shapes (`Stake.Ok`).

The two charge equations are stated for every weight `w` on the entries of the map: the
weight that is one on a single entry gives the counter of that entry, the constant weight
gives the totals. In particular an entry that some goroutine is charged to is in the map,
so a run is dropped only when no goroutine answers for it.
-/

set_option autoImplicit false

namespace ServerlessHarness.VmPool

open Library

/-- A goroutine's share of a run's `inFlight`, weighted. -/
def Stake.charged (w : Key × Nat → ℤ) (st : Stake) : ℤ := st.charge.elim 0 w

/-- A goroutine's share of a run's `warming`, weighted. -/
def Stake.warmed (w : Key × Nat → ℤ) (st : Stake) : ℤ := st.warm.elim 0 fun x => w x.entry

variable {e : Key × Nat} {st : Stake} {L L' : Ledger} {x : Ledger × List Stake} {g : Nat}

theorem Ledger.post_same {β : Type} (f : Account → β) (L : Ledger) {a : Account}
    (h : f a = f (L.acct g)) (x : Nat) : f ((L.post g a).acct x) = f (L.acct x) := by
  by_cases hx : x = g
  · subst hx
    simpa [Ledger.post] using h
  · simp [Ledger.post, Function.update_of_ne hx]

/-- The shapes of what a goroutine answers for. -/
structure Stake.Ok (L : Ledger) (st : Stake) : Prop where
  charge : ∀ e, st.charge = some e → (∃ v, st.mine = [v] ∧ v.run = some e.2) ∧
    ∀ g, st.gate = some g → g = e.2
  warm : ∀ w, st.warm = some w → st.mine = [] ∧ st.inDestroy = [] ∧ st.gate = none ∧
    st.charge = none ∧ st.dirs = [] ∧ (st.role = .exec ∨ st.role = .replenish) ∧
    w.dir = (L.acct w.entry.2).dir ∧ ∀ v ∈ st.vms, v.run = some w.entry.2
  mine : st.mine ≠ [] → st.role = .exec ∧ st.vms = [] ∧ st.inDestroy = [] ∧ st.mine.length = 1
  gate : ∀ g, st.gate = some g → st.role = .exec ∧ st.vms = [] ∧
    (st.mine ++ st.inDestroy).length ≤ 1 ∧ ∀ v ∈ st.mine ++ st.inDestroy, v.run = some g
  refill : st.role = .replenish → st.registered = false →
    st.warm = none ∧ st.vms = [] ∧ st.inDestroy = []
  exited : st.role = .loop true ∨ st.role = .worker true → st.Idle
  closer : ∀ n, st.role = .closer n → n = 0 ∨ 3 ≤ n → st.vms = [] ∧ st.inDestroy = []
  dirs : ∀ d ∈ st.dirs, IsTombstone L.cfg d ∨ st.role = .probe ∧ d = probeDir L.cfg

/-- The invariant of the books. -/
structure Books (L : Ledger) (l : List Stake) : Prop where
  keys : (L.live.map Prod.fst).Nodup
  refs : (L.live.map Prod.snd).Nodup
  fresh : ∀ e ∈ L.live, e.2 < L.nextRun
  names : ∀ e ∈ L.live, validKey e.1 = true ∧ (L.acct e.2).dir = (workspaceRoot L.cfg).join e.1
  inFlight : ∀ w : Key × Nat → ℤ,
    total (fun e => w e * (L.acct e.2).inFlight) L.live = total (Stake.charged w) l
  warming : ∀ w : Key × Nat → ℤ,
    total (fun e => w e * (L.acct e.2).warming) L.live = total (Stake.warmed w) l
  standbys : ∀ g, ∀ v ∈ (L.acct g).ready, v.run = some g
  dropped : ∀ g, g ∉ L.live.map Prod.snd → (L.acct g).ready = []
  queueDirs : ∀ b ∈ L.queue, ∀ d ∈ b.dirs, IsTombstone L.cfg d
  stakes : ∀ st ∈ l, st.Ok L

/-! ## Reading one entry off the charge equations -/

/-- The weight that is one on `e` and zero elsewhere. -/
def only (e : Key × Nat) : Key × Nat → ℤ := fun x => if x = e then 1 else 0

theorem total_only {f : Key × Nat → ℤ} {l : List (Key × Nat)} (hl : (l.map Prod.fst).Nodup)
    (e : Key × Nat) : total (fun x => only e x * f x) l = if e ∈ l then f e else 0 := by
  induction l with
  | nil => simp
  | cons x l ih =>
    simp only [List.map_cons, List.nodup_cons] at hl
    rw [total_cons, ih hl.2]
    by_cases hx : x = e
    · subst hx
      have hnot : x ∉ l := fun hmem => hl.1 (List.mem_map_of_mem hmem)
      simp [only, hnot]
    · simp [only, hx, Ne.symm hx]

section Reading

variable {L : Ledger} {l : List Stake} (b : Books L l)
include b

theorem Books.inFlight_eq (he : e ∈ L.live) :
    (L.acct e.2).inFlight = total (Stake.charged (only e)) l := by
  have h := b.inFlight (only e)
  rwa [total_only b.keys (f := fun x => (L.acct x.2).inFlight), if_pos he] at h

theorem Books.warming_eq (he : e ∈ L.live) :
    (L.acct e.2).warming = total (Stake.warmed (only e)) l := by
  have h := b.warming (only e)
  rwa [total_only b.keys (f := fun x => (L.acct x.2).warming), if_pos he] at h

omit b in
theorem charged_only_nonneg (e : Key × Nat) (st : Stake) : 0 ≤ Stake.charged (only e) st := by
  unfold Stake.charged only
  cases st.charge with
  | none => simp
  | some x =>
    simp only [Option.elim_some]
    split <;> simp

omit b in
theorem warmed_only_nonneg (e : Key × Nat) (st : Stake) : 0 ≤ Stake.warmed (only e) st := by
  unfold Stake.warmed only
  cases st.warm with
  | none => simp
  | some x =>
    simp only [Option.elim_some]
    split <;> simp

theorem Books.counters_nonneg (he : e ∈ L.live) :
    0 ≤ (L.acct e.2).inFlight ∧ 0 ≤ (L.acct e.2).warming := by
  rw [b.inFlight_eq he, b.warming_eq he]
  exact ⟨total_nonneg fun st _ => charged_only_nonneg e st,
    total_nonneg fun st _ => warmed_only_nonneg e st⟩

theorem Books.charge_live (hst : st ∈ l) (hc : st.charge = some e) :
    e ∈ L.live ∧ 1 ≤ (L.acct e.2).inFlight := by
  have h := b.inFlight (only e)
  rw [total_only b.keys (f := fun x => (L.acct x.2).inFlight)] at h
  have hle := le_total (charged_only_nonneg e) hst
  have hone : Stake.charged (only e) st = 1 := by simp [Stake.charged, only, hc]
  by_cases he : e ∈ L.live
  · rw [if_pos he] at h
    exact ⟨he, by omega⟩
  · rw [if_neg he] at h
    omega

theorem Books.warm_live (hst : st ∈ l) {w : Warming} (hw : st.warm = some w) :
    w.entry ∈ L.live ∧ 1 ≤ (L.acct w.entry.2).warming := by
  have h := b.warming (only w.entry)
  rw [total_only b.keys (f := fun x => (L.acct x.2).warming)] at h
  have hle := le_total (warmed_only_nonneg w.entry) hst
  have hone : Stake.warmed (only w.entry) st = 1 := by simp [Stake.warmed, only, hw]
  by_cases he : w.entry ∈ L.live
  · rw [if_pos he] at h
    exact ⟨he, by omega⟩
  · rw [if_neg he] at h
    omega

theorem Books.entry_eq {e' : Key × Nat} (he : e ∈ L.live) (he' : e' ∈ L.live) (h : e.2 = e'.2) :
    e = e' :=
  List.inj_on_of_nodup_map b.refs he he' h

theorem Books.entry_eq_of_key {e' : Key × Nat} (he : e ∈ L.live) (he' : e' ∈ L.live)
    (h : e.1 = e'.1) : e = e' :=
  List.inj_on_of_nodup_map b.keys he he' h

end Reading

/-! ## What an effect does to the goroutine that has it -/

section Shapes

variable {L L' : Ledger} {st st' : Stake} (ok : st.Ok L) (h : Effect L st L' st')
include ok h

theorem Stake.Ok.charge_step (standbys : ∀ g, ∀ v ∈ (L.acct g).ready, v.run = some g) :
    ∀ e, st'.charge = some e → (∃ v, st'.mine = [v] ∧ v.run = some e.2) ∧
      ∀ g, st'.gate = some g → g = e.2 := by
  intro e he
  cases h with
  | @takeReady e' r vm _ ready idle =>
    obtain rfl : e' = e := Option.some.inj he
    have hrun : vm.run = some e'.2 := standbys e'.2 vm (by simp [ready])
    exact ⟨⟨vm, rfl, hrun⟩, fun g hg => by simp [idle.gate] at hg⟩
  | @settleCold w vm warm vms =>
    obtain ⟨-, -, gate, -, -, -, -, hrun⟩ := ok.warm w warm
    obtain rfl : w.entry = e := Option.some.inj he
    exact ⟨⟨vm, rfl, hrun vm (by simp [vms])⟩, fun g hg => by simp [gate] at hg⟩
  | @takeGate e' charge =>
    obtain rfl : e' = e := Option.some.inj (charge.symm.trans he)
    exact ⟨(ok.charge e' charge).1, fun g hg => (Option.some.inj hg).symm⟩
  | dropGate => exact ⟨(ok.charge e he).1, fun g hg => by simp at hg⟩
  | discharge => simp at he
  | callDestroyMine _ _ charge | callReap _ _ charge | submit _ charge => simp [charge] at he
  | _ => exact ok.charge e he

theorem Stake.Ok.warm_step :
    ∀ w, st'.warm = some w → st'.mine = [] ∧ st'.inDestroy = [] ∧ st'.gate = none ∧
      st'.charge = none ∧ st'.dirs = [] ∧ (st'.role = .exec ∨ st'.role = .replenish) ∧
      w.dir = (L.acct w.entry.2).dir ∧ ∀ v ∈ st'.vms, v.run = some w.entry.2 := by
  intro w hw
  cases h with
  | startWarm _ _ idle role =>
    obtain rfl := Option.some.inj hw
    exact ⟨idle.mine, idle.inDestroy, idle.gate, idle.charge, idle.dirs, .inl role, rfl,
      by simp [idle.vms]⟩
  | startRefill _ _ idle role =>
    obtain rfl := Option.some.inj hw
    exact ⟨idle.mine, idle.inDestroy, idle.gate, idle.charge, idle.dirs, .inr role, rfl,
      by simp [idle.vms]⟩
  | @restore vm d uses =>
    obtain ⟨mine, inDestroy, gate, charge, dirs, role, dir, -⟩ := ok.warm w hw
    refine ⟨mine, inDestroy, gate, charge, dirs, role, dir, ?_⟩
    rcases uses with ⟨w', hw', -, hrun⟩ | ⟨-, hnone, -⟩
    · obtain rfl : w = w' := Option.some.inj (hw.symm.trans hw')
      simpa using hrun
    · simp [hnone] at hw
  | settleCold | settleFail | settleReady | settleClosed => simp at hw
  | takeReady _ _ idle | workerTake idle | workerExit idle | dequeue idle | loopExit idle
  | close _ _ idle => simp [idle.warm] at hw
  | takeStandbys _ _ col | detachRun _ _ _ _ _ col | enqueue _ col => simp [col.warm] at hw
  | callDestroy _ _ warm => simp [warm] at hw
  -- the other effects are not open to a goroutine that is warming a VM
  | _ =>
    have clause := ok.warm w hw
    simp_all

theorem Stake.Ok.mine_step : st'.mine ≠ [] →
    st'.role = .exec ∧ st'.vms = [] ∧ st'.inDestroy = [] ∧ st'.mine.length = 1 := by
  intro hm
  cases h with
  | takeReady _ _ idle role => exact ⟨role, idle.vms, idle.inDestroy, rfl⟩
  | settleCold warm _ role => exact ⟨role, rfl, (ok.warm _ warm).2.1, rfl⟩
  | restore uses =>
    obtain ⟨role, -, -, -⟩ := ok.mine hm
    rcases uses with ⟨w, hw, -⟩ | ⟨hprobe, -⟩
    · exact absurd (ok.warm w hw).1 hm
    · simp [role] at hprobe
  | callDestroyMine | callReap | submit => simp at hm
  | workerTake idle | dequeue idle | close _ _ idle => exact absurd idle.mine hm
  | takeStandbys _ _ col | enqueue _ col => exact absurd col.mine hm
  | _ =>
    have clause := ok.mine hm
    simp_all

theorem Stake.Ok.gate_step : ∀ g, st'.gate = some g → st'.role = .exec ∧ st'.vms = [] ∧
    (st'.mine ++ st'.inDestroy).length ≤ 1 ∧ ∀ v ∈ st'.mine ++ st'.inDestroy, v.run = some g := by
  intro g hg
  cases h with
  | takeReady _ _ idle | workerTake idle | workerExit idle | dequeue idle | loopExit idle
  | close _ _ idle => simp [idle.gate] at hg
  | takeStandbys _ _ col | enqueue _ col => simp [col.gate] at hg
  | settleCold warm | settleReady warm => simp [(ok.warm _ warm).2.2.1] at hg
  | restore uses =>
    rcases uses with ⟨w, hw, -⟩ | ⟨probe, -⟩
    · simp [(ok.warm w hw).2.2.1] at hg
    · simp [(ok.gate g hg).1] at probe
  | @takeGate e charge =>
    obtain ⟨⟨v, mine, run⟩, -⟩ := ok.charge e charge
    obtain ⟨role, vms, inDestroy, -⟩ := ok.mine (by simp [mine])
    obtain rfl : e.2 = g := Option.some.inj hg
    refine ⟨role, vms, ?_, ?_⟩ <;> simp [mine, inDestroy, run]
  | dropGate => simp at hg
  | callDestroy vms => simp [(ok.gate g hg).2.1] at vms
  | callDestroyMine mine inDestroy | callReap mine inDestroy =>
    obtain ⟨role, vms, -, run⟩ := ok.gate g hg
    refine ⟨role, vms, by simp, ?_⟩
    simpa [mine, inDestroy] using run
  | returnDestroy inDestroy | returnReap inDestroy =>
    obtain ⟨role, vms, len, run⟩ := ok.gate g hg
    simp only [inDestroy, List.length_append, List.length_singleton] at len
    refine ⟨role, vms, by simp; omega, fun v hv => run v ?_⟩
    simp at hv
    simp [hv]
  | submit mine =>
    obtain ⟨role, vms, len, run⟩ := ok.gate g hg
    simp only [mine, List.length_append, List.length_singleton] at len
    refine ⟨role, vms, by simp; omega, fun v hv => run v ?_⟩
    simp at hv
    simp [hv]
  | _ =>
    have clause := ok.gate g hg
    simp_all

theorem Stake.Ok.refill_step : st'.role = .replenish → st'.registered = false →
    st'.warm = none ∧ st'.vms = [] ∧ st'.inDestroy = [] := by
  intro hr hreg
  cases h with
  | startRefill => simp at hreg
  | restore uses =>
    obtain ⟨nowarm, -, -⟩ := ok.refill hr hreg
    rcases uses with ⟨w, hw, -⟩ | ⟨probe, -⟩
    · simp [nowarm] at hw
    · exact absurd (hr.symm.trans probe) (by simp)
  | unregister _ warm vms inDestroy => exact ⟨warm, vms, inDestroy⟩
  | callDestroyMine mine | callReap mine => simp [(ok.mine (by simp [mine])).1] at hr
  | takeStandbys _ _ col | enqueue _ col =>
    rcases col.role with role | role | role <;> simp [role] at hr
  | workerExit | loopExit | close | passWarms | passVictims | closeQueue | passLoop | closeReaper
  | passReaper => simp at hr
  | _ =>
    have clause := ok.refill hr hreg
    simp_all

theorem Stake.Ok.exited_step :
    st'.role = .loop true ∨ st'.role = .worker true → st'.Idle := by
  intro hr
  cases h with
  | workerExit idle | loopExit idle => exact { idle with }
  | lock | unlock => exact { ok.exited hr with }
  | restore uses =>
    rcases uses with ⟨w, hw, -⟩ | ⟨probe, -⟩
    · simp [(ok.exited hr).warm] at hw
    · simp [probe] at hr
  | takeStandbys _ _ col | detachRun _ _ _ _ _ col | enqueue _ col =>
    rcases col.role with role | role | role <;> simp [role] at hr
  | openRun | mkdir | tryRename | dropRun | resume | barrier => exact ok.exited hr
  -- every other effect needs something in hand, or another role
  | _ =>
    obtain ⟨charge, warm, mine, vms, inDestroy, gate, registered, dirs⟩ := ok.exited (by simp_all)
    simp_all

theorem Stake.Ok.closer_step : ∀ n, st'.role = .closer n → n = 0 ∨ 3 ≤ n →
    st'.vms = [] ∧ st'.inDestroy = [] := by
  intro n hr hn
  cases h with
  | passVictims _ vms inDestroy => exact ⟨vms, inDestroy⟩
  | passWarms | close =>
    obtain rfl : _ = n := Role.closer.inj hr
    omega
  | closeQueue role | passLoop role | closeReaper role | passReaper role =>
    exact ok.closer _ role (by omega)
  | restore uses =>
    rcases uses with ⟨w, hw, -⟩ | ⟨probe, -⟩
    · rcases (ok.warm w hw).2.2.2.2.2.1 with role | role <;> simp [role] at hr
    · simp [probe] at hr
  | takeStandbys _ _ col | enqueue _ col =>
    rcases col.role with role | role | role <;> simp [role] at hr
  | callDestroy vms => simp [(ok.closer n hr hn).1] at vms
  | callDestroyMine mine | callReap mine => simp [(ok.mine (by simp [mine])).1] at hr
  | workerTake _ role | dequeue _ role => simp [role] at hr
  | workerExit | loopExit => simp at hr
  | _ =>
    have clause := ok.closer n hr hn
    simp_all

theorem Stake.Ok.dirs_step
    (names : ∀ e ∈ L.live, validKey e.1 = true ∧
      (L.acct e.2).dir = (workspaceRoot L.cfg).join e.1)
    (queueDirs : ∀ b ∈ L.queue, ∀ d ∈ b.dirs, IsTombstone L.cfg d) :
    ∀ d ∈ st'.dirs, IsTombstone L.cfg d ∨ st'.role = .probe ∧ d = probeDir L.cfg := by
  intro d hd
  cases h with
  | @detachRun e tomb nano seq live _ _ _ name =>
    rcases List.mem_append.mp hd with hd | hd
    · exact ok.dirs d hd
    · obtain rfl : d = tomb := by simpa using hd
      obtain ⟨valid, dir⟩ := names e live
      exact .inl ⟨e.1, nano, seq, valid, by rw [name, dir]⟩
  | dequeue _ _ queue => exact .inl (queueDirs _ (by simp [queue]) d hd)
  | enqueue => simp at hd
  | removeDir dirs => exact ok.dirs d (by simp_all)
  | probeDone role => exact .inr ⟨role, by simpa using hd⟩
  | workerExit idle | loopExit idle | close _ _ idle => simp [idle.dirs] at hd
  | passWarms role | passVictims role | closeQueue role | passLoop role | closeReaper role
  | passReaper role =>
    rcases ok.dirs d hd with tomb | ⟨probe, -⟩
    · exact .inl tomb
    · simp [role] at probe
  | _ => exact ok.dirs d hd

end Shapes

/-! ## What an effect does to the map -/

theorem Effect.map_cases {st' : Stake} (h : Effect L st L' st') :
    L'.cfg = L.cfg ∧
    ((L'.live = L.live ∧ L'.nextRun = L.nextRun ∧ ∀ g, (L'.acct g).dir = (L.acct g).dir) ∨
      (∃ k d, k ∉ L.live.map Prod.fst ∧ validKey k = true ∧ workspaceDir L.cfg k = .ok d ∧
        L' = L.openRun k d) ∨
      ∃ e ∈ L.live, ¬ 0 < (L.acct e.2).inFlight ∧ ¬ 0 < (L.acct e.2).warming ∧
        (L.acct e.2).ready = [] ∧ L'.live = (L.live.filter fun x => x.1 ≠ e.1) ∧
        L'.nextRun = L.nextRun ∧ L'.acct = L.acct) := by
  cases h with
  | openRun new valid dir => exact ⟨rfl, .inr (.inl ⟨_, _, new, valid, dir, rfl⟩)⟩
  | dropRun tomb live inFlight warming ready =>
    exact ⟨rfl, .inr (.inr ⟨_, live, inFlight, warming, ready, rfl, rfl, rfl⟩)⟩
  | detachRun live inFlight warming ready =>
    exact ⟨rfl, .inr (.inr ⟨_, live, inFlight, warming, ready, rfl, rfl, rfl⟩)⟩
  | takeReady | startWarm | startRefill | settleCold | settleFail | settleReady | settleClosed
  | takeGate | dropGate | discharge | takeStandbys =>
    refine ⟨rfl, .inl ⟨rfl, rfl, fun g => ?_⟩⟩
    refine Ledger.post_same Account.dir L ?_ g
    rfl
  | close =>
    refine ⟨rfl, .inl ⟨rfl, rfl, fun g => ?_⟩⟩
    simp only [Ledger.close]
    split <;> rfl
  | _ => exact ⟨rfl, .inl ⟨rfl, rfl, fun _ => rfl⟩⟩

section Map

variable {L L' : Ledger} {l : List Stake} {st st' : Stake} (b : Books L l)
  (h : Effect L st L' st')
include b h

theorem Books.map_step : (L'.live.map Prod.fst).Nodup ∧ (L'.live.map Prod.snd).Nodup ∧
    (∀ e ∈ L'.live, e.2 < L'.nextRun) ∧
    ∀ e ∈ L'.live, validKey e.1 = true ∧ (L'.acct e.2).dir = (workspaceRoot L'.cfg).join e.1 := by
  obtain ⟨cfg, ⟨live, next, dir⟩ | ⟨k, d, new, valid, dir, rfl⟩ | ⟨x, -, -, -, -, live, next,
    acct⟩⟩ :=
    h.map_cases
  · rw [live, next, cfg]
    exact ⟨b.keys, b.refs, b.fresh, fun e he => by rw [dir]; exact b.names e he⟩
  · have hfresh : L.nextRun ∉ L.live.map Prod.snd := by
      intro hmem
      obtain ⟨e, he, heq⟩ := List.mem_map.mp hmem
      have := b.fresh e he
      omega
    refine ⟨?_, ?_, ?_, ?_⟩
    · simpa [Ledger.openRun] using b.keys.concat new
    · simpa [Ledger.openRun] using b.refs.concat hfresh
    · exact forall_mem_concat (fun e he => Nat.lt_succ_of_lt (b.fresh e he)) (Nat.lt_succ_self _)
    · refine forall_mem_concat (fun e he => ?_) ?_
      · have hne : e.2 ≠ L.nextRun := (b.fresh e he).ne
        simpa [Ledger.openRun, Function.update_of_ne hne] using b.names e he
      · rw [workspaceDir_of_validKey _ valid] at dir
        simpa [Ledger.openRun, valid] using (Except.ok.inj dir).symm
  · have hsub : (L.live.filter fun e => e.1 ≠ x.1).Sublist L.live := List.filter_sublist
    rw [live, next, cfg, acct]
    exact ⟨b.keys.sublist (hsub.map _), b.refs.sublist (hsub.map _),
      fun e he => b.fresh e (hsub.subset he), fun e he => b.names e (hsub.subset he)⟩

omit b in
theorem Effect.dir_eq (hg : g < L.nextRun) : (L'.acct g).dir = (L.acct g).dir := by
  obtain ⟨-, ⟨-, -, dir⟩ | ⟨k, d, -, -, -, rfl⟩ | ⟨-, -, -, -, -, -, -, acct⟩⟩ := h.map_cases
  · exact dir g
  · simp [Ledger.openRun, Function.update_of_ne hg.ne]
  · rw [acct]

end Map

/-! ## The charges balance -/

/-- The weighted sum of one counter over the map. -/
def weigh (live : List (Key × Nat)) (acct : Nat → Account) (w : Key × Nat → ℤ)
    (f : Account → ℤ) : ℤ := total (fun e => w e * f (acct e.2)) live

section Balance

variable {L L' : Ledger} {l : List Stake} {st st' : Stake} (b : Books L l) (hst : st ∈ l)
  (h : Effect L st L' st') (w : Key × Nat → ℤ)

theorem weigh_update_same {live : List (Key × Nat)} {acct : Nat → Account} (f : Account → ℤ)
    {a : Account} (ha : f a = f (acct g)) :
    weigh live (Function.update acct g a) w f = weigh live acct w f := by
  apply total_congr
  intro e _
  by_cases he : e.2 = g
  · rw [he, Function.update_self, ha]
  · rw [Function.update_of_ne he]

theorem weigh_close (f : Account → ℤ) (hf : ∀ a, f { a with ready := [] } = f a) :
    weigh L.close.live L.close.acct w f = weigh L.live L.acct w f := by
  apply total_congr
  intro e _
  simp only [Ledger.close]
  split <;> simp [hf]

include b

theorem Books.weigh_update (f : Account → ℤ) (a : Account) (he : e ∈ L.live) :
    weigh L.live (Function.update L.acct e.2 a) w f =
      weigh L.live L.acct w f + w e * (f a - f (L.acct e.2)) := by
  have := total_update (fun e a => w e * f a) L.acct a b.refs he
  unfold weigh
  linear_combination this

theorem Books.nextRun_notMem : L.nextRun ∉ L.live.map Prod.snd := by
  intro hmem
  obtain ⟨e, he, heq⟩ := List.mem_map.mp hmem
  have := b.fresh e he
  omega

theorem Books.weigh_openRun (f : Account → ℤ) (k : Key) (d : SlashPath)
    (hf : f ⟨d, [], 0, 0, false⟩ = 0) :
    weigh (L.openRun k d).live (L.openRun k d).acct w f = weigh L.live L.acct w f := by
  have := total_update_of_notMem (fun e a => w e * f a) L.acct ⟨d, [], 0, 0, false⟩ b.nextRun_notMem
  simp only [weigh, Ledger.openRun, total_append, this]
  simp [hf]

theorem Books.weigh_filter (f : Account → ℤ) (he : e ∈ L.live) (hf : f (L.acct e.2) = 0) :
    weigh (L.live.filter fun x => x.1 ≠ e.1) L.acct w f = weigh L.live L.acct w f := by
  have := total_filter_key (fun x => w x * f (L.acct x.2)) b.keys he
  simp only [hf, mul_zero, add_zero] at this
  exact this

include hst h

/-- INTERNAL: **an effect changes `inFlight` by what it changes the goroutine's charge**. -/
theorem Books.inFlight_balance :
    weigh L'.live L'.acct w Account.inFlight + st.charged w =
      weigh L.live L.acct w Account.inFlight + st'.charged w := by
  have ok := b.stakes st hst
  cases h with
  | openRun => rw [b.weigh_openRun w _ _ _ rfl]
  | takeReady live _ idle =>
    simp only [Ledger.post, b.weigh_update w _ _ live, Stake.charged, idle.charge]
    simp
  | settleCold warm =>
    have live := (b.warm_live hst warm).1
    simp only [Ledger.post, b.weigh_update w _ _ live, Stake.charged, (ok.warm _ warm).2.2.2.1]
    simp
  | discharge charge =>
    have live := (b.charge_live hst charge).1
    simp only [Ledger.post, b.weigh_update w _ _ live, Stake.charged, charge]
    simp
  | startWarm | startRefill | settleFail | settleReady | settleClosed | takeGate | dropGate
  | takeStandbys =>
    simp only [Ledger.post]
    rw [weigh_update_same]
    · rfl
    · rfl
  | dropRun tomb live inFlight | detachRun live inFlight =>
    have zero := le_antisymm (not_lt.mp inFlight) (b.counters_nonneg live).1
    simp only [b.weigh_filter w Account.inFlight live zero, Stake.charged]
  | close =>
    rw [weigh_close w _ fun _ => rfl]
    rfl
  | _ => rfl

/-- INTERNAL: **an effect changes `warming` by what it changes the goroutine's warming**. -/
theorem Books.warming_balance :
    weigh L'.live L'.acct w Account.warming + st.warmed w =
      weigh L.live L.acct w Account.warming + st'.warmed w := by
  cases h with
  | openRun => rw [b.weigh_openRun w _ _ _ rfl]
  | startWarm live _ idle | startRefill live _ idle =>
    simp only [Ledger.post, b.weigh_update w _ _ live, Stake.warmed, idle.warm]
    simp
  | settleCold warm | settleFail warm | settleReady warm | settleClosed warm =>
    have live := (b.warm_live hst warm).1
    simp only [Ledger.post, b.weigh_update w _ _ live, Stake.warmed, warm]
    simp
  | takeReady | discharge | takeGate | dropGate | takeStandbys =>
    simp only [Ledger.post]
    rw [weigh_update_same]
    · rfl
    · rfl
  | dropRun tomb live _ warming | detachRun live _ warming =>
    have zero := le_antisymm (not_lt.mp warming) (b.counters_nonneg live).2
    simp only [b.weigh_filter w Account.warming live zero, Stake.warmed]
  | close =>
    rw [weigh_close w _ fun _ => rfl]
    rfl
  | _ => rfl

theorem Books.warm_step_live {w : Warming} (hw : st'.warm = some w) : w.entry ∈ L.live := by
  cases h with
  | startWarm live | startRefill live =>
    obtain rfl := Option.some.inj hw
    exact live
  | settleCold | settleFail | settleReady | settleClosed => simp at hw
  | _ => exact (b.warm_live hst hw).1

theorem Books.standbys_step : ∀ g, ∀ v ∈ (L'.acct g).ready, v.run = some g := by
  intro g v hv
  have ok := b.stakes st hst
  -- a write to the account `x` leaves the standbys of every other run alone
  have written (x : Nat) (a : Account) (hv : v ∈ ((L.post x a).acct g).ready)
      (ha : ∀ v ∈ a.ready, v.run = some x) : v.run = some g := by
    by_cases hg : g = x
    · subst hg
      exact ha v (by simpa [Ledger.post] using hv)
    · exact b.standbys g v (by simpa [Ledger.post, Function.update_of_ne hg] using hv)
  cases h with
  | openRun => exact written L.nextRun ⟨_, [], 0, 0, false⟩ hv (by simp)
  | takeReady _ ready =>
    exact written _ _ hv fun v hv => b.standbys _ v (by rw [ready]; exact List.mem_append_left _ hv)
  | @settleReady w vm warm vms =>
    refine written _ _ hv fun v hv => ?_
    rcases List.mem_append.mp hv with hv | hv
    · exact b.standbys _ v hv
    · exact (ok.warm w warm).2.2.2.2.2.2.2 v (vms ▸ hv)
  | takeStandbys _ ready =>
    exact written _ _ hv fun v hv =>
      b.standbys _ v (by rw [ready]; exact List.mem_append_right _ hv)
  | startWarm | startRefill | settleCold | settleFail | settleClosed | takeGate | dropGate
  | discharge => exact written _ _ hv (b.standbys _)
  | close =>
    simp only [Ledger.close] at hv
    split at hv
    · simp at hv
    · exact b.standbys g v hv
  | _ => exact b.standbys g v hv

theorem Books.dropped_step : ∀ g, g ∉ L'.live.map Prod.snd → (L'.acct g).ready = [] := by
  intro g hg
  -- a write to an entry of the map is not a write to `g`
  have written {e : Key × Nat} (he : e ∈ L.live) (hg : g ∉ L.live.map Prod.snd) (a : Account) :
      ((L.post e.2 a).acct g).ready = [] := by
    have hne : g ≠ e.2 := fun heq => hg (heq ▸ List.mem_map_of_mem he)
    simpa [Ledger.post, Function.update_of_ne hne] using b.dropped g hg
  cases h with
  | openRun =>
    simp only [Ledger.openRun, List.map_append, List.map_cons, List.map_nil, List.mem_append,
      List.mem_singleton, not_or] at hg
    simpa [Ledger.openRun, Function.update_of_ne hg.2] using b.dropped g hg.1
  | takeReady live | startWarm live | startRefill live | takeStandbys live =>
    exact written live hg _
  | settleCold warm | settleFail warm | settleReady warm | settleClosed warm =>
    exact written (b.warm_live hst warm).1 hg _
  | takeGate charge | discharge charge => exact written (b.charge_live hst charge).1 hg _
  | dropGate =>
    refine (Ledger.post_same Account.ready L ?_ g).trans (b.dropped g hg)
    rfl
  | @dropRun e _ live _ _ ready | @detachRun e _ _ _ live _ _ ready =>
    by_cases hlive : g ∈ L.live.map Prod.snd
    · obtain ⟨x, hx, rfl⟩ := List.mem_map.mp hlive
      by_cases hkey : x.1 = e.1
      · rwa [b.entry_eq_of_key hx live hkey]
      · exact absurd (List.mem_map_of_mem (List.mem_filter.mpr ⟨hx, by simpa using hkey⟩)) hg
    · exact b.dropped g hlive
  | close =>
    simp only [Ledger.close] at hg ⊢
    rw [if_neg hg]
    exact b.dropped g hg
  | _ => exact b.dropped g hg

omit hst in
theorem Books.queueDirs_step (ok : st.Ok L) : ∀ q ∈ L'.queue, ∀ d ∈ q.dirs,
    IsTombstone L.cfg d := by
  intro q hq d hd
  cases h with
  | enqueue _ col =>
    rcases List.mem_append.mp hq with hq | hq
    · exact b.queueDirs q hq d hd
    · obtain rfl : q = ⟨st.vms, st.dirs⟩ := by simpa using hq
      rcases ok.dirs d hd with tomb | ⟨probe, -⟩
      · exact tomb
      · rcases col.role with role | role | role <;> simp [role] at probe
  | dequeue _ _ queue => exact b.queueDirs q (by rw [queue]; exact List.mem_cons_of_mem _ hq) d hd
  | _ => exact b.queueDirs q hq d hd

end Balance

/-! ## The books over whole runs -/

theorem Stake.Ok.of_dir (ok : st.Ok L) (cfg : L'.cfg = L.cfg)
    (dir : ∀ w, st.warm = some w → (L'.acct w.entry.2).dir = (L.acct w.entry.2).dir) : st.Ok L' :=
  { ok with
    warm := fun w hw => by
      obtain ⟨mine, inDestroy, gate, charge, dirs, role, wdir, run⟩ := ok.warm w hw
      exact ⟨mine, inDestroy, gate, charge, dirs, role, by rw [dir w hw, wdir], run⟩
    dirs := by rw [cfg]; exact ok.dirs }

theorem Stake.Ok.fresh (L : Ledger) (role : Role) : ({ role := role } : Stake).Ok L where
  charge := by simp
  warm := by simp
  mine := by simp
  gate := by simp
  refill := by simp
  exited := fun _ => ⟨rfl, rfl, rfl, rfl, rfl, rfl, rfl, rfl⟩
  closer := by simp
  dirs := by simp

/-- One effect keeps the books. -/
theorem Books.act {l : List Stake} {i : Nat} {st' : Stake} (b : Books L l) (hi : l[i]? = some st)
    (h : Effect L st L' st') : Books L' (l.set i st') := by
  have hst : st ∈ l := List.mem_of_getElem? hi
  have ok := b.stakes st hst
  obtain ⟨keys, refs, fresh, names⟩ := b.map_step h
  have cfg := h.map_cases.1
  have dirs {x : Stake} (hx : x ∈ l) (w : Warming) (hw : x.warm = some w) :
      (L'.acct w.entry.2).dir = (L.acct w.entry.2).dir :=
    h.dir_eq (b.fresh _ (b.warm_live hx hw).1)
  have ok' : st'.Ok L :=
    ⟨ok.charge_step h b.standbys, ok.warm_step h, ok.mine_step h, ok.gate_step h, ok.refill_step h,
      ok.exited_step h, ok.closer_step h, ok.dirs_step h b.names b.queueDirs⟩
  refine ⟨keys, refs, fresh, names, fun w => ?_, fun w => ?_, b.standbys_step hst h,
    b.dropped_step hst h, ?_, ?_⟩
  · have balance := b.inFlight_balance hst h w
    have turn := total_set (Stake.charged w) st' hi
    have old : weigh L.live L.acct w Account.inFlight = total (Stake.charged w) l := b.inFlight w
    show weigh L'.live L'.acct w Account.inFlight = _
    omega
  · have balance := b.warming_balance hst h w
    have turn := total_set (Stake.warmed w) st' hi
    have old : weigh L.live L.acct w Account.warming = total (Stake.warmed w) l := b.warming w
    show weigh L'.live L'.acct w Account.warming = _
    omega
  · rw [cfg]
    exact b.queueDirs_step h ok
  · refine forall_mem_set (fun x hx => (b.stakes x hx).of_dir cfg (dirs hx)) (ok'.of_dir cfg ?_)
    exact fun w hw => h.dir_eq (b.fresh _ (b.warm_step_live hst h hw))

theorem Books.join {l : List Stake} (b : Books L l) (h : Joins st) :
    Books L (l ++ [st]) := by
  cases h with
  | @intro role =>
    refine { b with
      inFlight := fun w => ?_
      warming := fun w => ?_
      stakes := forall_mem_concat b.stakes (Stake.Ok.fresh L role) }
    · simp [b.inFlight w, Stake.charged]
    · simp [b.warming w, Stake.warmed]

theorem LedgerInit.exists_role (init : LedgerInit x) (hst : st ∈ x.2) :
    ∃ role, st = { role := role } := by
  rw [init.stakes] at hst
  rcases List.mem_cons.mp hst with rfl | hst
  · exact ⟨_, rfl⟩
  · exact ⟨_, List.eq_of_mem_replicate hst⟩

theorem LedgerInit.total_eq_zero (init : LedgerInit x) (f : Stake → ℤ)
    (hf : ∀ role, f { role := role } = 0) : total f x.2 = 0 := by
  have : total f x.2 = total (fun _ => 0) x.2 := by
    apply total_congr
    intro st hst
    obtain ⟨role, rfl⟩ := init.exists_role hst
    exact hf role
  simpa [total] using this

theorem LedgerInit.books (init : LedgerInit x) : Books x.1 x.2 where
  keys := by simp [init.live]
  refs := by simp [init.live]
  fresh := by simp [init.live]
  names := by simp [init.live]
  inFlight w := by simp [init.live, init.total_eq_zero (Stake.charged w) fun _ => rfl]
  warming w := by simp [init.live, init.total_eq_zero (Stake.warmed w) fun _ => rfl]
  standbys g v hv := by simp [(init.accounts g).2] at hv
  dropped g _ := (init.accounts g).2
  queueDirs := by simp [init.queue]
  stakes st hst := by
    obtain ⟨role, rfl⟩ := init.exists_role hst
    exact Stake.Ok.fresh x.1 role

/-- INTERNAL: **the books balance in every reachable state**. -/
theorem books_of_reachable (h : Reachable ledgerSystem x) :
    Books x.1 x.2 := by
  refine h.invariant (P := fun x => Books x.1 x.2) (fun x init => LedgerInit.books init) ?_
  rintro _ _ - b (⟨hi, step⟩ | ⟨joins⟩)
  · exact b.act hi step
  · exact b.join joins

end ServerlessHarness.VmPool
