import ServerlessHarness.Analysis.VmPool.Books
import ServerlessHarness.Model.VmPool.Goroutines

/-!
# The goroutines keep the ledger

The bridge between `Model.VmPool.Goroutines` and `Interface.VmPool.Ledger`. `Pool.ledger`
reads the books off a pool, `Thread.stake` what a goroutine at a program counter answers
for, and `pool_refines` is the one result the analysis goes through: every step of a
goroutine is zero or more effects on the ledger, so what holds of every reachable ledger
holds of the pool.

Where the code looks a run up by its key again after it gave the lock up (`destroy`), the
step is the intended entry because the books of the ledger balance: a run that a goroutine
is charged to is still in the map.
-/

set_option autoImplicit false

namespace ServerlessHarness.VmPool

open Library

/-! ## The books of a pool -/

/-- One run's account. -/
def RunPool.account (rp : RunPool) : Account :=
  ⟨rp.dir, rp.ready, rp.inFlight, rp.warming, rp.execGate⟩

/-- The books of a pool. -/
def Pool.ledger (p : Pool) : Ledger where
  cfg := p.cfg
  serialize := p.serialize
  locked := p.mu.isSome
  live := p.runs
  acct := fun g => (p.heap g).account
  nextRun := p.nextRun
  closed := p.closed
  queue := p.reclaimQ
  queueClosed := p.reclaimQClosed
  loops := p.reclaimDone
  warms := p.inFlightWarms
  reaper := p.reaper
  dirs := p.dirs
  hist := p.hist

@[simp] theorem Pool.ledger_hist (p : Pool) : p.ledger.hist = p.hist := rfl

@[simp] theorem Pool.ledger_standbys (p : Pool) : p.ledger.standbys = p.standbys := rfl

/-- What a goroutine that drains answers for. -/
def Drain.stake (role : Role) (d : Drain) : Stake :=
  { role := role, vms := d.vms, inDestroy := d.inDestroy.toList, dirs := d.dirs }

/-- The VM that `warm` has restored. -/
def WarmPc.vms : WarmPc → List VM
  | .restored vm => [vm]
  | _ => []

/-- What a goroutine in `sweep` answers for. -/
def SweepPc.stake (role : Role) : SweepPc → Stake
  | .visiting _ _ _ b => { role := role, vms := b.vms, dirs := b.dirs, locked := true }
  | .enqueue b => { role := role, vms := b.vms, dirs := b.dirs }
  | .draining d => d.stake role
  | _ => { role := role }

/-- The gate that a goroutine holds. -/
def gateOf (run : Nat) (gated : Bool) : Option Nat := if gated then some run else none

/-- What an `Exec` answers for. -/
def ExecPc.stake (key : Key) : ExecPc → Stake
  | .sweep pc => pc.stake .exec
  | .warming run req pc =>
    { role := .exec, warm := some ⟨(key, run), req.dir⟩, vms := pc.vms }
  | .gate run vm => { role := .exec, charge := some (key, run), mine := [vm] }
  | .held run vm gated | .resuming run vm gated | .running run vm gated
  | .destroy run vm gated _ =>
    { role := .exec, charge := some (key, run), mine := [vm], gate := gateOf run gated }
  | .barrier run vm gated _ | .submit run vm gated _ | .teardown run vm gated _ =>
    { role := .exec, mine := [vm], gate := gateOf run gated }
  | .reaping run vm gated _ | .destroying run vm gated _ =>
    { role := .exec, inDestroy := [vm], gate := gateOf run gated }
  | .openGate run _ => { role := .exec, gate := some run }
  | _ => { role := .exec }

/-- What a replenish callback answers for. -/
def ReplenishPc.stake (key : Key) : ReplenishPc → Stake
  | .warming run req pc =>
    { role := .replenish, warm := some ⟨(key, run), req.dir⟩, vms := pc.vms, registered := true }
  | .draining d => { d.stake .replenish with registered := true }
  | .finish => { role := .replenish, registered := true }
  | _ => { role := .replenish }

/-- What a `Probe` answers for. -/
def ProbePc.stake : ProbePc → Stake
  | .warming _ pc => { role := .probe, vms := pc.vms }
  | .resume vm | .running vm => { role := .probe, vms := [vm] }
  | .draining d _ => d.stake .probe
  | _ => { role := .probe }

/-- What a `Close` answers for. -/
def ClosePc.stake : ClosePc → Stake
  | .lock | .returned false => { role := .closer 0 }
  | .waitWarms victims => { role := .closer 1, vms := victims }
  | .draining d => d.stake (.closer 2)
  | .closeQueue => { role := .closer 3 }
  | .waitReclaim => { role := .closer 4 }
  | .closeReaper => { role := .closer 5 }
  | .waitReaper => { role := .closer 6 }
  | .returned true => { role := .closer 7 }

/-- What a goroutine answers for. -/
def Thread.stake : Thread → Stake
  | .exec c pc => pc.stake c.key
  | .replenish key _ pc => pc.stake key
  | .ticker (.sweep pc) => pc.stake .ticker
  | .ticker _ => { role := .ticker }
  | .reclaim _ (.draining d _) => d.stake .reclaim
  | .reclaim _ _ => { role := .reclaim }
  | .close pc => pc.stake
  | .reclaimLoop (.draining d) => d.stake (.loop false)
  | .reclaimLoop .receive => { role := .loop false }
  | .reclaimLoop .exited => { role := .loop true }
  | .reapWorker (.reaping vm) => { role := .worker false, inDestroy := [vm] }
  | .reapWorker .receive => { role := .worker false }
  | .reapWorker .exited => { role := .worker true }
  | .probe pc => pc.stake

/-- The books of a pool and its goroutines. -/
def Sys.ledger (s : Sys) : Ledger × List Stake := (s.pool.ledger, s.threads.map Thread.stake)

/-- Zero or more effects of one goroutine. -/
def Effects : Ledger × Stake → Ledger × Stake → Prop :=
  Relation.ReflTransGen fun x y => Effect x.1 x.2 y.1 y.2

theorem Effects.frame {x y : Ledger × Stake} (h : Effects x y) :
    y.1.cfg = x.1.cfg ∧ y.1.serialize = x.1.serialize ∧
      y.1.reaper.isSome = x.1.reaper.isSome ∧ x.1.hist.barriers ⊆ y.1.hist.barriers ∧
      (x.1.closed = true → y.1.closed = true) := by
  induction h with
  | refl => exact ⟨rfl, rfl, rfl, List.Subset.refl _, id⟩
  | tail _ step ih =>
    obtain ⟨cfg, serialize, reaper, barriers, closed⟩ := step.frame
    exact ⟨cfg.trans ih.1, serialize.trans ih.2.1, reaper.trans ih.2.2.1,
      List.Subset.trans ih.2.2.2.1 barriers, fun hc => closed (ih.2.2.2.2 hc)⟩

/-! ## The critical sections -/

@[simp] theorem Pool.ledger_setRun (p : Pool) (g : Nat) (rp : RunPool) :
    (p.setRun g rp).ledger = p.ledger.post g rp.account := by
  have : (fun x => (Function.update p.heap g rp x).account) =
      Function.update (fun x => (p.heap x).account) g rp.account := by
    funext x
    by_cases hx : x = g
    · subst hx
      simp
    · simp [Function.update_of_ne hx]
  simp [Pool.setRun, Pool.ledger, Ledger.post, this]

theorem Pool.ledger_setRun_hist (p : Pool) (g : Nat) (rp : RunPool) (h : History) :
    ({ p.setRun g rp with hist := h } : Pool).ledger =
      { p.ledger.post g rp.account with hist := h } := by
  rw [← Pool.ledger_setRun]
  rfl

theorem Pool.ledger_setRun_warms (p : Pool) (g : Nat) (rp : RunPool) (n : Int) :
    ({ p.setRun g rp with inFlightWarms := n } : Pool).ledger =
      { p.ledger.post g rp.account with warms := n } := by
  rw [← Pool.ledger_setRun]
  rfl

@[simp] theorem Ledger.post_self (L : Ledger) (g : Nat) : L.post g (L.acct g) = L := by
  simp [Ledger.post]

theorem Pool.ledger_setRun_same (p : Pool) (g : Nat) (rp : RunPool)
    (h : rp.account = (p.heap g).account) : (p.setRun g rp).ledger = p.ledger := by
  rw [Pool.ledger_setRun, h]
  exact Ledger.post_self p.ledger g

@[simp] theorem Pool.ledger_scheduleReplenishLocked (p : Pool) (g : Nat) :
    (p.scheduleReplenishLocked g).ledger = p.ledger := by
  unfold Pool.scheduleReplenishLocked
  dsimp only
  split
  · rfl
  · split
    · rfl
    · exact Pool.ledger_setRun_same _ g _ rfl

@[simp] theorem Pool.ledger_stopPending (p : Pool) (g : Nat) :
    (p.stopPending g).ledger = p.ledger :=
  Pool.ledger_setRun_same { p with timers := _ } g _ rfl

@[simp] theorem Pool.ledger_forgetPending (p : Pool) (key : Key) (tm : Nat) :
    (p.forgetPending key tm).ledger = p.ledger := by
  unfold Pool.forgetPending
  split
  · rfl
  · exact Pool.ledger_setRun_same p _ _ rfl

@[simp] theorem Pool.ledger_nextIDLocked (p : Pool) : p.nextIDLocked.2.ledger = p.ledger := rfl

@[simp] theorem Pool.ledger_armTickerLocked (p : Pool) : p.armTickerLocked.ledger = p.ledger := by
  unfold Pool.armTickerLocked
  split <;> rfl

variable {p p' : Pool} {ch : Choice} {key : Key} {s : Sys} {c : ExecCall} {d : Detach}
  {me run : Nat} {role : Role} {t : Thread}

theorem Pool.admits_of_admitLocked {newRun : Bool} (h : p.admitLocked newRun = .ok ()) :
    p.ledger.Admits := by
  unfold Pool.admitLocked at h
  dsimp only at h
  split at h
  · simp at h
  · split at h
    · simp at h
    · rename_i hle
      exact not_lt.mp hle

theorem Pool.runLocked_effects {g : Nat} (st : Stake) (keys : (p.runs.map Prod.fst).Nodup)
    (valid : validKey key = true) (h : p.runLocked key = .ok (g, p')) :
    (key, g) ∈ p'.runs ∧ Effects (p.ledger, st) (p'.ledger, st) := by
  unfold Pool.runLocked at h
  split at h
  · rename_i g' hlookup
    obtain ⟨rfl, rfl⟩ : g' = g ∧ p = p' := by simpa using h
    exact ⟨(lookup_eq_some_iff keys).mp hlookup, .refl⟩
  · rename_i hlookup
    split at h
    · simp at h
    · split at h
      · simp at h
      · rename_i dir hdir
        obtain ⟨rfl, rfl⟩ : p.nextRun = g ∧ _ = p' := by simpa using h
        refine ⟨by simp [Pool.setRun], .single ?_⟩
        rw [Pool.ledger_setRun]
        exact .openRun (lookup_eq_none_iff.mp hlookup) valid hdir

theorem Stake.idle_of_role (role : Role) : ({ role := role } : Stake).Idle :=
  ⟨rfl, rfl, rfl, rfl, rfl, rfl, rfl, rfl⟩

theorem Pool.acquireLocked_effects (keys : (p.runs.map Prod.fst).Nodup)
    (valid : validKey c.key = true) :
    Effects (p.ledger, { role := .exec })
      ((p.acquireLocked c.key).2.ledger,
        (ExecPc.ofAcquired c (p.acquireLocked c.key).1).stake c.key) := by
  unfold Pool.acquireLocked
  split
  · exact .refl
  · split
    · exact .refl
    · rename_i g p₁ hrun
      obtain ⟨live, opened⟩ := Pool.runLocked_effects { role := .exec } keys valid hrun
      refine opened.trans ?_
      dsimp only
      split
      · rename_i vm hlast
        have ready : (p₁.ledger.acct g).ready = (p₁.heap g).ready.dropLast ++ [vm] :=
          (List.dropLast_append_getLast? vm hlast).symm
        have taken := Effect.takeReady (e := (c.key, g)) (L := p₁.ledger) live ready
          (Stake.idle_of_role .exec) rfl
        rw [Pool.ledger_setRun_hist]
        exact .single taken
      · have unparked :
            (p₁.setRun g { p₁.heap g with lastExec := p₁.now, parked := false }).ledger =
              p₁.ledger := Pool.ledger_setRun_same p₁ g _ rfl
        split
        · exact unparked ▸ .refl
        · split
          · exact unparked ▸ .refl
          · rename_i hadmits
            have admits := Pool.admits_of_admitLocked hadmits
            rw [unparked] at admits
            have started := Effect.startWarm (e := (c.key, g)) (L := p₁.ledger) live admits
              (Stake.idle_of_role .exec) rfl
            rw [Pool.ledger_setRun, Pool.ledger_nextIDLocked, unparked]
            exact .single started

theorem Pool.settleCold_effects (p : Pool) (key : Key) (run : Nat) (dir : SlashPath) (vm : VM) :
    Effects (p.ledger, { role := .exec, warm := some ⟨(key, run), dir⟩, vms := [vm] })
      ((p.settleCold run (some vm)).ledger,
        { role := .exec, charge := some (key, run), mine := [vm] }) := by
  unfold Pool.settleCold
  rw [Pool.ledger_setRun_hist]
  exact .single (.settleCold (w := ⟨(key, run), dir⟩) rfl rfl rfl)

theorem Pool.settleCold_none_effects (p : Pool) (key : Key) (run : Nat) (dir : SlashPath) :
    Effects (p.ledger, { role := .exec, warm := some ⟨(key, run), dir⟩ })
      ((p.settleCold run none).ledger, { role := .exec }) := by
  unfold Pool.settleCold
  rw [Pool.ledger_setRun]
  exact .single (.settleFail (w := ⟨(key, run), dir⟩) rfl rfl)

theorem Pool.destroyLocked_effects (st : Stake) (keys : (p.runs.map Prod.fst).Nodup)
    (live : (key, run) ∈ p.runs) (inFlight : 1 ≤ (p.heap run).inFlight)
    (charge : st.charge = some (key, run)) :
    Effects (p.ledger, st) ((p.destroyLocked key).ledger, { st with charge := none }) := by
  unfold Pool.destroyLocked
  rw [(lookup_eq_some_iff keys).mpr live]
  simp only [Pool.ledger_scheduleReplenishLocked, Pool.ledger_setRun]
  rw [if_pos (by omega)]
  exact .single (.discharge charge)

theorem Pool.ledger_of_replenishOneLocked_none (h : p.replenishOneLocked key = (none, p')) :
    p'.ledger = p.ledger := by
  unfold Pool.replenishOneLocked at h
  dsimp only at h
  split at h
  · cases h; rfl
  · split at h
    · cases h; rfl
    · split at h
      · cases h; rfl
      · split at h
        · cases h
          rw [Pool.ledger_scheduleReplenishLocked]
          exact Pool.ledger_setRun_same p _ _ rfl
        · cases h

theorem Pool.replenishOneLocked_effects {dir : SlashPath} {id : String}
    (keys : (p.runs.map Prod.fst).Nodup)
    (h : p.replenishOneLocked key = (some (run, dir, id), p')) :
    Effects (p.ledger, { role := .replenish })
      (p'.ledger, { role := .replenish, warm := some ⟨(key, run), dir⟩, registered := true }) := by
  unfold Pool.replenishOneLocked at h
  dsimp only at h
  split at h
  · cases h
  · rename_i g hlookup
    split at h
    · cases h
    · rename_i hopen
      split at h
      · cases h
      · split at h
        · cases h
        · rename_i hadmits
          cases h
          have started := Effect.startRefill (e := (key, run)) (L := p.ledger)
            ((lookup_eq_some_iff keys).mp hlookup) (Pool.admits_of_admitLocked hadmits)
            (Stake.idle_of_role .replenish) rfl (Bool.eq_false_of_not_eq_true hopen)
          rw [Pool.ledger_setRun_warms]
          exact .single started

theorem Pool.settleReplenish_none_effects (p : Pool) (key : Key) (run : Nat) (dir : SlashPath) :
    Effects
      (p.ledger, { role := .replenish, warm := some ⟨(key, run), dir⟩, registered := true })
      ((p.settleReplenish run none).2.ledger, { role := .replenish, registered := true }) := by
  unfold Pool.settleReplenish
  simp only [Pool.ledger_scheduleReplenishLocked, Pool.ledger_setRun]
  exact .single (.settleFail (w := ⟨(key, run), dir⟩) rfl rfl)

theorem Pool.settleReplenish_effects {r : Option VM} (key : Key) (dir : SlashPath) {vm : VM}
    (h : p.settleReplenish run (some vm) = (r, p')) :
    Effects
      (p.ledger,
        { role := .replenish, warm := some ⟨(key, run), dir⟩, vms := [vm], registered := true })
      (p'.ledger, { role := .replenish, vms := r.toList, registered := true }) := by
  unfold Pool.settleReplenish at h
  dsimp only at h
  split at h
  · cases h
    rw [Pool.ledger_setRun]
    exact .single (.settleClosed (w := ⟨(key, run), dir⟩) rfl)
  · rename_i hopen
    cases h
    rw [Pool.ledger_scheduleReplenishLocked, Pool.ledger_setRun]
    exact .single (.settleReady (w := ⟨(key, run), dir⟩) rfl rfl
      (Bool.eq_false_of_not_eq_true hopen))

/-! ## Detaching and closing -/

@[simp] theorem Ledger.post_acct_self (L : Ledger) (g : Nat) (a : Account) :
    (L.post g a).acct g = a := by
  simp [Ledger.post]

theorem Pool.detachWorkspace_effects {q : Pool} {g : Nat} {r : Option (Option SlashPath)}
    {st : Stake} (live : (key, g) ∈ p.ledger.live) (inFlight : ¬ 0 < (p.ledger.acct g).inFlight)
    (warming : ¬ 0 < (p.ledger.acct g).warming) (ready : (p.ledger.acct g).ready = [])
    (col : st.Collecting) (h : p.detachWorkspace (p.ledger.acct g).dir d = (r, q)) :
    match r with
    | none => Effects (p.ledger, st) (q.ledger, st)
    | some tomb =>
      Effects (p.ledger, st) ((q.deleteRun key).ledger,
        { st with dirs := st.dirs ++ tomb.toList }) := by
  unfold Pool.detachWorkspace at h
  dsimp only at h
  split at h
  · cases h
    exact .single (.tryRename (e := (key, g)) _ live inFlight warming)
  · split at h
    · rename_i absent
      cases h
      simp only [Option.toList_none, List.append_nil]
      exact .single (.dropRun (e := (key, g)) _ live inFlight warming ready absent)
    · cases h
      exact .single (.detachRun (e := (key, g)) live inFlight warming ready rfl col)

theorem RunPool.counters_of_not_busy {rp : RunPool} (h : ¬ rp.busy = true) :
    ¬ 0 < rp.inFlight ∧ ¬ 0 < rp.warming := by
  simpa [RunPool.busy] using h

theorem collecting_of_role (h : role = .exec ∨ role = .ticker ∨ role = .reclaim) (vms : List VM)
    (dirs : List SlashPath) (locked : Bool) :
    ({ role := role, vms := vms, dirs := dirs, locked := locked } : Stake).Collecting :=
  ⟨h, rfl, rfl, rfl, rfl, rfl⟩

theorem Pool.sweepVisit_effects {now : Int} {budget budget' : Int} {b b' : ReclaimBatch}
    (keys : (p.runs.map Prod.fst).Nodup) (hrole : role = .exec ∨ role = .ticker ∨ role = .reclaim)
    (h : p.sweepVisit now key d budget b = (budget', b', p')) :
    Effects (p.ledger, { role := role, vms := b.vms, dirs := b.dirs, locked := true })
      (p'.ledger, { role := role, vms := b'.vms, dirs := b'.dirs, locked := true }) := by
  unfold Pool.sweepVisit at h
  split at h
  · cases h; exact .refl
  · rename_i g hlookup
    have live := (lookup_eq_some_iff keys).mp hlookup
    dsimp only at h
    split at h
    · cases h; exact .refl
    · rename_i hbusy
      split at h
      · cases h; exact .refl
      · generalize (min budget ((p.heap g).ready.length : Int)).toNat = n at h
        have took := Effect.takeStandbys (e := (key, g)) (L := p.ledger)
          live (List.take_append_drop n (p.heap g).ready).symm
          (collecting_of_role hrole b.vms b.dirs true)
        split at h
        · cases h
          rw [Pool.ledger_setRun]
          exact .single took
        · rename_i hready
          have posted := p.ledger_setRun g { p.heap g with ready := (p.heap g).ready.drop n }
          rw [← Pool.ledger_stopPending _ g] at posted
          -- `p₁` is the pool with the standbys taken and the timers stopped
          generalize ((p.setRun g _).stopPending g) = p₁ at h posted
          have account : p₁.ledger.acct g = { (p.heap g).account with ready := [] } := by
            rw [posted, Ledger.post_acct_self, not_not.mp hready]
            rfl
          have took' : Effects
              (p.ledger, { role := role, vms := b.vms, dirs := b.dirs, locked := true })
              (p₁.ledger,
                { role := role, vms := b.vms ++ (p.heap g).ready.take n, dirs := b.dirs,
                  locked := true }) := by
            rw [posted]
            exact .single took
          split at h
          · have hdir : (p₁.ledger.acct g).dir = (p.heap g).dir := by rw [account]; rfl
            rw [← hdir] at h
            have live₁ : (key, g) ∈ p₁.ledger.live := by rw [posted]; exact live
            have detached {r : Option (Option SlashPath)} {p₂ : Pool} :=
              Pool.detachWorkspace_effects (q := p₂) (d := d) (r := r) live₁
                (by rw [account]; exact (RunPool.counters_of_not_busy hbusy).1)
                (by rw [account]; exact (RunPool.counters_of_not_busy hbusy).2) (by rw [account])
                (collecting_of_role hrole (b.vms ++ (p.heap g).ready.take n) b.dirs true)
            split at h
            · rename_i heq
              cases h
              exact took'.trans (detached heq)
            · rename_i heq
              cases h
              exact took'.trans (detached heq)
          · cases h
            rw [Pool.ledger_setRun_same p₁ g { p₁.heap g with parked := true } rfl]
            exact took'

theorem Pool.reclaimLocked_effects {b : ReclaimBatch} {out : ReclaimOutcome}
    (keys : (p.runs.map Prod.fst).Nodup) (h : p.reclaimLocked key d = (b, out, p')) :
    Effects (p.ledger, { role := .reclaim })
      (p'.ledger, { role := .reclaim, vms := b.vms, dirs := b.dirs }) := by
  unfold Pool.reclaimLocked at h
  split at h
  · cases h; exact .refl
  · rename_i g hlookup
    have live := (lookup_eq_some_iff keys).mp hlookup
    dsimp only at h
    have posted := p.ledger_setRun g { p.heap g with ready := [] }
    rw [← Pool.ledger_stopPending _ g] at posted
    generalize ((p.setRun g _).stopPending g) = p₁ at h posted
    have account : p₁.ledger.acct g = { (p.heap g).account with ready := [] } := by
      rw [posted, Ledger.post_acct_self]
      rfl
    have took : Effects (p.ledger, { role := .reclaim })
        (p₁.ledger, { role := .reclaim, vms := (p.heap g).ready }) := by
      rw [posted]
      exact .single (.takeStandbys (e := (key, g)) live (List.append_nil _).symm
        (collecting_of_role (by simp) [] [] false))
    have live₁ : (key, g) ∈ p₁.ledger.live := by rw [posted]; exact live
    split at h
    · cases h
      exact took
    · rename_i hbusy
      have detached {r : Option (Option SlashPath)} {p₂ : Pool} :=
        Pool.detachWorkspace_effects (q := p₂) (d := d) (r := r) live₁
          (RunPool.counters_of_not_busy hbusy).1 (RunPool.counters_of_not_busy hbusy).2
          (by rw [account])
          (collecting_of_role (.inr (.inr rfl)) (p.heap g).ready [] false)
      split at h
      · rename_i heq
        cases h
        exact took.trans (detached heq)
      · rename_i heq
        cases h
        exact took.trans (detached heq)

theorem Pool.closeLocked_effects {order : List VM} (hopen : p.closed = false)
    (perm : order.Perm p.standbys) :
    Effects (p.ledger, { role := .closer 0 })
      (p.closeLocked.ledger, { role := .closer 1, vms := order }) := by
  have accounts : p.closeLocked.ledger.acct = p.ledger.close.acct := by
    funext g
    by_cases hg : g ∈ p.runs.map Prod.snd
    · exact (congrArg RunPool.account (if_pos hg)).trans (if_pos hg).symm
    · exact (congrArg RunPool.account (if_neg hg)).trans (if_neg hg).symm
  have closed : p.closeLocked.ledger = { p.ledger.close with acct := p.closeLocked.ledger.acct } :=
    rfl
  rw [closed, accounts]
  exact .single (.close hopen rfl (Stake.idle_of_role _) perm)

/-! ## The steps between them -/

theorem warmStep_effects {req : RestoreRequest} {pc pc' : WarmPc} (st : Stake)
    (uses : st.Restores p.ledger req.dir req.run) (h : warmStep p req pc ch = some (p', pc')) :
    Effects (p.ledger, { st with vms := pc.vms }) (p'.ledger, { st with vms := pc'.vms }) := by
  unfold warmStep at h
  split at h
  · cases h
    exact .single (.mkdir uses)
  · cases h
    exact .refl
  · obtain ⟨inode, hinode, heq⟩ := Option.map_eq_some_iff.mp h
    cases heq
    exact .single (.restore uses rfl hinode rfl)
  · obtain ⟨inode, hinode, heq⟩ := Option.map_eq_some_iff.mp h
    cases heq
    exact .single (.restore uses rfl hinode rfl)
  · cases h
    exact .refl
  · cases h

theorem drainStep_effects {d d' : Drain} (role : Role) (reg : Bool)
    (h : drainStep p d ch = some (p', d')) :
    Effects (p.ledger, { d.stake role with registered := reg })
      (p'.ledger, { d'.stake role with registered := reg }) := by
  obtain ⟨vms, inDestroy, dirs⟩ := d
  unfold drainStep at h
  dsimp only at h
  split at h
  · cases h
    exact .single (.returnDestroy rfl)
  · split at h
    · cases h
      exact .single (.callDestroy rfl rfl rfl)
    · cases h
      exact .single (.removeDir rfl _)
    · cases h

theorem Drain.stake_of_finished {d : Drain} (h : d.finished = true) (role : Role) :
    d.stake role = { role := role } := by
  obtain ⟨vms, inDestroy, dirs⟩ := d
  obtain ⟨⟨rfl, rfl⟩, rfl⟩ : (vms = [] ∧ inDestroy = none) ∧ dirs = [] := by
    simpa [Drain.finished] using h
  rfl

/-- A step of a sweep changes the books only by listed effects. -/
theorem sweepStep_effects {pc pc' : SweepPc} (keys : (p.runs.map Prod.fst).Nodup)
    (hrole : role = .exec ∨ role = .ticker) (h : sweepStep p me pc ch = some (p', pc')) :
    Effects (p.ledger, pc.stake role) (p'.ledger, pc'.stake role) := by
  have hrole' : role = .exec ∨ role = .ticker ∨ role = .reclaim :=
    hrole.elim .inl fun h => .inr (.inl h)
  unfold sweepStep at h
  split at h
  · cases h
    exact .refl
  · split at h
    · cases h
    · rename_i hfree
      cases h
      exact .single (.lock (Bool.eq_false_of_not_eq_true hfree) rfl)
  · split at h
    · cases h
    · split at h
      rename_i hvisit
      cases h
      exact Pool.sweepVisit_effects keys hrole' hvisit
  · split at h
    · cases h
      have unlocked (b : ReclaimBatch) : Effects
          (p.ledger, { role := role, vms := b.vms, dirs := b.dirs, locked := true })
          ({ p with mu := none }.ledger, { role := role, vms := b.vms, dirs := b.dirs }) :=
        .single (.unlock rfl)
      unfold SweepPc.ofBatch
      split
      · rename_i hempty
        have := unlocked ⟨[], []⟩
        simpa only [SweepPc.stake, hempty] using this
      · exact unlocked _
    · cases h
  · split at h
    · cases h
    · split at h
      · cases h
        exact .refl
      · rename_i hopen
        split at h
        · cases h
          exact .single (.enqueue (Bool.eq_false_of_not_eq_true hopen)
            (collecting_of_role hrole' _ _ _))
        · cases h
          exact .refl
  · split at h
    · rename_i hfinished
      cases h
      rw [SweepPc.stake, Drain.stake_of_finished hfinished]
      exact .refl
    · obtain ⟨⟨p₁, d'⟩, hdrain, heq⟩ := Option.map_eq_some_iff.mp h
      cases heq
      exact drainStep_effects role false hdrain
  · cases h

/-- What an `Exec` at a program counter may rely on: its key was accepted, its request is
for the run it warms, it holds the gate if there is one to hold, it splits a teardown only
when there is a reaper, and queues a VM for reaping only past the barrier. -/
def ExecPc.Ok (p : Pool) (c : ExecCall) : ExecPc → Prop
  | .acquire | .waitSettled _ _ => validKey c.key = true
  | .warming run req _ => req.run = some run
  | .held _ _ gated => p.serialize = true → gated = true
  | .barrier _ _ _ _ => p.reaper.isSome
  | .submit _ vm _ _ => p.reaper.isSome ∧ vm ∈ p.hist.barriers
  | _ => True

theorem ExecPc.stake_afterTeardown (c : ExecCall) (run : Nat) (gated : Bool)
    (out : Option ExecOutcome) (key : Key) :
    (ExecPc.afterTeardown c run gated out).stake key =
      { role := .exec, gate := gateOf run gated } := by
  cases gated <;> rfl

theorem ExecPc.ok_afterTeardown (p : Pool) (c c' : ExecCall) (run : Nat) (gated : Bool)
    (out : Option ExecOutcome) : (ExecPc.afterTeardown c run gated out).Ok p c' := by
  cases gated <;> trivial

theorem ExecPc.ok_ofAcquired (p : Pool) (valid : validKey c.key = true) (a : Acquired) :
    (ExecPc.ofAcquired c a).Ok p c := by
  cases a with
  | wait => exact valid
  | cold => rfl
  | _ => trivial

/-- A step of `Exec` changes the books only by listed effects. -/
theorem execStep_effects {c' : ExecCall} {pc pc' : ExecPc} (keys : (p.runs.map Prod.fst).Nodup)
    (ok : pc.Ok p c)
    (charged : ∀ e, (pc.stake c.key).charge = some e → e ∈ p.runs ∧ 1 ≤ (p.heap e.2).inFlight)
    (h : execStep p c pc ch = some (p', c', pc')) :
    Effects (p.ledger, pc.stake c.key) (p'.ledger, pc'.stake c'.key) ∧ pc'.Ok p' c' := by
  unfold execStep at h
  split at h
  -- checkKey
  · split at h
    · cases h
      exact ⟨.refl, trivial⟩
    · rename_i hkey
      cases h
      exact ⟨.refl, validKey_of_checkKey hkey⟩
  -- acquire
  · split at h
    · cases h
    · cases h
      exact ⟨Pool.acquireLocked_effects keys ok, ExecPc.ok_ofAcquired _ ok _⟩
  -- waitSettled
  · split at h
    · cases h
      exact ⟨.refl, ok⟩
    · cases h
  · split at h
    · cases h
      exact ⟨.refl, trivial⟩
    · cases h
  -- warming
  · split at h
    · cases h
    · cases h
      exact ⟨p.settleCold_effects c.key _ _ _, trivial⟩
  · split at h
    · cases h
    · cases h
      exact ⟨p.settleCold_none_effects c.key _ _, trivial⟩
  · obtain ⟨⟨p₁, wpc⟩, hwarm, heq⟩ := Option.map_eq_some_iff.mp h
    cases heq
    rename_i run req _ _ _
    exact ⟨warmStep_effects { role := .exec, warm := some ⟨(c.key, run), req.dir⟩ }
      (.inl ⟨_, rfl, rfl, ok⟩) hwarm, ok⟩
  -- gate
  · split at h
    · rename_i hserialize
      cases h
      exact ⟨.refl, fun hs => by simp [hs] at hserialize⟩
    · split at h
      · cases h
      · rename_i hfree
        cases h
        rw [Pool.ledger_setRun]
        exact ⟨.single (.takeGate (e := (c.key, _)) rfl rfl (Bool.eq_false_of_not_eq_true hfree)),
          fun _ => rfl⟩
  · split at h
    · cases h
      exact ⟨.refl, trivial⟩
    · cases h
  -- held
  · split at h
    · cases h
      exact ⟨.refl, trivial⟩
    · cases h
      refine ⟨.single (.resume (.inl ⟨rfl, rfl, fun hserialize => ?_⟩)), trivial⟩
      simp only [ExecPc.stake, gateOf, ok hserialize]
      rfl
  -- resuming and running
  · cases h
    exact ⟨.refl, trivial⟩
  · cases h
    exact ⟨.refl, trivial⟩
  · cases h
    exact ⟨.refl, trivial⟩
  · cases h
    exact ⟨.refl, trivial⟩
  -- destroy
  · rename_i run vm gated out
    obtain ⟨live, inFlight⟩ := charged _ rfl
    have effects := Pool.destroyLocked_effects ((ExecPc.destroy run vm gated out).stake c.key) keys
      live inFlight rfl
    split at h
    · cases h
    · split at h
      · rename_i hreaper
        cases h
        exact ⟨effects, effects.frame.2.2.1.trans hreaper.2⟩
      · cases h
        exact ⟨effects, trivial⟩
  -- barrier
  · cases h
    exact ⟨.single (.barrier rfl), ok, by simp⟩
  · cases h
    exact ⟨.single (.callReap rfl rfl rfl ok), trivial⟩
  -- submit
  · split at h
    · cases h
    · rename_i r hreaper
      split at h
      · cases h
        exact ⟨.refl, ok⟩
      · rename_i hopen
        split at h
        · cases h
          rw [ExecPc.stake_afterTeardown]
          exact ⟨.single (.submit rfl rfl hreaper (Bool.eq_false_of_not_eq_true hopen) ok.2),
            ExecPc.ok_afterTeardown _ _ _ _ _ _⟩
        · cases h
          exact ⟨.single (.callReap rfl rfl rfl (Option.isSome_of_mem hreaper)), trivial⟩
  -- reaping, teardown and destroying
  · cases h
    rw [ExecPc.stake_afterTeardown]
    exact ⟨.single (.returnReap rfl), ExecPc.ok_afterTeardown _ _ _ _ _ _⟩
  · cases h
    exact ⟨.single (.callDestroyMine rfl rfl rfl), trivial⟩
  · cases h
    rw [ExecPc.stake_afterTeardown]
    exact ⟨.single (.returnDestroy rfl), ExecPc.ok_afterTeardown _ _ _ _ _ _⟩
  -- openGate
  · cases h
    rw [Pool.ledger_setRun]
    exact ⟨.single (.dropGate rfl rfl rfl), trivial⟩
  · cases h

/-- What a replenish callback relies on: its request is for the run it warms. -/
def ReplenishPc.Ok : ReplenishPc → Prop
  | .warming run req _ => req.run = some run
  | _ => True

/-- So does a step of the replenisher. -/
theorem replenishStep_effects {tm : Nat} {pc pc' : ReplenishPc}
    (keys : (p.runs.map Prod.fst).Nodup) (ok : pc.Ok)
    (h : replenishStep p key tm pc ch = some (p', pc')) :
    Effects (p.ledger, pc.stake key) (p'.ledger, pc'.stake key) ∧ pc'.Ok := by
  unfold replenishStep at h
  split at h
  -- forget
  · split at h
    · cases h
    · cases h
      rw [Pool.ledger_forgetPending]
      exact ⟨.refl, trivial⟩
  -- start
  · split at h
    · cases h
    · split at h
      · rename_i hnone
        cases h
        rw [Pool.ledger_of_replenishOneLocked_none hnone]
        exact ⟨.refl, trivial⟩
      · rename_i hsome
        cases h
        exact ⟨Pool.replenishOneLocked_effects keys hsome, rfl⟩
  -- warming
  · split at h
    · cases h
    · split at h
      · rename_i hsettle
        cases h
        exact ⟨Pool.settleReplenish_effects key _ hsettle, trivial⟩
      · rename_i hsettle
        cases h
        exact ⟨Pool.settleReplenish_effects key _ hsettle, trivial⟩
  · split at h
    · cases h
    · cases h
      exact ⟨p.settleReplenish_none_effects key _ _, trivial⟩
  · obtain ⟨⟨p₁, wpc⟩, hwarm, heq⟩ := Option.map_eq_some_iff.mp h
    cases heq
    rename_i run req _ _ _
    exact ⟨warmStep_effects
      { role := .replenish, warm := some ⟨(key, run), req.dir⟩, registered := true }
      (.inl ⟨_, rfl, rfl, ok⟩) hwarm, ok⟩
  -- draining
  · split at h
    · rename_i hfinished
      cases h
      simp only [ReplenishPc.stake, Drain.stake_of_finished hfinished]
      exact ⟨.refl, trivial⟩
    · obtain ⟨⟨p₁, d'⟩, hdrain, heq⟩ := Option.map_eq_some_iff.mp h
      cases heq
      exact ⟨drainStep_effects .replenish true hdrain, trivial⟩
  -- finish
  · cases h
    exact ⟨.single (.unregister rfl rfl rfl rfl), trivial⟩
  · cases h

theorem tickerStep_effects {pc pc' : TickerPc} (keys : (p.runs.map Prod.fst).Nodup)
    (h : tickerStep p me pc ch = some (p', pc')) :
    Effects (p.ledger, (Thread.ticker pc).stake) (p'.ledger, (Thread.ticker pc').stake) := by
  unfold tickerStep at h
  split at h
  · cases h
    exact .refl
  · obtain ⟨⟨p₁, spc⟩, hsweep, heq⟩ := Option.map_eq_some_iff.mp h
    cases heq
    exact sweepStep_effects keys (.inr rfl) hsweep
  · split at h
    · cases h
    · cases h
      rw [Pool.ledger_armTickerLocked]
      exact .refl
  · cases h

theorem reclaimStep_effects {pc pc' : ReclaimPc} (keys : (p.runs.map Prod.fst).Nodup)
    (h : reclaimStep p key pc ch = some (p', pc')) :
    Effects (p.ledger, (Thread.reclaim key pc).stake)
      (p'.ledger, (Thread.reclaim key pc').stake) := by
  unfold reclaimStep at h
  split at h
  · split at h
    · cases h
    · split at h
      rename_i hlocked
      cases h
      exact Pool.reclaimLocked_effects keys hlocked
  · split at h
    · rename_i hfinished
      cases h
      simp only [Thread.stake, Drain.stake_of_finished hfinished]
      exact .refl
    · obtain ⟨⟨p₁, d'⟩, hdrain, heq⟩ := Option.map_eq_some_iff.mp h
      cases heq
      exact drainStep_effects .reclaim false hdrain
  · cases h

/-- What a `Close` relies on: it returns without closing the pool only from a closed one. -/
def ClosePc.Ok (p : Pool) : ClosePc → Prop
  | .returned false => p.closed = true
  | _ => True

/-- So does a step of `Close`. -/
theorem closeStep_effects {pc pc' : ClosePc} (h : closeStep p pc ch = some (p', pc')) :
    Effects (p.ledger, pc.stake) (p'.ledger, pc'.stake) ∧ pc'.Ok p' := by
  unfold closeStep at h
  split at h
  -- lock
  · split at h
    · cases h
    · rename_i hguard
      cases h
      simp only [not_or, not_not] at hguard
      exact ⟨Pool.closeLocked_effects (Bool.eq_false_of_not_eq_true hguard.2.1) hguard.2.2, trivial⟩
  · split at h
    · rename_i hguard
      cases h
      exact ⟨.refl, hguard.2⟩
    · cases h
  -- waitWarms
  · split at h
    · rename_i hwarms
      cases h
      exact ⟨.single (.passWarms rfl hwarms), trivial⟩
    · cases h
  -- draining
  · split at h
    · rename_i hfinished
      cases h
      simp only [ClosePc.stake, Drain.stake_of_finished hfinished]
      exact ⟨.single (.passVictims rfl rfl rfl), trivial⟩
    · obtain ⟨⟨p₁, d'⟩, hdrain, heq⟩ := Option.map_eq_some_iff.mp h
      cases heq
      exact ⟨drainStep_effects (.closer 2) false hdrain, trivial⟩
  -- closeQueue, waitReclaim, closeReaper, waitReaper
  · cases h
    exact ⟨.single (.closeQueue rfl), trivial⟩
  · split at h
    · rename_i hdone
      cases h
      exact ⟨.single (.passLoop rfl hdone), trivial⟩
    · cases h
  · cases h
    exact ⟨.single (.closeReaper rfl), trivial⟩
  · split at h
    · rename_i hdone
      cases h
      refine ⟨.single (.passReaper rfl fun r hr => ?_), trivial⟩
      have hall := hdone
      unfold Pool.reaperDone at hall
      rw [show p.reaper = some r from hr] at hall
      simpa using hall
    · cases h
  · cases h

theorem loopStep_effects {pc pc' : LoopPc} (h : loopStep p pc ch = some (p', pc')) :
    Effects (p.ledger, (Thread.reclaimLoop pc).stake)
      (p'.ledger, (Thread.reclaimLoop pc').stake) := by
  unfold loopStep at h
  split at h
  · split at h
    · rename_i hqueue
      cases h
      exact .single (.dequeue (Stake.idle_of_role _) rfl hqueue)
    · rename_i hqueue
      split at h
      · rename_i hclosed
        cases h
        exact .single (.loopExit (Stake.idle_of_role _) rfl hqueue hclosed)
      · cases h
  · split at h
    · rename_i hfinished
      cases h
      simp only [Thread.stake, Drain.stake_of_finished hfinished]
      exact .refl
    · obtain ⟨⟨p₁, d'⟩, hdrain, heq⟩ := Option.map_eq_some_iff.mp h
      cases heq
      exact drainStep_effects (.loop false) false hdrain
  · cases h

theorem workerStep_effects {pc pc' : WorkerPc} (h : workerStep p pc ch = some (p', pc')) :
    Effects (p.ledger, (Thread.reapWorker pc).stake)
      (p'.ledger, (Thread.reapWorker pc').stake) := by
  unfold workerStep at h
  split at h
  · split at h
    · cases h
    · rename_i r hreaper
      split at h
      · rename_i hqueue
        cases h
        exact .single (.workerTake (Stake.idle_of_role _) rfl hreaper hqueue)
      · rename_i hqueue
        split at h
        · rename_i hclosed
          cases h
          exact .single (.workerExit (Stake.idle_of_role _) rfl hreaper hqueue hclosed)
        · cases h
  · cases h
    exact .single (.returnReap rfl)
  · cases h

/-- What a `Probe` relies on: its request is for the probe's directory and for no run. -/
def ProbePc.Ok (p : Pool) : ProbePc → Prop
  | .warming req pc => req.dir = probeDir p.cfg ∧ req.run = none ∧ ∀ vm ∈ pc.vms, vm.run = none
  | .resume vm => vm.run = none
  | _ => True

theorem warmStep_run {req : RestoreRequest} {pc pc' : WarmPc}
    (h : warmStep p req pc ch = some (p', pc')) : ∀ vm ∈ pc'.vms, vm.run = req.run := by
  unfold warmStep at h
  split at h
  · cases h
    simp [WarmPc.vms]
  · cases h
    simp [WarmPc.vms]
  · obtain ⟨inode, -, heq⟩ := Option.map_eq_some_iff.mp h
    cases heq
    simp [WarmPc.vms, Pool.restore]
  · obtain ⟨inode, -, heq⟩ := Option.map_eq_some_iff.mp h
    cases heq
    simp [WarmPc.vms, Pool.restore]
  · cases h
    simp [WarmPc.vms]
  · cases h

theorem probeStep_effects {pc pc' : ProbePc} (ok : pc.Ok p)
    (h : probeStep p pc ch = some (p', pc')) :
    Effects (p.ledger, pc.stake) (p'.ledger, pc'.stake) ∧ (p'.cfg = p.cfg → pc'.Ok p') := by
  unfold probeStep at h
  split at h
  -- lock
  · split at h
    · cases h
    · split at h
      · cases h
        exact ⟨.refl, fun _ => trivial⟩
      · cases h
        exact ⟨.refl, fun _ => ⟨rfl, rfl, by simp [WarmPc.vms]⟩⟩
  -- warming
  · cases h
    exact ⟨.refl, fun _ => ok.2.2 _ (by simp [WarmPc.vms])⟩
  · cases h
    exact ⟨.refl, fun _ => trivial⟩
  · obtain ⟨⟨p₁, wpc⟩, hwarm, heq⟩ := Option.map_eq_some_iff.mp h
    cases heq
    obtain ⟨hdir, hrun, -⟩ := ok
    refine ⟨warmStep_effects { role := .probe }
      (.inr ⟨rfl, rfl, hdir, hrun⟩) hwarm, fun hcfg => ⟨?_, hrun, ?_⟩⟩
    · rw [hcfg, hdir]
    · intro vm hvm
      rw [warmStep_run hwarm vm hvm, hrun]
  -- resume and running
  · cases h
    exact ⟨.single (.resume (.inr ⟨rfl, rfl, ok⟩)), fun _ => trivial⟩
  · cases h
    exact ⟨.single (.probeDone rfl rfl), fun _ => trivial⟩
  · cases h
    exact ⟨.single (.probeDone rfl rfl), fun _ => trivial⟩
  -- draining
  · split at h
    · rename_i hfinished
      cases h
      simp only [ProbePc.stake, Drain.stake_of_finished hfinished]
      exact ⟨.refl, fun _ => trivial⟩
    · obtain ⟨⟨p₁, d'⟩, hdrain, heq⟩ := Option.map_eq_some_iff.mp h
      cases heq
      exact ⟨drainStep_effects .probe false hdrain, fun _ => trivial⟩
  · cases h

/-! ## The refinement -/

/-- What a goroutine relies on. -/
def Thread.Ok (p : Pool) : Thread → Prop
  | .exec c pc => pc.Ok p c
  | .replenish _ _ pc => pc.Ok
  | .close pc => pc.Ok p
  | .probe pc => pc.Ok p
  | _ => True

theorem Thread.Ok.of_frame (ok : t.Ok p) (cfg : p'.cfg = p.cfg)
    (serialize : p'.serialize = p.serialize) (reaper : p'.reaper.isSome = p.reaper.isSome)
    (barriers : p.hist.barriers ⊆ p'.hist.barriers) (closed : p.closed = true → p'.closed = true) :
    t.Ok p' := by
  cases t with
  | exec c pc =>
    cases pc with
    | held run vm gated =>
      intro hserialize
      rw [serialize] at hserialize
      exact ok hserialize
    | barrier => exact reaper.trans ok
    | submit => exact ⟨reaper.trans ok.1, barriers ok.2⟩
    | _ => exact ok
  | probe pc =>
    cases pc with
    | warming req pc => exact ⟨by rw [cfg]; exact ok.1, ok.2⟩
    | _ => exact ok
  | close pc =>
    cases pc with
    | returned closer =>
      cases closer with
      | false => exact closed ok
      | true => trivial
    | _ => trivial
  | _ => exact ok

/-- INTERNAL: **every step of a goroutine is zero or more effects on the ledger**, and keeps
what the goroutine relies on. -/
theorem threadStep_effects {t' : Thread} {l : List Stake} (b : Books p.ledger l)
    (ht : t.stake ∈ l) (ok : t.Ok p) (h : threadStep p me t ch = some (p', t')) :
    Effects (p.ledger, t.stake) (p'.ledger, t'.stake) ∧ t'.Ok p' := by
  have keys : (p.runs.map Prod.fst).Nodup := b.keys
  unfold threadStep at h
  split at h
  · cases h
    exact ⟨.refl, trivial⟩
  · obtain ⟨⟨p₁, pc'⟩, hstep, heq⟩ := Option.map_eq_some_iff.mp h
    cases heq
    exact ⟨sweepStep_effects keys (.inl rfl) hstep, trivial⟩
  · obtain ⟨⟨p₁, c', pc'⟩, hstep, heq⟩ := Option.map_eq_some_iff.mp h
    cases heq
    exact execStep_effects keys ok (fun e he => b.charge_live ht he) hstep
  · obtain ⟨⟨p₁, pc'⟩, hstep, heq⟩ := Option.map_eq_some_iff.mp h
    cases heq
    exact replenishStep_effects keys ok hstep
  · obtain ⟨⟨p₁, pc'⟩, hstep, heq⟩ := Option.map_eq_some_iff.mp h
    cases heq
    exact ⟨tickerStep_effects keys hstep, trivial⟩
  · obtain ⟨⟨p₁, pc'⟩, hstep, heq⟩ := Option.map_eq_some_iff.mp h
    cases heq
    exact ⟨reclaimStep_effects keys hstep, trivial⟩
  · obtain ⟨⟨p₁, pc'⟩, hstep, heq⟩ := Option.map_eq_some_iff.mp h
    cases heq
    exact closeStep_effects hstep
  · obtain ⟨⟨p₁, pc'⟩, hstep, heq⟩ := Option.map_eq_some_iff.mp h
    cases heq
    exact ⟨loopStep_effects hstep, trivial⟩
  · obtain ⟨⟨p₁, pc'⟩, hstep, heq⟩ := Option.map_eq_some_iff.mp h
    cases heq
    exact ⟨workerStep_effects hstep, trivial⟩
  · obtain ⟨⟨p₁, pc'⟩, hstep, heq⟩ := Option.map_eq_some_iff.mp h
    cases heq
    obtain ⟨effects, ok'⟩ := probeStep_effects ok hstep
    exact ⟨effects, ok' effects.frame.1⟩

/-- What every goroutine of a system relies on. -/
def Sys.Ok (s : Sys) : Prop := ∀ t ∈ s.threads, t.Ok s.pool

theorem Sys.ledger_spawn (s : Sys) (t : Thread) :
    (s.spawn t).ledger = (s.ledger.1, s.ledger.2 ++ [t.stake]) := by
  simp [Sys.spawn, Sys.ledger]

theorem Sys.spawn_refines (ok : s.Ok) (joins : Joins t.stake) (hok : t.Ok s.pool) :
    Relation.ReflTransGen ledgerSystem.next s.ledger (s.spawn t).ledger ∧ (s.spawn t).Ok := by
  refine ⟨?_, ?_⟩
  · rw [Sys.ledger_spawn]
    exact .single (.join joins)
  · exact forall_mem_concat ok hok

theorem Sys.updateCall_refines {s' : Sys} {i : Nat} {f : ExecCall → Option ExecCall} (ok : s.Ok)
    (hf : ∀ c c', f c = some c' → c'.key = c.key) (h : s.updateCall i f = some s') :
    s'.ledger = s.ledger ∧ s'.Ok := by
  unfold Sys.updateCall at h
  split at h
  · rename_i c pc hi
    obtain ⟨c', hc', heq⟩ := Option.map_eq_some_iff.mp h
    cases heq
    have hkey := hf c c' hc'
    refine ⟨?_, forall_mem_set ok ?_⟩
    · have hstake : (Thread.exec c' pc).stake = (Thread.exec c pc).stake := by
        simp only [Thread.stake, hkey]
      simp only [Sys.ledger, List.map_set, hstake]
      congr 1
      exact set_map_self Thread.stake hi
    · have := ok _ (List.mem_of_getElem? hi)
      cases pc with
      | acquire | waitSettled => exact (congrArg validKey hkey).trans this
      | _ => exact this
  · cases h

/-- A step of the pool is a run of the ledger. -/
theorem sysStep_refines {s' : Sys} {a : Action} (hA : Reachable ledgerSystem s.ledger) (ok : s.Ok)
    (h : sysStep s a = some s') :
    Relation.ReflTransGen ledgerSystem.next s.ledger s'.ledger ∧ s'.Ok := by
  unfold sysStep at h
  split at h
  · cases h
  · split at h
    -- new calls
    · cases h
      exact Sys.spawn_refines ok ⟨.inl rfl⟩ trivial
    · cases h
      exact Sys.spawn_refines ok ⟨by simp⟩ trivial
    · cases h
      exact Sys.spawn_refines ok ⟨by simp⟩ trivial
    · cases h
      exact Sys.spawn_refines ok ⟨by simp⟩ trivial
    -- the clock
    · cases h
      exact ⟨.refl, fun t ht => (ok t ht).of_frame rfl rfl rfl (List.Subset.refl _) id⟩
    -- timers
    · split at h
      · cases h
        exact Sys.spawn_refines (s := { s with pool := _ })
          (fun t ht => (ok t ht).of_frame rfl rfl rfl (List.Subset.refl _) id) ⟨by simp⟩ trivial
      · cases h
    · split at h
      · cases h
      · split at h
        · cases h
          exact Sys.spawn_refines (s := { s with pool := _ })
            (fun t ht => (ok t ht).of_frame rfl rfl rfl (List.Subset.refl _) id) ⟨by simp⟩ trivial
        · cases h
    -- contexts
    · obtain ⟨hledger, hok⟩ := Sys.updateCall_refines ok (by grind) h
      exact ⟨hledger ▸ .refl, hok⟩
    · obtain ⟨hledger, hok⟩ := Sys.updateCall_refines ok (by grind) h
      exact ⟨hledger ▸ .refl, hok⟩
    -- a goroutine
    · split at h
      · cases h
      · rename_i i ch _ t hi
        obtain ⟨⟨p', t'⟩, hstep, heq⟩ := Option.map_eq_some_iff.mp h
        cases heq
        have ht : t ∈ s.threads := List.mem_of_getElem? hi
        obtain ⟨effects, hok⟩ := threadStep_effects (books_of_reachable hA)
          (List.mem_map_of_mem ht) (ok t ht) hstep
        obtain ⟨cfg, serialize, reaper, barriers, closed⟩ := effects.frame
        refine ⟨?_, forall_mem_set
          (fun x hx => (ok x hx).of_frame cfg serialize reaper barriers closed) hok⟩
        have acts := Interleave.acts Joins (l := s.threads.map Thread.stake) (i := i) (by simp [hi])
          effects
        simp only [Sys.ledger, List.map_set]
        exact acts

/-- A new pool is an initial ledger. -/
theorem newPool_refines {cfg : Config} {lc : Launcher} {now : Int} {dirs : DirTree}
    (h : newPool cfg lc now dirs = .ok s) : LedgerInit s.ledger ∧ s.Ok := by
  unfold newPool at h
  split at h
  · cases h
  · rename_i cfg' _
    split at h
    · cases h
    · split at h
      · cases h
      · cases h
        refine ⟨⟨rfl, rfl, rfl, fun _ => ⟨rfl, rfl⟩, rfl, rfl, rfl, rfl, rfl, ?_, rfl, ?_⟩, ?_⟩
        · intro r hr
          have hr : newReaper cfg'.deferReapWorkers = some r := hr
          unfold newReaper at hr
          split at hr
          · cases hr
          · cases hr
            refine ⟨rfl, rfl, ?_⟩
            dsimp only
            omega
        · have hcount : (newReaper cfg'.deferReapWorkers).elim 0 Reaper.running =
              cfg'.deferReapWorkers.toNat := by
            unfold newReaper
            split
            · simp only [Option.elim_none]
              omega
            · rfl
          simp only [Sys.ledger, List.map_cons, List.map_replicate]
          exact congrArg (fun n => _ :: List.replicate n _) hcount.symm
        · intro t ht
          rcases List.mem_cons.mp ht with rfl | ht
          · trivial
          · rw [List.eq_of_mem_replicate ht]
            trivial

/-- INTERNAL: **the pool refines the ledger**. -/
theorem pool_refines (cfg : Config) (lc : Launcher) :
    Refines (poolSystem cfg lc) ledgerSystem Sys.ledger Sys.Ok where
  init := fun _ ⟨_, _, h⟩ => newPool_refines h
  step := fun _ _ hA ok ⟨_, h⟩ => sysStep_refines hA ok h

end ServerlessHarness.VmPool
