import ServerlessHarness.Interface.VmPool.Counts
import ServerlessHarness.Interface.VmPool.Observations

/-!
# What the counters say

Each `acquire` adds at most one to the warm and cold acquires (`acquire_counted_once`): the
variable `counted` is set with the first cold turn, so a later turn that finds a standby adds
nothing. The failed destroys are counted one by one (`failures_counted`), but for those of the
reaper's `run`, which logs the error and goes on.
-/

set_option autoImplicit false

namespace ServerlessHarness.VmPool

open Library

/-! ## Acquires -/

/-- The warm acquires that the goroutine has counted or is about to count. -/
def Notes.warmDue (n : Notes) : Nat := n.tally.warm + if n.owed = some .warmAcquire then 1 else 0

/-- The notes while `acquire` has not returned: it holds no VM, and its cold acquire is counted when
`counted` says so. -/
structure Notes.Open (n : Notes) : Prop where
  vm : n.tally.vm = none
  took : n.tally.took = none
  warm : n.warmDue = 0
  cold : n.tally.cold = if n.locals.counted then 1 else 0

/-- The notes once `acquire` is past its loop. -/
structure Notes.Final (n : Notes) : Prop where
  once : n.warmDue + n.tally.cold ≤ 1
  vm : n.tally.vm.isSome = true → n.warmDue + n.tally.cold = 1
  warm : n.warmDue = 1 ↔ n.tally.took = some 1

/-- What the notes of a goroutine say, by how far its `Exec` got. -/
def Thread.Noted (n : Notes) : Thread → Prop
  | .exec _ (.sweep _) | .exec _ .checkKey =>
    n.Open ∧ n.locals.counted = false ∧ n.tally.turns = 0
  | .exec _ .acquire => n.Open ∧ (n.locals.counted = true ↔ 0 < n.tally.turns)
  | .exec _ (.waitSettled _ _) | .exec _ (.warming _ _ _) =>
    n.Open ∧ n.locals.counted = true ∧ 0 < n.tally.turns
  | .exec c pc => n.Final ∧ ∀ vm, (Thread.exec c pc).heldVM = some vm → n.tally.vm = some vm
  | _ => True

variable {n : Notes} {t : Thread} {c : ExecCall} {cfg : Config} {lc : Launcher} {pc : ExecPc}
  {s : Counted} {vm : VM}

theorem Notes.Open.once (h : n.Open) : n.warmDue + n.tally.cold ≤ 1 := by
  rw [h.warm, h.cold]
  split
  · exact le_refl _
  · exact Nat.zero_le _

theorem Notes.Open.final (h : n.Open) : n.Final where
  once := h.once
  vm := by
    intro hvm
    rw [h.vm] at hvm
    cases hvm
  warm := by
    rw [h.warm, h.took]
    exact ⟨(fun hwarm => nomatch hwarm), (fun htook => nomatch htook)⟩

/-- The notes say the same about `acquire`. -/
structure Notes.Agrees (n n' : Notes) : Prop where
  counted : n'.locals.counted = n.locals.counted
  turns : n'.tally.turns = n.tally.turns
  vm : n'.tally.vm = n.tally.vm
  took : n'.tally.took = n.tally.took
  warm : n'.warmDue = n.warmDue
  cold : n'.tally.cold = n.tally.cold

section Agrees

variable {n n' : Notes}

theorem Notes.Agrees.open (h : n.Agrees n') (hn : n.Open) : n'.Open where
  vm := h.vm.trans hn.vm
  took := h.took.trans hn.took
  warm := h.warm.trans hn.warm
  cold := by
    rw [h.cold, h.counted]
    exact hn.cold

theorem Notes.Agrees.final (h : n.Agrees n') (hn : n.Final) : n'.Final where
  once := by
    rw [h.warm, h.cold]
    exact hn.once
  vm := by
    rw [h.vm, h.warm, h.cold]
    exact hn.vm
  warm := by
    rw [h.warm, h.took]
    exact hn.warm

theorem Notes.Agrees.noted (h : n.Agrees n') (hn : t.Noted n) : t.Noted n' := by
  unfold Thread.Noted at hn ⊢
  rw [h.counted, h.turns, h.vm]
  split at hn
  · exact ⟨h.open hn.1, hn.2⟩
  · exact ⟨h.open hn.1, hn.2⟩
  · exact ⟨h.open hn.1, hn.2⟩
  · exact ⟨h.open hn.1, hn.2⟩
  · exact ⟨h.open hn.1, hn.2⟩
  · exact ⟨h.final hn.1, hn.2⟩
  · trivial

theorem agrees_paid {o : Owed} (howed : n.owed = some o) : n.Agrees (n.paid o) := by
  cases o with
  | warmAcquire =>
    refine ⟨rfl, rfl, rfl, rfl, ?_, rfl⟩
    show n.tally.warm + 1 + 0 = _
    rw [Notes.warmDue, if_pos howed]
  | destroyFailed =>
    refine ⟨rfl, rfl, rfl, rfl, ?_, rfl⟩
    show n.tally.warm + 0 = _
    rw [Notes.warmDue, howed, if_neg (fun h => nomatch h)]

end Agrees

theorem after_agrees (howed : n.owed = none) (p : Pool) (ch : Choice)
    (hacquire : ∀ c, t ≠ .exec c .acquire)
    (hrestored : ∀ c run req vm, t ≠ .exec c (.warming run req (.restored vm))) :
    n.Agrees (n.after p ch t) := by
  unfold Notes.after
  split
  · exact absurd rfl (hacquire _)
  · exact absurd rfl (hrestored _ _ _ _)
  · exact ⟨rfl, rfl, rfl, rfl, rfl, rfl⟩
  · split
    · refine ⟨rfl, rfl, rfl, rfl, ?_, rfl⟩
      unfold Notes.warmDue
      rw [howed, if_neg (fun h => nomatch h), if_neg (fun h => nomatch h)]
    · exact ⟨rfl, rfl, rfl, rfl, rfl, rfl⟩

section Turn

variable {n : Notes} {t : Turn}

theorem Notes.Open.warm_eq (h : n.Open) : n.tally.warm = 0 := by
  have hdue := h.warm
  unfold Notes.warmDue at hdue
  omega

theorem Notes.Open.turn (h : n.Open) (acquired : ∀ run vm, t.acquired ≠ .warm run vm)
    (warm : t.warm = false)
    (cold : n.tally.cold + t.cold.toList.length = if t.locals.counted then 1 else 0) :
    (n.turn t).Open where
  vm := by
    unfold Notes.turn Tally.turn
    dsimp only
    split
    · rename_i run vm hacq
      exact absurd hacq (acquired run vm)
    · exact h.vm
  took := by
    unfold Notes.turn Tally.turn
    dsimp only
    split
    · rename_i run vm hacq
      exact absurd hacq (acquired run vm)
    · exact h.took
  warm := by simp [Notes.warmDue, Notes.turn, Tally.turn, warm, h.warm_eq]
  cold := cold

theorem Notes.Open.turn_warm {run : Nat} (h : n.Open)
    (hcounted : n.locals.counted = true ↔ 0 < n.tally.turns)
    (acquired : t.acquired = .warm run vm) (cold : t.cold = none)
    (warm : t.warm = !n.locals.counted) : (n.turn t).Final := by
  have hcold := h.cold
  cases hcount : n.locals.counted with
  | false =>
    have hturns : n.tally.turns = 0 := by
      have hpos := hcounted.not.mp (by rw [hcount]; exact Bool.false_ne_true)
      omega
    rw [hcount] at hcold warm
    constructor
    · simp [Notes.warmDue, Notes.turn, Tally.turn, warm, h.warm_eq, cold, hcold]
    · simp [Notes.warmDue, Notes.turn, Tally.turn, warm, h.warm_eq, cold, hcold]
    · simp [Notes.warmDue, Notes.turn, Tally.turn, warm, h.warm_eq, acquired, hturns]
  | true =>
    have hturns := hcounted.mp hcount
    rw [hcount] at hcold warm
    constructor
    · simp [Notes.warmDue, Notes.turn, Tally.turn, warm, h.warm_eq, cold, hcold]
    · simp [Notes.warmDue, Notes.turn, Tally.turn, warm, h.warm_eq, cold, hcold]
    · simp [Notes.warmDue, Notes.turn, Tally.turn, warm, h.warm_eq, acquired]
      omega

end Turn

/-- INTERNAL: **one turn of the loop**. -/
theorem noted_of_turn (p : Pool) (ch : Choice) (h : (Thread.exec c .acquire).Noted n) :
    (Thread.exec c (.ofAcquired c (p.acquireLocked c.key).1)).Noted
      (n.after p ch (.exec c .acquire)) := by
  obtain ⟨hopen, hcounted⟩ := h
  have hacquired := congrArg Prod.fst (acquireTurn_eq p c.key n.locals)
  rw [← hacquired]
  show Thread.Noted (n.turn (p.acquireTurn c.key n.locals)) _
  have hmoves := acquireTurn_moves p c.key n.locals
  generalize p.acquireTurn c.key n.locals = t at hmoves ⊢
  dsimp only
  cases hmoves with
  | early acquired locals cold warm =>
    have hnone : ∀ run vm, t.acquired ≠ .warm run vm := by
      intro run vm heq
      rcases acquired with hacq | ⟨e, hacq⟩
      · exact nomatch hacq.symm.trans heq
      · exact nomatch hacq.symm.trans heq
    have hafter : (n.turn t).Open := by
      refine hopen.turn hnone warm ?_
      rw [cold, locals]
      exact hopen.cold
    rcases acquired with hacq | ⟨e, hacq⟩
    · rw [hacq]
      exact ⟨hafter.final, fun vm hvm => nomatch hvm⟩
    · rw [hacq]
      exact ⟨hafter.final, fun vm hvm => nomatch hvm⟩
  | @warm run vm acquired locals cold warm =>
    rw [acquired]
    refine ⟨hopen.turn_warm hcounted acquired cold warm, ?_⟩
    intro held hheld
    cases hheld
    simp [Notes.turn, Tally.turn, acquired]
  | cold acquired locals cold warm =>
    have hafter : (n.turn t).Open := by
      refine hopen.turn acquired warm ?_
      rw [locals, if_pos rfl, hopen.cold]
      cases hcount : n.locals.counted with
      | false =>
        rw [hcount] at cold
        obtain ⟨cause, hcause⟩ := Option.isSome_iff_exists.mp cold
        rw [hcause]
        rfl
      | true =>
        rw [hcount] at cold
        have hnone : t.cold = none :=
          Option.not_isSome_iff_eq_none.mp (by rw [cold]; exact Bool.false_ne_true)
        rw [hnone]
        rfl
    cases hacq : t.acquired with
    | warm run vm => exact absurd hacq (acquired run vm)
    | closed | refused => exact ⟨hafter.final, fun vm hvm => nomatch hvm⟩
    | wait | cold => exact ⟨hafter, locals, Nat.succ_pos _⟩

theorem noted_of_settleCold (p : Pool) {run : Nat} {req : RestoreRequest} (ch : Choice)
    (h : (Thread.exec c (.warming run req (.restored vm))).Noted n) :
    (Thread.exec c (.gate run vm)).Noted
      (n.after p ch (.exec c (.warming run req (.restored vm)))) := by
  obtain ⟨hopen, hcounted, -⟩ := h
  have hcold := hopen.cold
  rw [hcounted, if_pos rfl] at hcold
  show Thread.Noted { n with tally := { n.tally with vm := some vm } } _
  have hwarm : ({ n with tally := { n.tally with vm := some vm } } : Notes).warmDue = 0 :=
    hopen.warm
  refine ⟨⟨?_, ?_, ?_⟩, ?_⟩
  · show _ + n.tally.cold ≤ 1
    omega
  · intro _
    show _ + n.tally.cold = 1
    omega
  · rw [hwarm, hopen.took]
    exact ⟨(fun hwarm => nomatch hwarm), (fun htook => nomatch htook)⟩
  · intro held hheld
    cases hheld
    rfl

theorem noted_of_tearing (c : ExecCall) {x : Nat × Bool × Option ExecOutcome}
    (htear : pc.tearing = some x) : (Thread.exec c pc).Noted n ↔ n.Final := by
  have hnone : ∀ vm, (none : Option VM) = some vm → n.tally.vm = some vm := fun _ hvm => nomatch hvm
  cases pc with
  | barrier | submit | reaping | teardown | destroying => exact ⟨And.left, fun h => ⟨h, hnone⟩⟩
  | _ => cases htear

theorem noted_of_execMove {p p' : Pool} {c' : ExecCall} {pc' : ExecPc} {ch : Choice}
    (hacquire : pc ≠ .acquire) (hrestored : ∀ run req vm, pc ≠ .warming run req (.restored vm))
    (h : (Thread.exec c pc).Noted n) (hmove : ExecMove p c pc ch p' c' pc') :
    (Thread.exec c' pc').Noted n := by
  cases hmove with
  | sweep | swept | warm | passGate | takeGate | leaveGate | mismatch | resume | resumed
  | resumeFailed | ran => exact h
  | reject | leaveWait | settleFailed => exact ⟨h.1.final, fun _ hvm => nomatch hvm⟩
  | accept =>
    refine ⟨h.1, ?_⟩
    rw [h.2.1, h.2.2]
    exact ⟨(fun hcounted => nomatch hcounted), (fun hturns => nomatch hturns)⟩
  | acquire => exact absurd rfl hacquire
  | settled => exact ⟨h.1, iff_of_true h.2.1 h.2.2⟩
  | settleCold => exact absurd rfl (hrestored _ _ _)
  | destroy htear => exact (noted_of_tearing c htear).mpr h.1
  | tear htear htear' => exact (noted_of_tearing c htear').mpr ((noted_of_tearing c htear).mp h)
  | @torn run gated out _ _ _ htear =>
    have hfinal := (noted_of_tearing c htear).mp h
    unfold ExecPc.afterTeardown
    split
    · exact ⟨hfinal, fun _ hvm => nomatch hvm⟩
    · exact ⟨hfinal, fun _ hvm => nomatch hvm⟩
  | openGate => exact ⟨h.1, fun _ hvm => nomatch hvm⟩

theorem noted_of_threadStep {p p' : Pool} {i : Nat} {t' : Thread} {ch : Choice}
    (howed : n.owed = none) (h : t.Noted n) (hstep : threadStep p i t ch = some (p', t')) :
    t'.Noted (n.after p ch t) := by
  have hother : ∀ {t' : Thread} {n : Notes}, t'.serves = false → t'.Noted n := by
    intro t' n hserves
    cases t' with
    | exec => cases hserves
    | _ => trivial
  cases threadStep_moves hstep with
  | @exec c c' pc pc' _ _ hmove =>
    by_cases hacquire : pc = .acquire
    · subst hacquire
      cases hmove with
      | acquire => exact noted_of_turn p .go h
      | tear htear => cases htear
      | torn htear => cases htear
    · by_cases hrestored : ∃ run req vm, pc = .warming run req (.restored vm)
      · obtain ⟨run, req, vm, rfl⟩ := hrestored
        cases hmove with
        | warm hwarm => cases ch <;> cases hwarm
        | settleCold => exact noted_of_settleCold p .go h
        | tear htear => cases htear
        | torn htear => cases htear
      · have hne : ∀ run req vm, pc ≠ .warming run req (.restored vm) :=
          fun run req vm heq => hrestored ⟨run, req, vm, heq⟩
        refine (after_agrees howed p ch ?_ ?_).noted (noted_of_execMove hacquire hne h hmove)
        · intro _ heq
          exact hacquire (Thread.exec.inj heq).2
        · intro _ run req vm heq
          exact hne run req vm (Thread.exec.inj heq).2
  | replenish => trivial
  | sweep _ hserves => exact hother hserves
  | reclaim _ hserves => exact hother hserves
  | close hserves => exact hother hserves

theorem noted_of_starting (h : t.starting = true) : t.Noted .fresh := by
  have hopen : Notes.Open .fresh := ⟨rfl, rfl, rfl, rfl⟩
  unfold Thread.starting at h
  split at h
  · exact ⟨hopen, rfl, rfl⟩
  · trivial
  · trivial
  · trivial
  · trivial
  · trivial
  · cases h

theorem noted_of_contexts {c' : ExecCall} (h : (Thread.exec c pc).Noted n) :
    (Thread.exec c' pc).Noted n := by
  cases pc with
  | _ => exact h

theorem noted_of_newPool {now : Int} {dirs : DirTree} {sys : Sys}
    (h : newPool cfg lc now dirs = .ok sys) (ht : t ∈ sys.threads) : t.Noted .fresh := by
  unfold newPool at h
  split at h
  · cases h
  · split at h
    · cases h
    · split at h
      · cases h
      · cases h
        rcases List.mem_cons.mp ht with rfl | ht
        · trivial
        · rw [List.eq_of_mem_replicate ht]
          trivial

/-- INTERNAL: **the notes of every goroutine are right**. -/
theorem noted_of_counted (h : Reachable (countedSystem cfg lc) s) :
    ∀ (i : Nat) (t : Thread) (n : Notes), s.sys.threads[i]? = some t → s.notes[i]? = some n →
      t.Noted n := by
  induction h with
  | init h =>
    obtain ⟨now, dirs, sys, hnew, rfl⟩ := h
    intro i t n hi hn
    rw [List.eq_of_mem_replicate (List.mem_of_getElem? hn)]
    exact noted_of_newPool hnew (List.mem_of_getElem? hi)
  | @step s s' hs hnext ih =>
    obtain ⟨a, ha⟩ := hnext
    intro j u m hj hm
    cases countStep_moves ha with
    | @pay i ch n o hn howed =>
      by_cases hij : i = j
      · subst hij
        have hm' : some m = some (n.paid o) := by
          rw [← hm]
          exact List.getElem?_set_self (List.getElem?_eq_some_iff.mp hn).1
        cases hm'
        exact (agrees_paid howed).noted (ih _ _ _ hj hn)
      · refine ih j u m hj ?_
        rw [← hm]
        exact (List.getElem?_set_ne hij).symm
    | @run i ch n t t' p' hn howed hi hstep =>
      by_cases hij : i = j
      · subst hij
        have hm' : some m = some (n.after s.sys.pool ch t) := by
          rw [← hm]
          exact List.getElem?_set_self (List.getElem?_eq_some_iff.mp hn).1
        have hj' : some u = some t' := by
          rw [← hj]
          exact List.getElem?_set_self (List.getElem?_eq_some_iff.mp hi).1
        cases hm'
        cases hj'
        exact noted_of_threadStep howed (ih _ _ _ hi hn) hstep
      · refine ih j u m ?_ ?_
        · rw [← hj]
          exact (List.getElem?_set_ne hij).symm
        · rw [← hm]
          exact (List.getElem?_set_ne hij).symm
    | @other _ sys hrun hstep =>
      have hlength := length_notes hs
      have hold : j < s.sys.threads.length → s.notes[j]? = some m := by
        intro hlt
        rw [← hm]
        exact (List.getElem?_append_left (hlength ▸ hlt)).symm
      have hset : ∀ {c c' : ExecCall} {pc : ExecPc} {i : Nat},
          s.sys.threads[i]? = some (.exec c pc) →
            (s.sys.threads.set i (.exec c' pc))[j]? = some u → u.Noted m := by
        intro c c' pc i hi hj
        have hlt : j < s.sys.threads.length := by
          rw [← List.length_set]
          exact (List.getElem?_eq_some_iff.mp hj).1
        by_cases hij : i = j
        · subst hij
          rw [List.getElem?_set_self hlt] at hj
          cases hj
          exact noted_of_contexts (ih _ _ _ hi (hold hlt))
        · rw [List.getElem?_set_ne hij] at hj
          exact ih _ _ _ hj (hold hlt)
      cases sysStep_moves hstep with
      | clock => exact ih j u m hj (hold (List.getElem?_eq_some_iff.mp hj).1)
      | @spawn _ t _ _ _ hstarting =>
        rcases Nat.lt_or_ge j s.sys.threads.length with hlt | hge
        · refine ih j u m ?_ (hold hlt)
          rw [← hj]
          exact (List.getElem?_append_left hlt).symm
        · have hm' : (s.notes ++ List.replicate _ Notes.fresh)[j]? = some m := hm
          have hj' : (s.sys.threads ++ [t])[j]? = some u := hj
          rw [List.getElem?_append_right (hlength ▸ hge)] at hm'
          rw [List.getElem?_append_right hge] at hj'
          rw [List.eq_of_mem_replicate (List.mem_of_getElem? hm'),
            List.eq_of_mem_singleton (List.mem_of_getElem? hj')]
          exact noted_of_starting hstarting
      | expire hi => exact hset hi hj
      | cancel hi => exact hset hi hj
      | run => exact absurd rfl (hrun _ _)

/-! ## The counters are the sums -/

theorem coldTotal_coldAcquire (n : Counters) (cause : ColdCause) :
    (n.coldAcquire cause).coldTotal = n.coldTotal + 1 := by
  cases cause with
  | firstExec | parked | exhausted =>
    simp [Counters.coldTotal, Counters.coldAcquire]
    omega

theorem tally_warm_after (n : Notes) (p : Pool) (ch : Choice) (t : Thread) :
    (n.after p ch t).tally.warm = n.tally.warm := by
  unfold Notes.after
  split
  · rfl
  · rfl
  · rfl
  · split
    · rfl
    · rfl

theorem tally_cold_after (n : Notes) (m : Counters) (p : Pool) (ch : Choice) (t : Thread) :
    (n.after p ch t).tally.cold + m.coldTotal = n.tally.cold +
      (m.after p n.locals t).coldTotal := by
  unfold Notes.after
  split
  · rename_i c
    show n.tally.cold + (p.acquireTurn c.key n.locals).cold.toList.length + m.coldTotal =
      n.tally.cold + ((p.acquireTurn c.key n.locals).cold.elim m m.coldAcquire).coldTotal
    cases (p.acquireTurn c.key n.locals).cold with
    | none => rfl
    | some cause =>
      rw [Option.elim_some, coldTotal_coldAcquire]
      show n.tally.cold + 1 + _ = _
      omega
  · rfl
  · rfl
  · rename_i hacquire _ _
    have hcounters : m.after p n.locals t = m := by
      unfold Counters.after
      split
      · exact absurd rfl (hacquire _)
      · rfl
    rw [hcounters]
    split
    · rfl
    · rfl

theorem warm_after (m : Counters) (p : Pool) (v : AcquireLocals) (t : Thread) :
    (m.after p v t).warm = m.warm := by
  unfold Counters.after
  split
  · rename_i c
    cases (p.acquireTurn c.key v).cold <;> rfl
  · rfl

theorem total_append_fresh (f : Notes → Nat) (hf : f .fresh = 0) (l : List Notes) (k : Nat) :
    total f (l ++ List.replicate k .fresh) = total f l := by
  have hnone : total f (List.replicate k .fresh) = 0 := by
    induction k with
    | zero => rfl
    | succ k ih => rw [List.replicate_succ, total_cons, hf, ih]
  rw [total_append, hnone, Nat.add_zero]

/-- INTERNAL: **the counters are what the calls added to them**. -/
theorem counters_of_counted (h : Reachable (countedSystem cfg lc) s) :
    s.counters.warm = total (fun n => n.tally.warm) s.notes ∧
      s.counters.coldTotal = total (fun n => n.tally.cold) s.notes := by
  refine h.invariant (P := fun s => s.counters.warm = total (fun n => n.tally.warm) s.notes ∧
    s.counters.coldTotal = total (fun n => n.tally.cold) s.notes) ?_ ?_
  · rintro s ⟨now, dirs, sys, -, rfl⟩
    exact ⟨(total_append_fresh _ rfl [] _).symm, (total_append_fresh _ rfl [] _).symm⟩
  · rintro s s' - ⟨hwarm, hcold⟩ ⟨a, ha⟩
    cases countStep_moves ha with
    | @pay i ch n o hn =>
      have hsetw := total_set (fun n => n.tally.warm) (n.paid o) hn
      have hsetc := total_set (fun n => n.tally.cold) (n.paid o) hn
      cases o with
      | warmAcquire =>
        constructor
        · show s.counters.warm + 1 = total _ (s.notes.set i _)
          have hpaid : (n.paid .warmAcquire).tally.warm = n.tally.warm + 1 := rfl
          omega
        · show s.counters.coldTotal = total _ (s.notes.set i _)
          have hpaid : (n.paid .warmAcquire).tally.cold = n.tally.cold := rfl
          omega
      | destroyFailed =>
        constructor
        · show s.counters.warm = total _ (s.notes.set i _)
          have hpaid : (n.paid .destroyFailed).tally.warm = n.tally.warm := rfl
          omega
        · show s.counters.coldTotal = total _ (s.notes.set i _)
          have hpaid : (n.paid .destroyFailed).tally.cold = n.tally.cold := rfl
          omega
    | @run i ch n t t' p' hn =>
      have hsetw := total_set (fun n => n.tally.warm) (n.after s.sys.pool ch t) hn
      have hsetc := total_set (fun n => n.tally.cold) (n.after s.sys.pool ch t) hn
      have haw := tally_warm_after n s.sys.pool ch t
      have hac := tally_cold_after n s.counters s.sys.pool ch t
      constructor
      · show (s.counters.after s.sys.pool n.locals t).warm = total _ (s.notes.set i _)
        rw [warm_after]
        omega
      · show (s.counters.after s.sys.pool n.locals t).coldTotal = total _ (s.notes.set i _)
        omega
    | other =>
      constructor
      · exact hwarm.trans (total_append_fresh _ rfl _ _).symm
      · exact hcold.trans (total_append_fresh _ rfl _ _).symm

theorem final_of_noted (h : (Thread.exec c pc).Noted n) :
    n.Final := by
  cases pc with
  | sweep | checkKey | acquire | waitSettled | warming => exact h.1.final
  | _ => exact h.1

theorem vm_of_noted (h : (Thread.exec c pc).Noted n) (hvm : (Thread.exec c pc).heldVM = some vm) :
    n.tally.vm = some vm := by
  cases pc with
  | sweep | checkKey | acquire | waitSettled | warming => cases hvm
  | _ => exact h.2 vm hvm

/-- **Each acquire is counted once.** In every interleaving, the counters of the warm and of the
cold acquires are the sums of what the single calls of `acquire` added to them. A call adds at most
one to both together; once it has returned, it has added exactly one if it returned a VM, and it
has counted a warm acquire exactly when it took a ready VM on the first turn of its loop.
SRCLINE: pool.go:392-492, stats.go:57-75 -/
theorem acquire_counted_once {cfg : Config} {lc : Launcher} {s : Counted}
    (h : Reachable (countedSystem cfg lc) s) :
    s.counters.warm = total (fun n => n.tally.warm) s.notes ∧
    s.counters.coldTotal = total (fun n => n.tally.cold) s.notes ∧
    ∀ (i : Nat) (c : ExecCall) (pc : ExecPc) (n : Notes),
      s.sys.threads[i]? = some (.exec c pc) → s.notes[i]? = some n →
        n.tally.warm + n.tally.cold ≤ 1 ∧
        (∀ vm, (Thread.exec c pc).heldVM = some vm → n.tally.vm = some vm) ∧
        (n.owed ≠ some .warmAcquire →
          (n.tally.vm.isSome = true → n.tally.warm + n.tally.cold = 1) ∧
          (n.tally.warm = 1 ↔ n.tally.took = some 1)) := by
  obtain ⟨hwarm, hcold⟩ := counters_of_counted h
  refine ⟨hwarm, hcold, ?_⟩
  intro i c pc n hi hn
  have hnoted := noted_of_counted h i _ n hi hn
  have hfinal := final_of_noted hnoted
  have hdue : n.tally.warm ≤ n.warmDue := Nat.le_add_right _ _
  refine ⟨?_, ?_, ?_⟩
  · have honce := hfinal.once
    omega
  · intro vm hvm
    exact vm_of_noted hnoted hvm
  · intro howed
    have hpaid : n.warmDue = n.tally.warm := by
      unfold Notes.warmDue
      rw [if_neg howed]
      rfl
    rw [← hpaid]
    exact ⟨hfinal.vm, hfinal.warm⟩

/-- A first `Exec` of "a", its refill, and a second `Exec` up to the return of its `acquire`. -/
def warmA : List Action :=
  .callExec "a" 0 :: List.replicate 17 (.run 1 .go) ++
    [.tick 200000000, .fireReplenish ⟨0, "a", 200000000⟩] ++ List.replicate 6 (.run 2 .go) ++
    [.callExec "a" 0, .run 3 .go, .run 3 .go, .run 3 (.visit "a" ⟨0, false⟩)] ++
    List.replicate 5 (.run 3 .go)

theorem starts_of_small (reapWorkers : Int) (sys : Sys)
    (h : newPool (smallConfig reapWorkers) smallLauncher 0 .empty = .ok sys) :
    Counted.Starts (smallConfig reapWorkers) smallLauncher (.new sys) :=
  ⟨0, .empty, sys, h, rfl⟩

/-- The first acquire was cold and the second one is warm. -/
theorem acquire_counted_once_warm :
    ∃ s n, Reachable (countedSystem (smallConfig 0) smallLauncher) s ∧ s.notes[3]? = some n ∧
      s.counters.warm = 1 ∧ s.counters.coldTotal = 1 ∧ n.tally.took = some 1 ∧
      n.tally.warm + n.tally.cold = 1 ∧ n.tally.warm = 1 := by
  obtain ⟨s, hs, hP⟩ := exists_reachable_of_small countStep Counted.new 0
    (starts_of_small 0) warmA
    (fun s => decide (s.counters.warm = 1 ∧ s.counters.coldTotal = 1 ∧
      s.notes[3]? = some (Notes.mk ⟨false, none⟩ none false
        ⟨1, some ⟨1, "vm-2", "a", some 0, 0⟩, some 1, 1, 0⟩) ∧
      s.sys.threads[3]? = some (Thread.exec ⟨"a", 0, some 1800200000000, false, false⟩
        (.gate 0 ⟨1, "vm-2", "a", some 0, 0⟩)))) (by decide +kernel)
  obtain ⟨hwarm, hcold, hn, hi⟩ := of_decide_eq_true hP
  obtain ⟨-, -, hcall⟩ := acquire_counted_once hs
  obtain ⟨-, -, hreturned⟩ := hcall 3 _ _ _ hi hn
  obtain ⟨hone, hfirst⟩ := hreturned (fun heq => nomatch heq)
  exact ⟨s, _, hs, hn, hwarm, hcold, rfl, hone rfl, hfirst.mpr rfl⟩

/-! ## Failed destroys -/

/-- The failed destroys that the goroutine is about to count. -/
def Notes.failureDue (n : Notes) : Nat := if n.owed = some .destroyFailed then 1 else 0

/-- The failed destroys that are counted, or are about to be. -/
def Counted.failuresDue (s : Counted) : Nat :=
  s.counters.destroyFailures + total Notes.failureDue s.notes

/-- The step is not the return of an error from the `Reap` of `reaper.run`.
SRCLINE: deferred_reap.go:72-87 -/
def reaperSucceeds (s : Counted) : Action → Bool
  | .run i .fail =>
    match s.sys.threads[i]?, s.notes[i]? with
    | some t, some n => !(n.inReaper t && n.owed.isNone)
    | _, _ => true
  | _ => true

theorem destroyFailures_after (m : Counters) (p : Pool) (v : AcquireLocals) (t : Thread) :
    (m.after p v t).destroyFailures = m.destroyFailures := by
  unfold Counters.after
  split
  · rename_i c
    cases (p.acquireTurn c.key v).cold <;> rfl
  · rfl

theorem failureDue_after (howed : n.owed = none) (p : Pool) (ch : Choice) (t : Thread) :
    (n.after p ch t).failureDue =
      if t.tearsDown = true ∧ ch = .fail ∧ ¬n.inReaper t = true then 1 else 0 := by
  have hnone : n.failureDue = 0 := by
    unfold Notes.failureDue
    rw [howed]
    rfl
  unfold Notes.after
  split
  · rename_i c
    show (if (if (p.acquireTurn c.key n.locals).warm = true then some Owed.warmAcquire else none) =
      some .destroyFailed then 1 else 0) = if false = true ∧ _ then 1 else 0
    cases (p.acquireTurn c.key n.locals).warm <;> rfl
  · exact hnone
  · exact hnone
  · split
    · rfl
    · exact hnone

theorem tearsDown_of_inReaper (h : n.inReaper t = true) : t.tearsDown = true := by
  unfold Notes.inReaper at h
  split at h
  · rfl
  · rfl
  · cases h

theorem reaperSucceeds_run {i : Nat} (ch : Choice) (hi : s.sys.threads[i]? = some t)
    (hn : s.notes[i]? = some n) :
    reaperSucceeds s (.run i ch) = true ↔ ¬(ch = .fail ∧ n.inReaper t = true ∧ n.owed = none) := by
  cases ch with
  | fail =>
    simp only [reaperSucceeds, hi, hn]
    cases hreaper : n.inReaper t with
    | false => simp
    | true =>
      cases n.owed <;> simp
  | _ => simp [reaperSucceeds]

/-- INTERNAL: **the balance of one step**: an error is counted, unless it is one of `reaper.run`. -/
theorem failures_step {s' : Counted} {a : Action} (hs : Reachable (countedSystem cfg lc) s)
    (h : countStep s a = some s') :
    s'.failures + s.failuresDue =
      s.failures + s'.failuresDue + if reaperSucceeds s a = true then 0 else 1 := by
  unfold Counted.failuresDue
  cases countStep_moves h with
  | @pay i ch n o hn howed =>
    have hlt : i < s.sys.threads.length := by
      rw [← length_notes hs]
      exact (List.getElem?_eq_some_iff.mp hn).1
    have hguard : reaperSucceeds s (.run i ch) = true := by
      rw [reaperSucceeds_run ch (List.getElem?_eq_getElem hlt) hn, howed]
      rintro ⟨-, -, hnone⟩
      cases hnone
    have hset := total_set Notes.failureDue (n.paid o) hn
    rw [if_pos hguard]
    cases o with
    | warmAcquire =>
      show s.failures + _ =
        s.failures + (s.counters.destroyFailures + total _ (s.notes.set i _)) + 0
      have hbefore : n.failureDue = 0 := by
        unfold Notes.failureDue
        rw [howed]
        rfl
      have hafter : (n.paid .warmAcquire).failureDue = 0 := rfl
      omega
    | destroyFailed =>
      show s.failures + _ =
        s.failures + (s.counters.destroyFailures + 1 + total _ (s.notes.set i _)) + 0
      have hbefore : n.failureDue = 1 := if_pos howed
      have hafter : (n.paid .destroyFailed).failureDue = 0 := rfl
      omega
  | @run i ch n t t' p' hn howed hi =>
    have hset := total_set Notes.failureDue (n.after s.sys.pool ch t) hn
    have hbefore : n.failureDue = 0 := by
      unfold Notes.failureDue
      rw [howed]
      rfl
    rw [failureDue_after howed] at hset
    show (if t.tearsDown = true ∧ ch = .fail then s.failures + 1 else s.failures) + _ = s.failures +
      ((s.counters.after s.sys.pool n.locals t).destroyFailures + total _ (s.notes.set i _)) + _
    rw [destroyFailures_after]
    have hguard := reaperSucceeds_run ch hi hn
    by_cases hfail : t.tearsDown = true ∧ ch = .fail
    · rw [if_pos hfail]
      by_cases hreaper : n.inReaper t = true
      · rw [if_neg (fun hcounted => hcounted.2.2 hreaper)] at hset
        rw [if_neg (fun hok => hguard.mp hok ⟨hfail.2, hreaper, howed⟩)]
        omega
      · rw [if_pos ⟨hfail.1, hfail.2, hreaper⟩] at hset
        rw [if_pos (hguard.mpr fun hbad => hreaper hbad.2.1)]
        omega
    · rw [if_neg hfail]
      rw [if_neg (fun hcounted => hfail ⟨hcounted.1, hcounted.2.1⟩)] at hset
      rw [if_pos (hguard.mpr fun hbad => hfail ⟨tearsDown_of_inReaper hbad.2.1, hbad.1⟩)]
      omega
  | other hrun =>
    have hguard : reaperSucceeds s a = true := by
      cases a with
      | run i ch => exact absurd rfl (hrun i ch)
      | _ => rfl
    rw [if_pos hguard]
    show s.failures + _ = s.failures + (s.counters.destroyFailures + total _ (s.notes ++ _)) + 0
    rw [total_append_fresh _ rfl, Nat.add_zero]

theorem failures_run {as : List Action} :
    ∀ {s s' : Counted}, Reachable (countedSystem cfg lc) s → runActions countStep s as = some s' →
      ∃ k, s'.failures + s.failuresDue = s.failures + s'.failuresDue + k ∧
        (k = 0 ↔ runActions (guarded reaperSucceeds countStep) s as = some s') := by
  induction as with
  | nil =>
    intro s s' _ h
    cases h
    exact ⟨0, rfl, iff_of_true rfl rfl⟩
  | cons a as ih =>
    intro s s' hs h
    obtain ⟨m, hm, hrest⟩ := Option.bind_eq_some_iff.mp h
    obtain ⟨k, hbalance, hk⟩ := ih (.step hs ⟨a, hm⟩) hrest
    have hstep := failures_step hs hm
    rw [runActions]
    by_cases hguard : reaperSucceeds s a = true
    · rw [if_pos hguard] at hstep
      refine ⟨k, by omega, ?_⟩
      rw [guarded_eq_some.mpr ⟨hguard, hm⟩]
      exact hk
    · rw [if_neg hguard] at hstep
      refine ⟨k + 1, by omega, ?_⟩
      have hstuck : guarded reaperSucceeds countStep s a = none := if_neg hguard
      rw [hstuck]
      exact ⟨(fun hzero => nomatch hzero), (fun hsome => nomatch hsome)⟩

/-- **Failed destroys are counted, but for those of the reaper.** At the end of any run of a pool,
with deferred reaping on or off, once no goroutine is about to count a failed destroy (in
particular once all teardown work is done), `DestroyFailures` is the number of calls of `Destroy`
and `Reap` that returned an error exactly when none of the errors was returned to `reaper.run`:
each step of the run meets `reaperSucceeds`.
SRCLINE: deferred_reap.go:53-101, pool.go:513-554, 614-757, sweep.go:133-145 -/
theorem destroyFailures_exact_iff {cfg : Config} {lc : Launcher} {s s' : Counted} {as : List Action}
    (hs : Counted.Starts cfg lc s) (hrun : runActions countStep s as = some s')
    (hdone : ∀ n ∈ s'.notes, n.owed ≠ some .destroyFailed) :
    s'.counters.destroyFailures = s'.failures ↔
      runActions (guarded reaperSucceeds countStep) s as = some s' := by
  obtain ⟨k, hbalance, hk⟩ := failures_run (.init hs) hrun
  have hstart : s.failures = 0 ∧ s.failuresDue = 0 := by
    obtain ⟨now, dirs, sys, -, rfl⟩ := hs
    refine ⟨rfl, ?_⟩
    show 0 + total _ ([] ++ List.replicate _ _) = 0
    rw [total_append_fresh _ rfl, total_nil, Nat.add_zero]
  have hpaid : s'.failuresDue = s'.counters.destroyFailures := by
    unfold Counted.failuresDue
    have hnone : total Notes.failureDue s'.notes = 0 := by
      by_contra hpos
      obtain ⟨n, hn, hdue⟩ := exists_pos_of_total_pos (Nat.pos_of_ne_zero hpos)
      unfold Notes.failureDue at hdue
      rw [if_neg (hdone n hn)] at hdue
      exact absurd hdue (lt_irrefl 0)
    omega
  rw [← hk]
  omega

/-- One `Exec` of "a" on a pool with a reap worker, and `Close`. The reap of its VM ends with
`c`. -/
def reapA (c : Choice) : List Action :=
  .callExec "a" 0 :: List.replicate 17 (.run 2 .go) ++ [.run 1 .go, .run 1 c] ++
    [.callClose, .run 3 (.victims []), .run 3 .go, .run 3 .go, .run 3 .go, .run 0 .go, .run 3 .go,
      .run 3 .go, .run 1 .go, .run 3 .go]

/-- **A failed reap is lost.** The reap of the only VM returns an error on the reap worker. All
goroutines are done, `Close` included, and `DestroyFailures` is 0. -/
theorem reaper_failure_not_counted :
    ∃ s s', Counted.Starts (smallConfig 1) smallLauncher s ∧
      runActions countStep s (reapA .fail) = some s' ∧
      s'.sys.threads.map Thread.tearsDown = [false, false, false, false] ∧
      s'.sys.threads[1]? = some (.reapWorker .exited) ∧
        s'.sys.threads[3]? = some (.close (.returned true)) ∧
      (∀ n ∈ s'.notes, n.owed = none) ∧ s'.sys.held = [] ∧
      s'.failures = 1 ∧ s'.counters.destroyFailures = 0 := by
  obtain ⟨s, s', hnew, hrun, hP⟩ := exists_runActions_of_small countStep Counted.new 1 (reapA .fail)
    (fun s => decide (s.sys.threads.map Thread.tearsDown = [false, false, false, false] ∧
      s.sys.threads[1]? = some (Thread.reapWorker .exited) ∧
      s.sys.threads[3]? = some (Thread.close (.returned true)) ∧
      (∀ n ∈ s.notes, n.owed = none) ∧ s.sys.held = [] ∧
      s.failures = 1 ∧ s.counters.destroyFailures = 0)) (by decide +kernel)
  exact ⟨.new s, s', starts_of_small 1 s hnew, hrun, of_decide_eq_true hP⟩

/-- An `Exec` of "a" on a pool without a reaper, whose `Destroy` fails, with the write to the
counter. -/
def destroyA : List Action :=
  .callExec "a" 0 :: List.replicate 15 (.run 1 .go) ++ [.run 1 .fail, .run 1 .go]

/-- The error of a `Destroy` is counted. -/
theorem destroyFailures_exact_one :
    ∃ s s', Counted.Starts (smallConfig 0) smallLauncher s ∧
      runActions countStep s destroyA = some s' ∧
      s'.failures = 1 ∧ s'.counters.destroyFailures = 1 := by
  obtain ⟨s, s', hnew, hrun, hP⟩ :=
    exists_runActions_of_small (guarded reaperSucceeds countStep) Counted.new 0
    destroyA (fun s => decide (s.failures = 1 ∧ ∀ n ∈ s.notes, n.owed ≠ some .destroyFailed))
    (by decide +kernel)
  obtain ⟨hfailures, hdone⟩ := of_decide_eq_true hP
  have hall : runActions countStep (.new s) destroyA = some s' := runActions_of_guarded hrun
  have hexact := (destroyFailures_exact_iff (starts_of_small 0 s hnew) hall hdone).mpr hrun
  exact ⟨.new s, s', starts_of_small 0 s hnew, hall, hfailures, hexact.trans hfailures⟩

end ServerlessHarness.VmPool
