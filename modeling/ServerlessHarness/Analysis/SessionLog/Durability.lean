import ServerlessHarness.Interface.SessionLog.Chain

/-!
# What is durable, and what `flush` promises

The chain writes in the order of the appends, but it goes on after a failed one. So the
stream is the sublist of the appended entries whose write took effect (`durable_eq`), and it
is a prefix of them as long as no `XADD` is executed after an append that was not stored
(`durable_prefix_iff_inTurn`).

`lastError` holds at most one error, and the first `flush` that finds it takes it away. A
`flush` that returns therefore vouches for its entries only if no error of theirs was taken
by another call, or hidden behind an error that counts as false
(`flush_returns_durable_iff`).
-/

set_option autoImplicit false

namespace ServerlessHarness.SessionLog

open Library

variable {E ε : Type} {P : Params E ε}

/-! ## The stream holds what was written, in order -/

/-- The stream is made of the records of the chain's appends, in order. -/
def Buffered.Stored (s : Buffered E ε) : Prop :=
  s.log.stream.entries = (s.calls.calls.filterMap fun c => c.pc.durable).map StoredEntry.row

variable {s t : Buffered E ε} {c : AppendCall E}

theorem Buffered.Stored.command (stored : s.Stored) (running : s.running = some c) {log' : Log E}
    {pc' : AppendPc E} (h : AppendEffect P.digest P.sid s.log c log' pc') :
    ({ s with log := log', running := some { c with pc := pc' } } : Buffered E ε).Stored := by
  have before : c.pc.durable = none := by
    rcases h.not_over with hpc | ⟨st, hpc⟩ <;> rw [hpc] <;> rfl
  have old : s.log.stream.entries =
      ((s.settled.map Settled.call).filterMap fun c => c.pc.durable).map StoredEntry.row := by
    simpa [Buffered.Stored, Buffered.calls, running, before] using stored
  cases h with
  | @added st stream replied pc accepted =>
    have := (Stream.entries_of_xadd accepted).2.1
    simp only [Buffered.Stored, Buffered.calls, Option.toList_some, List.filterMap_append,
      List.map_append]
    rw [this, old]
    rfl
  | _ => simpa [Buffered.Stored, Buffered.calls, AppendPc.durable] using old

/-- INTERNAL: **the stream holds what the chain has written, in order**. -/
theorem stored_of_reachable (h : Reachable (bufferedSystem P) s) : s.Stored := by
  refine h.invariant ?_ ?_
  · rintro s rfl
    rfl
  · rintro s t - stored ⟨a, ha⟩
    cases bufferedStep_effect ha with
    | start running =>
      simpa [Buffered.Stored, Buffered.calls, running, AppendPc.durable] using stored
    | command running step => exact stored.command running (appendStep_effect step)
    | fulfil running | reject _ running =>
      simpa [Buffered.Stored, Buffered.calls, running] using stored
    | _ => exact stored

/-- What is durable is what was written, in order of the writes. -/
theorem durable_eq (h : Reachable (bufferedSystem P) s) :
    s.durable = (s.records.filter fun r => r.2.isSome).map Prod.fst := by
  have within : ∀ c ∈ s.calls.calls, ∀ st, c.pc.durable = some st → st.entry = c.entry := by
    intro c hc st hst
    refine ((positions_of_buffered h).within c hc st ?_).2.2.1
    unfold AppendPc.durable at hst
    split at hst
    · rename_i hpc
      rw [hpc]
      exact hst
    · cases hst
  have written (l : List (AppendCall E))
      (hl : ∀ c ∈ l, ∀ st, c.pc.durable = some st → st.entry = c.entry) :
      (l.filterMap fun c => c.pc.durable).map StoredEntry.entry =
        ((l.map fun c => (c.entry, c.pc.durable)).filter fun r => r.2.isSome).map Prod.fst := by
    induction l with
    | nil => rfl
    | cons c l ih =>
      have rest := ih fun d hd => hl d (List.mem_cons_of_mem _ hd)
      cases hst : c.pc.durable with
      | none => simpa [hst] using rest
      | some st => simpa [hst, hl c (List.mem_cons_self ..) st hst] using rest
  have rows (l : List (StoredEntry E)) :
      (l.map StoredEntry.row).map (fun e => e.2.entry) = l.map StoredEntry.entry := by
    rw [List.map_map]
    rfl
  have waiting : (s.waiting.map fun e => (e, (none : Option (StoredEntry E)))).filter
      (fun r => r.2.isSome) = [] := by simp
  unfold Buffered.durable Buffered.records
  rw [stored_of_reachable h, rows, written _ within, List.filter_append, waiting, List.append_nil]
  rfl

/-- **No failure duplicates or reorders an entry**, and the server refuses none. -/
theorem durable_sublist_appended {s : Buffered E ε} (h : Reachable (bufferedSystem P) s) :
    s.durable.Sublist s.appended ∧ ∀ c ∈ s.calls.calls, ∀ st, c.pc ≠ .rejected st := by
  refine ⟨?_, fun c hc => buffered_not_rejected h hc⟩
  rw [durable_eq h]
  exact List.filter_sublist.map _

/-! ## Prefixes -/

/-- No entry without a record comes before one with a record. -/
def Buffered.InOrder (s : Buffered E ε) : Prop :=
  s.records.Pairwise fun a b => b.2.isSome = true → a.2.isSome = true

/-- The `XADD` of an append is executed only when every earlier append was stored. -/
def inTurn (s : Buffered E ε) : BufferedAction E ε → Bool
  | .command (.executed _ _) =>
    match s.running.map AppendCall.pc with
    | some (.xadd _) => s.settled.all fun x => x.call.pc.durable.isSome
    | _ => true
  | _ => true

theorem Buffered.records_of_running (running : s.running = some c) :
    s.records = s.settled.map (fun x => (x.call.entry, x.call.pc.durable)) ++
      (c.entry, c.pc.durable) :: s.waiting.map fun e => (e, none) := by
  simp [Buffered.records, running]

theorem Buffered.records_settle (running : s.running = some c) (error : Option ε)
    (last : Option ε) :
    ({ s with settled := s.settled ++ [⟨c, error⟩], running := none, lastError := last } :
      Buffered E ε).records = s.records := by
  simp [Buffered.records, running]

theorem Buffered.InOrder.command (ordered : s.InOrder) (running : s.running = some c)
    {log' : Log E} {pc' : AppendPc E}
    (turn : pc'.durable.isSome = true → ∀ x ∈ s.settled, x.call.pc.durable.isSome = true) :
    ({ s with log := log', running := some { c with pc := pc' } } : Buffered E ε).InOrder := by
  unfold Buffered.InOrder at ordered ⊢
  rw [Buffered.records_of_running running, List.pairwise_append] at ordered
  rw [Buffered.records_of_running rfl, List.pairwise_append]
  obtain ⟨hsettled, hrest, hcross⟩ := ordered
  refine ⟨hsettled, ?_, fun a ha b hb hdurable => ?_⟩
  · rw [List.pairwise_cons] at hrest ⊢
    refine ⟨fun b hb hdurable => ?_, hrest.2⟩
    obtain ⟨e, -, rfl⟩ := List.mem_map.mp hb
    cases hdurable
  · rcases List.mem_cons.mp hb with rfl | hb
    · obtain ⟨x, hx, rfl⟩ := List.mem_map.mp ha
      exact turn hdurable x hx
    · exact hcross a ha b (List.mem_cons_of_mem _ hb) hdurable

/-- Writes in turn stay in order. -/
theorem Buffered.InOrder.step {a : BufferedAction E ε} (ordered : s.InOrder)
    (turn : inTurn s a = true) (ha : bufferedStep P s a = some t) : t.InOrder := by
  have same {t : Buffered E ε} (h : t.records = s.records) : t.InOrder := by
    unfold Buffered.InOrder
    rw [h]
    exact ordered
  cases bufferedStep_effect ha with
  | append entry =>
    have hrecords : ({ s with waiting := s.waiting ++ [entry] } : Buffered E ε).records =
        s.records ++ [(entry, none)] := by simp [Buffered.records]
    unfold Buffered.InOrder
    rw [hrecords, List.pairwise_append]
    exact ⟨ordered, by simp, by simp⟩
  | start running waiting =>
    exact same (by simp [Buffered.records, running, waiting, AppendPc.durable])
  | @command c fate log' pc' running step =>
    refine ordered.command running fun hdurable x hx => ?_
    -- Only an executed `XADD` gives the running append a record.
    cases appendStep_effect step with
    | @added st stream replied pc accepted =>
      cases fate with
      | executed =>
        simp only [inTurn, running, Option.map_some, pc, List.all_eq_true] at turn
        exact turn x hx
      | dropped => simp [appendStep, pc] at step
    | _ => cases hdurable
  | fulfil running => exact same (Buffered.records_settle running none s.lastError)
  | reject error running => exact same (Buffered.records_settle running (some error) (some error))
  | _ => exact same rfl

theorem not_inOrder_of_not_inTurn {a : BufferedAction E ε} (h : Reachable (bufferedSystem P) t)
    (early : inTurn s a = false) (ha : bufferedStep P s a = some t) : ¬ t.InOrder := by
  unfold inTurn at early
  split at early
  · split at early
    · rename_i st hpc
      obtain ⟨c, running, pc⟩ := Option.map_eq_some_iff.mp hpc
      obtain ⟨x, hx, hmissing⟩ := List.all_eq_false.mp early
      cases bufferedStep_effect ha with
      | @command c' _ log' pc' running' step =>
        obtain rfl : c = c' := Option.some.inj (running.symm.trans running')
        have hdurable : pc'.durable.isSome = true := by
          cases appendStep_effect step with
          | added => rfl
          | @rejected st' =>
            exact absurd rfl (buffered_not_rejected h (c := { c with pc := .rejected st' })
              (by simp [Buffered.calls]) st')
          | assigned _ hincr | unanswered hincr =>
            rw [pc] at hincr
            cases hincr
          | dropped =>
            simp only [appendStep, pc] at step
            split at step <;> simp at step
        intro ordered
        unfold Buffered.InOrder at ordered
        rw [Buffered.records_of_running rfl, List.pairwise_append] at ordered
        exact hmissing (ordered.2.2 _ (List.mem_map_of_mem hx) _ (List.mem_cons_self ..) hdurable)
    · cases early
  · cases early

theorem Buffered.InOrder.isPrefix (ordered : s.InOrder) (h : Reachable (bufferedSystem P) s) :
    s.durable <+: s.appended := by
  rw [durable_eq h]
  exact (filter_prefix_of_pairwise ordered).map Prod.fst

/-- INTERNAL: **the durable entries are a prefix of the appended ones as long as entries are
stored in turn**. In every state of a run in which no append is stored after one that was not,
the durable entries form a prefix; and the next step keeps this exactly when it is in turn,
where for the converse the appended entries are told apart by their values.
SRCLINE: buffered-redis-backend.ts:12-35, redis-backend.ts:106-124 -/
theorem durable_prefix_iff_inTurn {s : Buffered E ε} (h : Reachable (guardedBuffer P inTurn) s) :
    s.durable <+: s.appended ∧ ∀ a t, bufferedStep P s a = some t →
      (inTurn s a = true → t.durable <+: t.appended) ∧
      (t.appended.Nodup → t.durable <+: t.appended → inTurn s a = true) := by
  have ordered : s.InOrder := by
    induction h with
    | init hinit =>
      obtain rfl := hinit
      exact .nil
    | step _ hn ih =>
      obtain ⟨a, ha⟩ := hn
      obtain ⟨turn, hstep⟩ := guarded_eq_some.mp ha
      exact ih.step turn hstep
  have hs : Reachable (bufferedSystem P) s := h.of_guarded
  refine ⟨ordered.isPrefix hs, fun a t ha => ?_⟩
  have ht : Reachable (bufferedSystem P) t := .step hs ⟨a, ha⟩
  refine ⟨fun turn => (ordered.step turn ha).isPrefix ht, fun nodup isPrefix => ?_⟩
  by_contra hturn
  refine not_inOrder_of_not_inTurn ht (Bool.eq_false_of_not_eq_true hturn) ha ?_
  rw [durable_eq ht] at isPrefix
  exact pairwise_of_filter_prefix nodup isPrefix

/-- Entries and errors that are strings, the empty one of which counts as false. -/
def textParams : Params String String := ⟨fun _ => "", fun _ => "message", fun e => e ≠ "", "s"⟩

/-- The answer to the first write is lost, the second write never reaches the server, and the third
goes through; `flush` throws. -/
theorem durable_sublist_appended_failures :
    ∃ s, Reachable (bufferedSystem textParams) s ∧ s.flushes = [.threw 3 3 "closed"] ∧
      s.appended = ["a", "b", "c"] ∧ s.durable = ["a", "c"] ∧ s.durable.Sublist s.appended := by
  obtain ⟨s, hs, hQ⟩ := exists_reachable_of_buffered textParams
    [.append "a", .append "b", .append "c", .flush, .start, .command (.executed true 0),
      .command (.executed false 0), .settle "closed", .start, .command .dropped, .settle "closed",
      .start, .command (.executed true 0), .command (.executed true 0), .settle "", .resume 0]
    (fun s => (s.flushes == [.threw 3 3 "closed"]) && (s.appended == ["a", "b", "c"]) &&
      (s.durable == ["a", "c"]))
    (by decide +kernel)
  simp only [Bool.and_eq_true, beq_iff_eq] at hQ
  exact ⟨s, hs, hQ.1.1, hQ.1.2, hQ.2, (durable_sublist_appended hs).1⟩

/-- The answer to the first write is lost, and the second entry is written in its turn. -/
theorem durable_prefix_iff_inTurn_reply_lost :
    ∃ s, Reachable (guardedBuffer textParams inTurn) s ∧ s.lastError = some "closed" ∧
      s.durable = ["a", "b"] ∧ s.appended = ["a", "b", "c"] ∧ s.durable <+: s.appended := by
  obtain ⟨s, hs, hQ⟩ := exists_reachable_of_guarded textParams inTurn
    [.append "a", .append "b", .append "c", .start, .command (.executed true 0),
      .command (.executed false 0), .settle "closed", .start, .command (.executed true 0),
      .command (.executed true 0), .settle ""]
    (fun s => (s.lastError == some "closed") && (s.durable == ["a", "b"]) &&
      (s.appended == ["a", "b", "c"]))
    (by decide +kernel)
  simp only [Bool.and_eq_true, beq_iff_eq] at hQ
  exact ⟨s, hs, hQ.1.1, hQ.1.2, hQ.2, (durable_prefix_iff_inTurn hs).1⟩

/-- After a write that never reached the server the chain goes on: the second entry is durable
and the first is not. -/
theorem durable_not_prefix_after_failure :
    ∃ s, Reachable (bufferedSystem textParams) s ∧ s.appended = ["a", "b"] ∧ s.durable = ["b"] ∧
      ¬ s.durable <+: s.appended := by
  obtain ⟨s, hs, hQ⟩ := exists_reachable_of_buffered textParams
    [.append "a", .append "b", .start, .command .dropped, .settle "closed", .start,
      .command (.executed true 0), .command (.executed true 0), .settle ""]
    (fun s => (s.appended == ["a", "b"]) && (s.durable == ["b"])) (by decide +kernel)
  simp only [Bool.and_eq_true, beq_iff_eq] at hQ
  refine ⟨s, hs, hQ.1, hQ.2, ?_⟩
  rw [hQ.1, hQ.2]
  decide

/-! ## What a `flush` that returns says -/

/-- The error of the append with index `i` can no longer reach a `flush`: one that threw after
the append had settled took it, or an error that counts as false came with it or after it. -/
def Buffered.Silenced (truthy : ε → Bool) (s : Buffered E ε) (i : Nat) : Prop :=
  (∃ n k error, .threw n k error ∈ s.flushes ∧ i < k) ∨
    ∃ k x error, i ≤ k ∧ s.settled[k]? = some x ∧ x.error = some error ∧ truthy error = false

/-- The invariant of `lastError`: an append that is settled and not durable was rejected, and
while `lastError` counts as false every rejection is silenced. -/
structure Errors (truthy : ε → Bool) (s : Buffered E ε) : Prop where
  rejected : ∀ x ∈ s.settled, x.call.pc.durable = none → x.error ≠ none
  silenced : s.lastError.filter truthy = none →
    ∀ i x, s.settled[i]? = some x → x.error ≠ none → s.Silenced truthy i

theorem Buffered.Silenced.mono {truthy : ε → Bool} {i : Nat} (h : s.Silenced truthy i)
    (threw : ∀ n k error, .threw n k error ∈ s.flushes → .threw n k error ∈ t.flushes)
    (settled : ∀ (k : Nat) (x : Settled E ε), s.settled[k]? = some x → t.settled[k]? = some x) :
    t.Silenced truthy i := by
  rcases h with ⟨n, k, error, hmem, hlt⟩ | ⟨k, x, error, hle, hk, rest⟩
  · exact .inl ⟨n, k, error, threw n k error hmem, hlt⟩
  · exact .inr ⟨k, x, error, hle, settled k x hk, rest⟩

section Steps

variable {s : Buffered E ε} (inv : Errors P.truthy s)
include inv

theorem Errors.fulfil {st : StoredEntry E} (pc : c.pc = .added st true) :
    Errors P.truthy { s with settled := s.settled ++ [⟨c, none⟩], running := none } := by
  refine ⟨forall_mem_concat inv.rejected fun hdurable => ?_, fun hnone i x hi hx => ?_⟩
  · simp [pc, AppendPc.durable] at hdurable
  · have hi' : s.settled[i]? = some x := by
      rcases Nat.lt_or_ge i s.settled.length with hlt | hge
      · rwa [List.getElem?_append_left hlt] at hi
      · obtain rfl : x = ⟨c, none⟩ := by
          rw [List.getElem?_append_right hge] at hi
          simpa using List.mem_of_getElem? hi
        exact absurd rfl hx
    refine Buffered.Silenced.mono (inv.silenced hnone i x hi' hx) (fun _ _ _ h => h) fun k y hk =>
      ?_
    obtain ⟨hlt, -⟩ := List.getElem?_eq_some_iff.mp hk
    rwa [List.getElem?_append_left hlt]

theorem Errors.reject (c : AppendCall E) (error : ε) :
    Errors P.truthy
      { s with
        settled := s.settled ++ [⟨c, some error⟩], running := none, lastError := some error } := by
  refine ⟨forall_mem_concat inv.rejected fun hdurable => ?_, fun hnone i x hi _ => ?_⟩
  · simp
  · have falsy : P.truthy error = false := by
      simpa [Option.filter_some] using hnone
    have hi_le : i ≤ s.settled.length := by
      obtain ⟨hlt, -⟩ := List.getElem?_eq_some_iff.mp hi
      simp only [List.length_append, List.length_singleton] at hlt
      omega
    exact .inr ⟨s.settled.length, ⟨c, some error⟩, error, hi_le, by simp, rfl, falsy⟩

omit inv in
theorem threw_mem_set {j n m k : Nat} {error : ε} {f : FlushPc ε}
    (awaits : s.flushes[j]? = some (.awaiting n)) (h : .threw m k error ∈ s.flushes) :
    .threw m k error ∈ s.flushes.set j f :=
  mem_set_of_ne awaits h (by simp)

end Steps

/-- INTERNAL: **the invariant of `lastError` holds in every reachable state**. -/
theorem errors_of_reachable (h : Reachable (bufferedSystem P) s) :
    Errors P.truthy s := by
  refine h.invariant ?_ ?_
  · rintro s rfl
    exact ⟨by simp [Buffered.empty], by simp [Buffered.empty]⟩
  · rintro s t - inv ⟨a, ha⟩
    cases bufferedStep_effect ha with
    | fulfil _ pc => exact inv.fulfil pc
    | reject error => exact inv.reject _ error
    | flush =>
      refine ⟨inv.rejected, fun hnone i x hi hx => ?_⟩
      exact Buffered.Silenced.mono (inv.silenced hnone i x hi hx)
        (fun _ _ _ h => List.mem_append_left _ h) fun _ _ h => h
    | threw awaits =>
      -- the error is taken, and with it every one that was settled
      refine ⟨inv.rejected, fun _ i x hi _ =>
        .inl ⟨_, s.settled.length, _, mem_set_self _ awaits, ?_⟩⟩
      exact (List.getElem?_eq_some_iff.mp hi).1
    | returned awaits _ falsy =>
      refine ⟨inv.rejected, fun _ i x hi hx => ?_⟩
      exact Buffered.Silenced.mono (inv.silenced falsy i x hi hx)
        (fun _ _ _ h => threw_mem_set awaits h) fun _ _ h => h
    | _ => exact ⟨inv.rejected, inv.silenced⟩

theorem isDurable_of_settled {i : Nat} {x : Settled E ε} (hi : s.settled[i]? = some x) :
    s.isDurable i = x.call.pc.durable.isSome := by
  obtain ⟨hlt, -⟩ := List.getElem?_eq_some_iff.mp hi
  simp only [Buffered.isDurable, Buffered.records, List.map_append, List.append_assoc]
  rw [List.getElem?_append_left (by simpa using hlt)]
  simp [hi]

/-- INTERNAL: **what a `flush` that returns says**. When a `flush` that was called after `n`
appends returns, each of the `n` entries is durable exactly when none of them is missing
whose error was taken by another `flush`, or hidden by an error that counts as false.
SRCLINE: buffered-redis-backend.ts:12-35, flush-extension.ts:11-18 -/
theorem flush_returns_durable_iff {s s' : Buffered E ε} (h : Reachable (bufferedSystem P) s)
    {j n : Nat} (awaits : s.flushes[j]? = some (.awaiting n))
    (step : bufferedStep P s (.resume j) = some s')
    (returned : s'.flushes[j]? = some (.returned n)) :
    (∀ i < n, s'.isDurable i = true) ↔
      ∀ i < n, s.Silenced P.truthy i → s.isDurable i = true := by
  have inv := errors_of_reachable h
  obtain ⟨settled, falsy, rfl⟩ : n ≤ s.settled.length ∧ s.lastError.filter P.truthy = none ∧
      s' = { s with flushes := s.flushes.set j (.returned n) } := by
    simp only [bufferedStep, awaits] at step
    split at step
    · rename_i hsettled
      cases step
      unfold Buffered.resume at returned ⊢
      split at returned
      · obtain ⟨hlt, -⟩ := List.getElem?_eq_some_iff.mp awaits
        simp [hlt] at returned
      · rename_i hfalsy
        simp only [hfalsy]
        exact ⟨hsettled, trivial, trivial⟩
    · cases step
  constructor
  · exact fun all i hi _ => all i hi
  · intro silenced i hi
    obtain ⟨x, hx⟩ : ∃ x, s.settled[i]? = some x :=
      ⟨_, List.getElem?_eq_getElem (lt_of_lt_of_le hi settled)⟩
    by_contra hmissing
    have missing : x.call.pc.durable = none := by
      have hnot : ¬ s.isDurable i = true := hmissing
      rwa [isDurable_of_settled hx, Option.not_isSome_iff_eq_none] at hnot
    have := inv.silenced falsy i x hx (inv.rejected x (List.mem_of_getElem? hx) missing)
    exact hmissing (silenced i hi this)

/-- One entry is written and flushed, and no error was ever set. -/
theorem flush_returns_durable_iff_no_error :
    ∃ s s', Reachable (bufferedSystem textParams) s ∧
      bufferedStep textParams s (.resume 0) = some s' ∧ s'.flushes = [.returned 1] ∧
      s'.isDurable 0 = true := by
  obtain ⟨s, hs, hQ⟩ := exists_reachable_of_buffered textParams
    [.append "a", .flush, .start, .command (.executed true 0), .command (.executed true 0),
      .settle ""]
    (fun s => (s.flushes == [.awaiting 1]) && s.settled.all (fun x => x.error.isNone) &&
      ((bufferedStep textParams s (.resume 0)).map fun s' => s'.flushes == [.returned 1]) ==
        some true)
    (by decide +kernel)
  simp only [Bool.and_eq_true, beq_iff_eq, List.all_eq_true] at hQ
  obtain ⟨⟨hflushes, hnone⟩, hstep⟩ := hQ
  obtain ⟨s', step, hreturned⟩ := Option.map_eq_some_iff.mp hstep
  have returned : s'.flushes = [.returned 1] := beq_iff_eq.mp hreturned
  have silent : ∀ i < 1, s.Silenced textParams.truthy i → s.isDurable i = true := by
    rintro i - (⟨n, k, error, hmem, -⟩ | ⟨k, x, error, -, hk, herror, -⟩)
    · simp [hflushes] at hmem
    · have := hnone x (List.mem_of_getElem? hk)
      simp [herror] at this
  refine ⟨s, s', hs, step, returned, ?_⟩
  exact (flush_returns_durable_iff hs (n := 1) (by simp [hflushes]) step (by simp [returned])).mpr
    silent 0 (by omega)

/-- Two calls of `flush` wait for an entry whose write fails; the first takes the error, the
second returns. -/
theorem flush_returns_after_error_taken :
    ∃ s, Reachable (bufferedSystem textParams) s ∧ s.appended = ["a"] ∧
      s.flushes = [.threw 1 1 "closed", .returned 1] ∧ s.isDurable 0 = false ∧ s.durable = [] := by
  obtain ⟨s, hs, hQ⟩ := exists_reachable_of_buffered textParams
    [.append "a", .start, .flush, .flush, .command .dropped, .settle "closed", .resume 0, .resume 1]
    (fun s => (s.appended == ["a"]) && (s.flushes == [.threw 1 1 "closed", .returned 1]) &&
      !s.isDurable 0 && (s.durable == []))
    (by decide +kernel)
  simp only [Bool.and_eq_true, beq_iff_eq, Bool.not_eq_true'] at hQ
  exact ⟨s, hs, hQ.1.1.1, hQ.1.1.2, hQ.1.2, hQ.2⟩

end ServerlessHarness.SessionLog
