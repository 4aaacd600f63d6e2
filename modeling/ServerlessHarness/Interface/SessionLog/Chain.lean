import ServerlessHarness.Analysis.SessionLog.Positions
import ServerlessHarness.Model.SessionLog.Buffered

/-!
# The chain is a single writer

The appends of one buffer run one after the other, so every run of the buffer is a run of
the session's log with a single writer (`buffered_refines`): its entries get increasing
positions and the server refuses none of them (`buffered_not_rejected`).
-/

set_option autoImplicit false

namespace ServerlessHarness.SessionLog

open Library

variable {E ε : Type} {P : Params E ε}

/-- The append calls that the chain has started, and the log. -/
def Buffered.calls (s : Buffered E ε) : LogSys E :=
  ⟨s.log, s.settled.map Settled.call ++ s.running.toList⟩

/-- Every settled append is over. -/
def Buffered.Over (s : Buffered E ε) : Prop :=
  ∀ x ∈ s.settled, x.call.pc ≠ .incr ∧ ∀ st, x.call.pc ≠ .xadd st

variable {s : Buffered E ε} {c : AppendCall E}

theorem Buffered.settle_cases {t : Buffered E ε} {error : ε} (h : s.settle c error = some t) :
    (c.pc ≠ .incr ∧ ∀ st, c.pc ≠ .xadd st) ∧
      ((∃ st, c.pc = .added st true ∧
          t = { s with settled := s.settled ++ [⟨c, none⟩], running := none }) ∨
        t = { s with
          settled := s.settled ++ [⟨c, some error⟩], running := none, lastError :=
            some error }) := by
  unfold Buffered.settle at h
  split at h
  · cases h
  · cases h
  · rename_i st hpc
    cases h
    exact ⟨by simp [hpc], .inl ⟨st, hpc, rfl⟩⟩
  · rename_i hpc
    cases h
    exact ⟨by simp [hpc], .inr rfl⟩
  · rename_i hpc
    cases h
    exact ⟨by simp [hpc], .inr rfl⟩
  · rename_i hpc
    cases h
    exact ⟨by simp [hpc], .inr rfl⟩

/-- INTERNAL: the steps of a buffer, with their actions. -/
inductive BufferedEffect (P : Params E ε) (s : Buffered E ε) :
    BufferedAction E ε → Buffered E ε → Prop where
  | append (entry : E) :
      BufferedEffect P s (.append entry) { s with waiting := s.waiting ++ [entry] }
  | start {entry : E} {rest : List E} (running : s.running = none)
      (waiting : s.waiting = entry :: rest) :
      BufferedEffect P s .start
        { s with running := some ⟨entry, P.typeOf entry, .incr⟩, waiting := rest }
  | command {c : AppendCall E} {fate : Fate} {log' : Log E} {pc' : AppendPc E}
      (running : s.running = some c)
      (step : appendStep P.digest P.sid s.log c fate = some (log', pc')) :
      BufferedEffect P s (.command fate)
        { s with log := log', running := some { c with pc := pc' } }
  | fulfil {c : AppendCall E} {st : StoredEntry E} {error : ε} (running : s.running = some c)
      (pc : c.pc = .added st true) :
      BufferedEffect P s (.settle error)
        { s with settled := s.settled ++ [⟨c, none⟩], running := none }
  | reject {c : AppendCall E} (error : ε) (running : s.running = some c)
      (ended : c.pc ≠ .incr ∧ ∀ st, c.pc ≠ .xadd st) :
      BufferedEffect P s (.settle error)
        { s with
          settled := s.settled ++ [⟨c, some error⟩], running := none, lastError := some error }
  | flush : BufferedEffect P s .flush { s with flushes := s.flushes ++ [.awaiting s.length] }
  | threw {j n : Nat} {error : ε} (awaits : s.flushes[j]? = some (.awaiting n))
      (settled : n ≤ s.settled.length) (truthy : s.lastError.filter P.truthy = some error) :
      BufferedEffect P s (.resume j)
        { s with
          lastError := none, flushes := s.flushes.set j (.threw n s.settled.length error) }
  | returned {j n : Nat} (awaits : s.flushes[j]? = some (.awaiting n))
      (settled : n ≤ s.settled.length) (falsy : s.lastError.filter P.truthy = none) :
      BufferedEffect P s (.resume j) { s with flushes := s.flushes.set j (.returned n) }

/-- Every step has a listed effect. -/
theorem bufferedStep_effect {t : Buffered E ε} {a : BufferedAction E ε}
    (h : bufferedStep P s a = some t) : BufferedEffect P s a t := by
  cases a with
  | append entry =>
    cases h
    exact .append entry
  | start =>
    simp only [bufferedStep] at h
    split at h
    · rename_i hrunning hwaiting
      cases h
      exact .start hrunning hwaiting
    · cases h
  | command fate =>
    obtain ⟨c, hrunning, h⟩ := Option.bind_eq_some_iff.mp h
    obtain ⟨⟨log', pc'⟩, hstep, rfl⟩ := Option.map_eq_some_iff.mp h
    exact .command hrunning hstep
  | settle error =>
    obtain ⟨c, hrunning, h⟩ := Option.bind_eq_some_iff.mp h
    obtain ⟨ended, ⟨st, hpc, rfl⟩ | rfl⟩ := s.settle_cases h
    · exact .fulfil hrunning hpc
    · exact .reject error hrunning ended
  | flush =>
    cases h
    exact .flush
  | resume j =>
    simp only [bufferedStep] at h
    split at h
    · rename_i n hawaits
      split at h
      · rename_i hsettled
        cases h
        unfold Buffered.resume
        split
        · rename_i error htruthy
          exact .threw hawaits hsettled htruthy
        · rename_i hfalsy
          exact .returned hawaits hsettled hfalsy
      · cases h
    · cases h

theorem Buffered.command_refines (ended : s.Over) (running : s.running = some c) {fate : Fate}
    {log' : Log E} {pc' : AppendPc E}
    (h : appendStep P.digest P.sid s.log c fate = some (log', pc')) :
    (singleWriterSystem P.digest P.sid).next s.calls
      { s with log := log', running := some { c with pc := pc' } }.calls := by
  have hi : s.calls.calls[s.settled.length]? = some c := by
    simp [Buffered.calls, running]
  have set_running : s.calls.calls.set s.settled.length { c with pc := pc' } =
      { s with log := log', running := some { c with pc := pc' } }.calls.calls := by
    simp [Buffered.calls, running]
  constructor
  · refine ⟨.command s.settled.length fate, ?_⟩
    show logStep P.digest P.sid s.calls _ = _
    simp only [logStep, hi]
    show (appendStep P.digest P.sid s.log c fate).map _ = _
    rw [h, Option.map_some, set_running]
    rfl
  · -- only an append at its `INCR` moves the counter, and every other one is over
    intro hseq d hd st hpc
    have hincr : c.pc = .incr := by
      have effect := appendStep_effect h
      cases effect with
      | assigned _ pc | unanswered pc => exact pc
      | dropped | added | rejected => exact absurd rfl hseq
    rcases List.mem_append.mp hd with hd | hd
    · obtain ⟨x, hx, rfl⟩ := List.mem_map.mp hd
      exact (ended x hx).2 st hpc
    · obtain rfl : d = c := by simpa [running] using hd
      simp [hincr] at hpc

theorem Buffered.start_refines (running : s.running = none) (entry : E) (rest : List E) :
    (singleWriterSystem P.digest P.sid).next s.calls
      { s with running := some ⟨entry, P.typeOf entry, .incr⟩, waiting := rest }.calls := by
  refine ⟨⟨.call entry (P.typeOf entry), ?_⟩, fun hseq => absurd rfl hseq⟩
  simp [logStep, Buffered.calls, running]

/-- INTERNAL: **every run of a buffer is a run of the log with a single writer**. -/
theorem buffered_refines (P : Params E ε) :
    Refines (bufferedSystem P)
      (singleWriterSystem P.digest P.sid) Buffered.calls Buffered.Over where
  init := by
    rintro s rfl
    exact ⟨rfl, by simp [Buffered.Over, Buffered.empty]⟩
  step := by
    rintro s t - ended ⟨a, ha⟩
    have settles {c : AppendCall E} (error : Option ε) (hrunning : s.running = some c)
        (hended : c.pc ≠ .incr ∧ ∀ st, c.pc ≠ .xadd st) (e : Option ε) :
        ({ s with settled := s.settled ++ [⟨c, error⟩], running := none, lastError := e } :
          Buffered E ε).calls = s.calls ∧
        ({ s with settled := s.settled ++ [⟨c, error⟩], running := none, lastError := e } :
          Buffered E ε).Over := by
      exact ⟨by simp [Buffered.calls, hrunning], forall_mem_concat ended hended⟩
    cases bufferedStep_effect ha with
    | start running => exact ⟨.single (s.start_refines running _ _), ended⟩
    | command running step => exact ⟨.single (s.command_refines ended running step), ended⟩
    | fulfil running pc =>
      obtain ⟨same, hended⟩ := settles none running (by simp [pc]) s.lastError
      exact ⟨same ▸ .refl, hended⟩
    | reject error running hended =>
      obtain ⟨same, hended⟩ := settles (some error) running hended (some error)
      exact ⟨same ▸ .refl, hended⟩
    | _ => exact ⟨.refl, ended⟩

section

variable {s : Buffered E ε} (h : Reachable (bufferedSystem P) s)
include h

theorem positions_of_buffered : Positions s.calls :=
  positions_of_reachable ((buffered_refines P).reachable h).1.of_restrict

/-- INTERNAL: **the server refuses no append of a buffer** that has its session to itself. -/
theorem buffered_not_rejected (hc : c ∈ s.calls.calls) (st : StoredEntry E) :
    c.pc ≠ .rejected st :=
  (singleWriterLog_of_reachable ((buffered_refines P).reachable h).1).accepted c hc st

end

end ServerlessHarness.SessionLog
