import Mathlib.Data.List.Induction
import ServerlessHarness.Model.Mocactl.ActiveSession

/-!
# One turn at a time

`running` is set as long as a `drain` runs, so there is one thread at most, and what the log says
can be read off the phase of that thread. Its steps are of eight kinds (`Move`). Prompts are taken
from the front of the queue, a turn that has started ends once, and the phases from which the
harness is called again are reached with `streamed` unset only.
-/

set_option autoImplicit false

namespace ServerlessHarness.Mocactl

open Library

/-! ## What the phases and the log say -/

/-- The turn of a thread, from its start to its end. -/
def Phase.turn? : Phase → Option Turn
  | .ensuringToken t | .calling t | .streaming t | .terminal t _ => some t
  | .reminting t | .sleeping t | .failing t _ => some t
  | .loop | .starting _ | .ended _ _ | .paused => none

/-- The prompt that was taken from the queue and whose turn has not started. -/
def Phase.taken : Phase → List Prompt
  | .starting prompt => [prompt]
  | _ => []

/-- The phases on the way to a call of the harness. -/
def Phase.calls : Phase → Bool
  | .ensuringToken _ | .calling _ | .reminting _ | .sleeping _ => true
  | _ => false

def SessionEvent.started? : SessionEvent → Option Prompt
  | .turnStart prompt => some prompt
  | .frame _ | .retrying _ | .turnEnd _ _ | .queue _ | .streamTurn _ => none

def SessionEvent.isMark : SessionEvent → Bool
  | .turnStart _ | .turnEnd _ _ => true
  | .frame _ | .retrying _ | .queue _ | .streamTurn _ => false

/-- The prompts whose turns have started. -/
def started (log : List SessionEvent) : List Prompt := log.filterMap SessionEvent.started?

/-- The starts and the ends of turns. -/
def marks (log : List SessionEvent) : List SessionEvent := log.filter SessionEvent.isMark

/-- A turn in the log. -/
def turnMarks (turn : Prompt × TurnOutcome) : List SessionEvent :=
  [.turnStart turn.1, .turnEnd turn.1 turn.2]

/-- The harness is not called for a prompt after a frame of it. -/
def NeverResent (log : List SessionEvent) : Prop :=
  log.Pairwise fun earlier later => ∀ prompt, earlier = .frame prompt → later ≠ .streamTurn prompt

variable {log : List SessionEvent} {t : Turn}

namespace ActiveSession

/-- The turns that run. -/
def turns (s : ActiveSession) : List Turn := s.threads.filterMap Phase.turn?

/-- One turn at a time, in the order of the calls of `submit`; each turn ends once, before the next
one starts, and is not sent again once it has streamed. -/
structure Serialises (s : ActiveSession) : Prop where
  atMostOne : s.turns.length ≤ 1
  inOrder : (started s.log).Pairwise fun a b => a.id < b.id
  submitted : ∀ prompt ∈ started s.log, s.submitted[prompt.id]? = some prompt.text
  paired : ∃ finished : List (Prompt × TurnOutcome),
    marks s.log = finished.flatMap turnMarks ++ s.turns.map fun t => .turnStart t.prompt
  neverResent : NeverResent s.log

/-! ## The steps of a thread -/

/-- What a step of a thread does: the queue before it, the phase, what is logged, the next phase
and the queue after it. -/
inductive Move : List Prompt → Phase → List SessionEvent → Option Phase → List Prompt → Prop
  | finish : Move [] .loop [] none []
  | take (prompt : Prompt) (rest : List Prompt) :
      Move (prompt :: rest) .loop [.queue rest.length] (some (.starting prompt)) rest
  | begin (queue : List Prompt) (prompt : Prompt) :
      Move queue (.starting prompt) [.turnStart prompt]
        (some (.ensuringToken ⟨prompt, false, false⟩)) queue
  | quiet {queue : List Prompt} {phase next : Phase} {t t' : Turn} {events : List SessionEvent}
      (before : phase.turn? = some t) (after : next.turn? = some t') (prompt : t'.prompt = t.prompt)
      (streamed : t'.streamed = t.streamed) (calls : next.calls → phase.calls ∨ t.streamed = false)
      (silent : events = [] ∨ ∃ seconds, events = [.retrying seconds]) :
      Move queue phase events (some next) queue
  | call {queue : List Prompt} {phase next : Phase} {t : Turn} (before : phase.turn? = some t)
      (calls : phase.calls) (after : next.turn? = some t) :
      Move queue phase [.streamTurn t.prompt] (some next) queue
  | frame {queue : List Prompt} {phase next : Phase} {t : Turn} (before : phase.turn? = some t)
      (after : next.turn? = some { t with streamed := true }) (calls : next.calls = false) :
      Move queue phase [.frame t.prompt] (some next) queue
  | finishTurn {queue : List Prompt} {phase next : Phase} {t : Turn} {outcome : TurnOutcome}
      (before : phase.turn? = some t) (after : next.turn? = none) (idle : next.taken = []) :
      Move queue phase [.turnEnd t.prompt outcome] (some next) queue
  | between {queue : List Prompt} {phase next : Phase} (before : phase.turn? = none)
      (untaken : phase.taken = []) (after : next.turn? = none) (idle : next.taken = []) :
      Move queue phase [] (some next) queue

theorem Move.caught (queue : List Prompt) (aborted : Bool) (t : Turn) (err : TurnError) :
    Move queue (.streaming t) (caught aborted t err).1 (some (caught aborted t err).2) queue := by
  have failing (cancelled : Bool) :
      Move queue (.streaming t) [] (some (.failing t cancelled)) queue :=
    .quiet rfl rfl rfl rfl (fun h => Bool.noConfusion h) (.inl rfl)
  unfold Mocactl.caught
  split
  · exact failing true
  · cases err with
    | cancelled | other => exact failing false
    | api e =>
      dsimp only
      split
      · exact failing false
      · rename_i hagain
        have hstreamed : t.streamed = false := by simp_all
        split
        · split
          · exact failing false
          · exact .quiet rfl rfl rfl rfl (fun _ => .inr hstreamed) (.inl rfl)
        · cases e.retryAfterS with
          | none => exact failing false
          | some seconds =>
            dsimp only
            split
            · exact .quiet rfl rfl rfl rfl (fun _ => .inr hstreamed) (.inr ⟨seconds, rfl⟩)
            · exact failing false

/-- INTERNAL: **every step of a thread is one of these**. -/
theorem Move.of_advance {pauses : Bool} {s : ActiveSession} {phase : Phase} {reply : Reply}
    {events : List SessionEvent} {next : Option Phase}
    (h : s.advance pauses phase reply = some (events, next)) :
    Move s.queue phase events next (s.queueAfter phase) := by
  unfold advance at h
  split at h
  · split at h
    · rename_i hqueue
      cases h
      rw [queueAfter, hqueue]
      exact .finish
    · rename_i prompt rest hqueue
      cases h
      rw [queueAfter, hqueue]
      exact .take prompt rest
  · cases h
    exact .begin _ _
  · cases h
    exact .quiet rfl rfl rfl rfl (fun _ => .inl rfl) (.inl rfl)
  · cases h
    exact .quiet rfl rfl rfl rfl (fun h => Bool.noConfusion h) (.inl rfl)
  · cases h
    exact .call rfl rfl rfl
  · cases h
    exact .frame rfl rfl rfl
  · cases h
    exact .frame rfl rfl rfl
  · cases h
    exact .finishTurn rfl rfl rfl
  · cases h
    exact .caught _ _ _ _
  · cases h
    exact .finishTurn rfl rfl rfl
  · cases h
    exact .quiet rfl rfl rfl rfl (fun _ => .inl rfl) (.inl rfl)
  · cases h
    exact .quiet rfl rfl rfl rfl (fun h => Bool.noConfusion h) (.inl rfl)
  · cases h
    split
    · exact .quiet rfl rfl rfl rfl (fun h => Bool.noConfusion h) (.inl rfl)
    · exact .quiet rfl rfl rfl rfl (fun _ => .inl rfl) (.inl rfl)
  · cases h
    exact .quiet rfl rfl rfl rfl (fun h => Bool.noConfusion h) (.inl rfl)
  · split at h
    · cases h
      exact .finishTurn rfl rfl rfl
    · cases h
      exact .finishTurn rfl rfl rfl
  · cases h
    split
    · exact .between rfl rfl rfl rfl
    · exact .between rfl rfl rfl rfl
  · cases h
    exact .between rfl rfl rfl rfl
  · cases h

theorem taken_of_turn {phase : Phase} (h : phase.turn? = some t) : phase.taken = [] := by
  cases phase <;> first | rfl | cases h

/-! ## What a step keeps -/

/-- The prompts whose turns have started, and then those that wait. -/
def prompts (log : List SessionEvent) (thread : Option Phase) (queue : List Prompt) : List Prompt :=
  started log ++ thread.toList.flatMap Phase.taken ++ queue

/-- What has started, and what waits, were submitted in this order. -/
structure InOrder (prompts : List Prompt) (submitted : List Units) : Prop where
  increasing : prompts.Pairwise fun a b => a.id < b.id
  submitted : ∀ prompt ∈ prompts, submitted[prompt.id]? = some prompt.text

def Paired (log : List SessionEvent) (thread : Option Phase) : Prop :=
  ∃ finished : List (Prompt × TurnOutcome), marks log =
    finished.flatMap turnMarks ++ (thread.toList.filterMap Phase.turn?).map fun t =>
      .turnStart t.prompt

/-- The frames in the log are of turns that have started, and the turn that runs knows whether some
are its own. -/
structure Frames (log : List SessionEvent) (thread : Option Phase) : Prop where
  started : ∀ prompt, .frame prompt ∈ log → prompt ∈ started log
  runs : ∀ phase ∈ thread, ∀ t ∈ phase.turn?, t.prompt ∈ Mocactl.started log
  streamed : ∀ phase ∈ thread, ∀ t ∈ phase.turn?, t.streamed = false → .frame t.prompt ∉ log
  calls : ∀ phase ∈ thread, ∀ t ∈ phase.turn?, phase.calls → t.streamed = false
  neverResent : NeverResent log

variable {queue queue' : List Prompt} {phase : Phase} {events : List SessionEvent}
  {next : Option Phase}

/-- INTERNAL: **a step of a thread passes no prompt over**. -/
theorem Move.prompts_eq (h : Move queue phase events next queue') (log : List SessionEvent) :
    prompts (log ++ events) next queue' = prompts log (some phase) queue := by
  cases h with
  | finish => simp [prompts, Phase.taken]
  | take | begin => simp [prompts, started, SessionEvent.started?, Phase.taken]
  | quiet before after _ _ _ silent =>
    rcases silent with rfl | ⟨seconds, rfl⟩ <;>
      simp [prompts, started, SessionEvent.started?, taken_of_turn before, taken_of_turn after]
  | call before _ after | frame before after _ =>
    simp [prompts, started, SessionEvent.started?, taken_of_turn before, taken_of_turn after]
  | finishTurn before _ idle =>
    simp [prompts, started, SessionEvent.started?, taken_of_turn before, idle]
  | between _ untaken _ idle => simp [prompts, untaken, idle]

/-- INTERNAL: **a step of a thread starts a turn when there is none and ends the one there is**. -/
theorem Move.paired (h : Move queue phase events next queue') (hpaired : Paired log (some phase)) :
    Paired (log ++ events) next := by
  obtain ⟨finished, hmarks⟩ := hpaired
  simp only [marks, Option.toList_some, List.filterMap_cons, List.filterMap_nil] at hmarks
  cases h with
  | finish => exact ⟨finished, by simpa [marks, Phase.turn?] using hmarks⟩
  | take prompt rest | begin _ prompt =>
    exact ⟨finished, by simp [marks, SessionEvent.isMark, Phase.turn?, hmarks]⟩
  | quiet before after same _ _ silent =>
    refine ⟨finished, ?_⟩
    rcases silent with rfl | ⟨seconds, rfl⟩ <;>
      simp [marks, SessionEvent.isMark, before, after, same, hmarks]
  | call before _ after | frame before after _ =>
    exact ⟨finished, by simp [marks, SessionEvent.isMark, before, after, hmarks]⟩
  | @finishTurn _ _ _ t outcome before after _ =>
    refine ⟨finished ++ [(t.prompt, outcome)], ?_⟩
    simp [marks, SessionEvent.isMark, turnMarks, before, after, hmarks]
  | between before _ after _ => exact ⟨finished, by simp [marks, before, after, hmarks]⟩

theorem mem_started_append {prompt : Prompt} (h : prompt ∈ started log)
    (events : List SessionEvent) : prompt ∈ started (log ++ events) := by
  rw [started, List.filterMap_append]
  exact List.mem_append_left _ h

theorem neverResent_append_singleton (log : List SessionEvent) (event : SessionEvent) :
    NeverResent (log ++ [event]) ↔
      NeverResent log ∧ ∀ prompt, event = .streamTurn prompt → .frame prompt ∉ log := by
  simp only [NeverResent, List.pairwise_append, List.pairwise_singleton, List.mem_singleton,
    forall_eq, true_and]
  refine and_congr_right fun _ => ⟨?_, ?_⟩
  · intro h prompt hcall hframe
    exact h _ hframe prompt rfl hcall
  · rintro h _ hframe prompt rfl hcall
    exact h prompt hcall hframe

/-- A step that neither calls the harness nor gets a frame. -/
theorem Frames.silent {thread : Option Phase} (h : Frames log thread)
    (hevents : events = [] ∨ ∃ event, events = [event] ∧ ∀ prompt,
      event ≠ .frame prompt ∧ event ≠ .streamTurn prompt)
    (hnext : ∀ phase' ∈ next, ∀ t' ∈ phase'.turn?, ∃ phase ∈ thread, ∃ t ∈ phase.turn?,
      t'.prompt = t.prompt ∧ t'.streamed = t.streamed ∧
        (phase'.calls → phase.calls ∨ t.streamed = false)) :
    Frames (log ++ events) next := by
  have hframe (prompt : Prompt) : .frame prompt ∈ log ++ events → .frame prompt ∈ log := by
    intro hmem
    rcases hevents with rfl | ⟨event, rfl, hevent⟩
    · simpa using hmem
    · exact (List.mem_append.mp hmem).resolve_right fun hlast =>
        (hevent prompt).1 (List.mem_singleton.mp hlast).symm
  constructor
  case started => exact fun prompt hmem =>
    mem_started_append (h.started prompt (hframe prompt hmem)) events
  case runs =>
    intro phase' hphase' t' ht'
    obtain ⟨phase, hphase, t, ht, hprompt, -⟩ := hnext phase' hphase' t' ht'
    rw [hprompt]
    exact mem_started_append (h.runs phase hphase t ht) events
  case streamed =>
    intro phase' hphase' t' ht' hfalse hmem
    obtain ⟨phase, hphase, t, ht, hprompt, hstreamed, -⟩ := hnext phase' hphase' t' ht'
    rw [hprompt] at hmem
    exact h.streamed phase hphase t ht (hstreamed ▸ hfalse) (hframe _ hmem)
  case calls =>
    intro phase' hphase' t' ht' hcalls
    obtain ⟨phase, hphase, t, ht, -, hstreamed, hbefore⟩ := hnext phase' hphase' t' ht'
    rw [hstreamed]
    exact (hbefore hcalls).elim (h.calls phase hphase t ht) id
  case neverResent =>
    rcases hevents with rfl | ⟨event, rfl, hevent⟩
    · rw [List.append_nil]
      exact h.neverResent
    · rw [neverResent_append_singleton]
      exact ⟨h.neverResent, fun prompt hcall => absurd hcall (hevent prompt).2⟩

theorem Frames.begin {prompt : Prompt} (h : Frames log (some (.starting prompt)))
    (hfresh : prompt ∉ Mocactl.started log) :
    Frames (log ++ [.turnStart prompt]) (some (.ensuringToken ⟨prompt, false, false⟩)) := by
  have hframe (other : Prompt) : .frame other ∈ log ++ [.turnStart prompt] → .frame other ∈ log :=
    by simp
  constructor
  case started => exact fun other hmem => mem_started_append (h.started other (hframe other hmem)) _
  case runs =>
    rintro _ ⟨⟩ _ ⟨⟩
    simp [Mocactl.started, SessionEvent.started?]
  case streamed =>
    rintro _ ⟨⟩ _ ⟨⟩ - hmem
    exact hfresh (h.started prompt (hframe prompt hmem))
  case calls =>
    rintro _ ⟨⟩ _ ⟨⟩ -
    rfl
  case neverResent =>
    rw [neverResent_append_singleton]
    exact ⟨h.neverResent, fun other hcall => SessionEvent.noConfusion hcall⟩

theorem Frames.call {after : Phase} (h : Frames log (some phase)) (hbefore : phase.turn? = some t)
    (hcalls : phase.calls) (hafter : after.turn? = some t) :
    Frames (log ++ [.streamTurn t.prompt]) (some after) := by
  have hstreamed : t.streamed = false := h.calls phase rfl t hbefore hcalls
  have hnone : .frame t.prompt ∉ log := h.streamed phase rfl t hbefore hstreamed
  constructor
  case started => exact fun prompt hmem =>
    mem_started_append (h.started prompt (by simpa using hmem)) _
  case runs =>
    rintro _ ⟨⟩ t' ht'
    obtain rfl : t = t' := Option.some.inj (hafter.symm.trans ht')
    exact mem_started_append (h.runs phase rfl t hbefore) _
  case streamed =>
    rintro _ ⟨⟩ t' ht' -
    obtain rfl : t = t' := Option.some.inj (hafter.symm.trans ht')
    simpa using hnone
  case calls =>
    rintro _ ⟨⟩ t' ht' -
    obtain rfl : t = t' := Option.some.inj (hafter.symm.trans ht')
    exact hstreamed
  case neverResent =>
    rw [neverResent_append_singleton]
    refine ⟨h.neverResent, fun prompt hcall => ?_⟩
    cases hcall
    exact hnone

theorem Frames.frame {after : Phase} (h : Frames log (some phase))
    (hbefore : phase.turn? = some t) (hafter : after.turn? = some { t with streamed := true })
    (hcalls : after.calls = false) : Frames (log ++ [.frame t.prompt]) (some after) := by
  have hruns : t.prompt ∈ Mocactl.started log := h.runs phase rfl t hbefore
  constructor
  case started =>
    intro prompt hmem
    refine mem_started_append ?_ _
    rcases List.mem_append.mp hmem with hmem | hlast
    · exact h.started prompt hmem
    · cases List.mem_singleton.mp hlast
      exact hruns
  case runs =>
    rintro _ ⟨⟩ t' ht'
    obtain rfl := Option.some.inj (hafter.symm.trans ht')
    exact mem_started_append hruns _
  case streamed =>
    rintro _ ⟨⟩ t' ht' hfalse
    obtain rfl := Option.some.inj (hafter.symm.trans ht')
    cases hfalse
  case calls =>
    rintro _ ⟨⟩ t' _ htrue
    rw [hcalls] at htrue
    cases htrue
  case neverResent =>
    rw [neverResent_append_singleton]
    exact ⟨h.neverResent, fun prompt hcall => SessionEvent.noConfusion hcall⟩

/-- INTERNAL: **a step of a thread calls the harness before there are frames only**. -/
theorem Move.frames (h : Move queue phase events next queue')
    (hfresh : ∀ prompt, phase = .starting prompt → prompt ∉ started log)
    (hframes : Frames log (some phase)) : Frames (log ++ events) next := by
  cases h with
  | finish => exact hframes.silent (.inl rfl) (by simp)
  | take prompt rest => exact hframes.silent (.inr ⟨_, rfl, by simp⟩) (by simp [Phase.turn?])
  | begin _ prompt => exact hframes.begin (hfresh prompt rfl)
  | @quiet _ _ _ t t' _ before after same streamed calls silent =>
    refine hframes.silent (silent.imp id fun ⟨seconds, hevents⟩ => ⟨_, hevents, by simp⟩) ?_
    rintro _ ⟨⟩ t' ht'
    obtain rfl := Option.some.inj (after.symm.trans ht')
    exact ⟨_, rfl, t, before, same, streamed, calls⟩
  | call before calls after => exact hframes.call before calls after
  | frame before after calls => exact hframes.frame before after calls
  | finishTurn before after _ => exact hframes.silent (.inr ⟨_, rfl, by simp⟩) (by simp [after])
  | between before _ after _ => exact hframes.silent (.inl rfl) (by simp [after])

/-! ## Runs -/

/-- What holds between any two steps. -/
structure Invariant (s : ActiveSession) (thread : Option Phase) : Prop where
  threads : s.threads = thread.toList
  running : s.running = thread.isSome
  inOrder : InOrder (prompts s.log thread s.queue) s.submitted
  paired : Paired s.log thread
  frames : Frames s.log thread

theorem Invariant.start : Invariant .start none where
  threads := rfl
  running := rfl
  inOrder := ⟨.nil, by simp [prompts, started, ActiveSession.start]⟩
  paired := ⟨[], rfl⟩
  frames := ⟨by simp [ActiveSession.start], by simp, by simp, by simp, .nil⟩

variable {s : ActiveSession} {thread : Option Phase}

theorem Invariant.resume (h : Invariant s thread) (pauses : Bool) (i : ℕ) (reply : Reply) :
    ∃ next, Invariant (s.resume pauses i reply) next := by
  fun_cases ActiveSession.resume pauses s i reply with
  | case1 => exact ⟨thread, h⟩
  | case2 => exact ⟨thread, h⟩
  | case3 phase hphase events next hadvance =>
    obtain ⟨hi, rfl⟩ : i = 0 ∧ thread = some phase := by
      rw [h.threads] at hphase
      cases thread with
      | none => simp at hphase
      | some only => cases i <;> simp_all
    have hmove := Move.of_advance hadvance
    have hthreads : s.threads.take i ++ next.toList ++ s.threads.drop (i + 1) = next.toList := by
      simp [hi, h.threads]
    refine ⟨next, hthreads, ?_, ?_, hmove.paired h.paired, hmove.frames ?_ h.frames⟩
    · simp [h.running]
    · rw [hmove.prompts_eq]
      exact h.inOrder
    · rintro prompt rfl hstarted
      have hincreasing := h.inOrder.increasing
      simp only [prompts, Option.toList_some, List.flatMap_singleton, Phase.taken,
        List.append_assoc, List.pairwise_append] at hincreasing
      exact absurd (hincreasing.2.2 prompt hstarted prompt (by simp)) (Nat.lt_irrefl _)

/-- The length of the queue is told to listeners. -/
theorem Invariant.queue_told (h : Invariant s thread) (size : ℕ) :
    Invariant { s with log := s.log ++ [.queue size] } thread where
  threads := h.threads
  running := h.running
  inOrder := by
    rw [show prompts (s.log ++ [.queue size]) thread s.queue = prompts s.log thread s.queue by
      simp [prompts, started, SessionEvent.started?]]
    exact h.inOrder
  paired := by
    obtain ⟨finished, hmarks⟩ := h.paired
    rw [marks] at hmarks
    exact ⟨finished, by simp [marks, SessionEvent.isMark, hmarks]⟩
  frames := h.frames.silent (.inr ⟨_, rfl, by simp⟩) fun phase hphase t ht =>
    ⟨phase, hphase, t, ht, rfl, rfl, .inl⟩

theorem Invariant.submit (h : Invariant s thread) (text : Units) :
    Invariant (s.submit text) thread where
  threads := h.threads
  running := h.running
  inOrder := by
    have hprompts : prompts (s.submit text).log thread (s.submit text).queue =
        prompts s.log thread s.queue ++ [⟨s.submitted.length, text⟩] := by
      simp [prompts, ActiveSession.submit, started, SessionEvent.started?]
    rw [hprompts]
    constructor
    · refine List.pairwise_append.mpr ⟨h.inOrder.increasing, List.pairwise_singleton _ _, ?_⟩
      intro prompt hprompt _ hlast
      rw [List.mem_singleton.mp hlast]
      exact (List.getElem?_eq_some_iff.mp (h.inOrder.submitted prompt hprompt)).1
    · intro prompt hprompt
      rcases List.mem_append.mp hprompt with hprompt | hlast
      · have hbefore := h.inOrder.submitted prompt hprompt
        rw [ActiveSession.submit,
          List.getElem?_append_left (List.getElem?_eq_some_iff.mp hbefore).1]
        exact hbefore
      · rw [List.mem_singleton.mp hlast]
        exact List.getElem?_concat_length
  paired := (h.queue_told _).paired
  frames := (h.queue_told _).frames

theorem Invariant.clearQueue (h : Invariant s thread) : Invariant s.clearQueue thread where
  threads := h.threads
  running := h.running
  inOrder := by
    have hsublist : (prompts s.clearQueue.log thread s.clearQueue.queue).Sublist
        (prompts s.log thread s.queue) := by
      simp [prompts, ActiveSession.clearQueue, started, SessionEvent.started?]
    exact ⟨h.inOrder.increasing.sublist hsublist, fun prompt hprompt =>
      h.inOrder.submitted prompt (hsublist.subset hprompt)⟩
  paired := (h.queue_told _).paired
  frames := (h.queue_told _).frames

theorem Invariant.drain (h : Invariant s thread) : ∃ next, Invariant s.drain next := by
  unfold ActiveSession.drain
  split
  · exact ⟨thread, h⟩
  · split
    · exact ⟨thread, h.threads, h.running, h.inOrder, h.paired, h.frames⟩
    · rename_i hrunning
      -- A thread that runs has set `running`.
      obtain rfl : thread = none := by
        rw [h.running] at hrunning
        simpa using hrunning
      refine ⟨some .loop, by simp [h.threads], rfl, h.inOrder, h.paired, ?_⟩
      exact ⟨h.frames.started, by simp [Phase.turn?], by simp [Phase.turn?], by simp [Phase.turn?],
        h.frames.neverResent⟩

/-- INTERNAL: **what one step keeps**. -/
theorem Invariant.step (h : Invariant s thread) (pauses : Bool) (input : Input) :
    ∃ next, Invariant (s.step pauses input) next := by
  cases input with
  | submit text => exact ⟨thread, h.submit text⟩
  | cancel => exact ⟨thread, h.threads, h.running, h.inOrder, h.paired, h.frames⟩
  | clearQueue => exact ⟨thread, h.clearQueue⟩
  | drain => exact h.drain
  | resume i reply => exact h.resume pauses i reply

/-- The invariant holds after every list of inputs. -/
theorem Invariant.run (pauses : Bool) (inputs : List Input) :
    ∃ thread, Invariant (run pauses inputs) thread := by
  induction inputs using List.reverseRecOn with
  | nil => exact ⟨none, .start⟩
  | append_singleton inputs input ih =>
    obtain ⟨thread, h⟩ := ih
    rw [ActiveSession.run, List.foldl_append]
    exact h.step pauses input

theorem Invariant.serialises (h : Invariant s thread) : s.Serialises where
  atMostOne := by
    rw [turns, h.threads]
    refine Nat.le_trans (List.length_filterMap_le _ _) ?_
    cases thread <;> simp
  inOrder := by
    have hincreasing := h.inOrder.increasing
    rw [prompts, List.append_assoc] at hincreasing
    exact (List.pairwise_append.mp hincreasing).1
  submitted := fun prompt hprompt => h.inOrder.submitted prompt (by simp [prompts, hprompt])
  paired := by
    rw [turns, h.threads]
    exact h.paired
  neverResent := h.frames.neverResent

/-- The texts of the calls of `submit`. -/
def Input.submitted? : Input → Option Units
  | .submit text => some text
  | .cancel | .clearQueue | .drain | .resume _ _ => none

theorem submitted_step (pauses : Bool) (s : ActiveSession) (input : Input) :
    (s.step pauses input).submitted = s.submitted ++ input.submitted?.toList := by
  cases input with
  | submit text => rfl
  | cancel | clearQueue => exact (List.append_nil _).symm
  | drain =>
    rw [step, ActiveSession.drain]
    split
    · exact (List.append_nil _).symm
    · split <;> exact (List.append_nil _).symm
  | resume i reply =>
    rw [step]
    fun_cases ActiveSession.resume pauses s i reply <;> exact (List.append_nil _).symm

theorem submitted_run (pauses : Bool) (inputs : List Input) :
    (run pauses inputs).submitted = inputs.filterMap Input.submitted? := by
  induction inputs using List.reverseRecOn with
  | nil => rfl
  | append_singleton inputs input ih =>
    have hstep : run pauses (inputs ++ [input]) = (run pauses inputs).step pauses input := by
      rw [run, List.foldl_append]
      rfl
    rw [hstep, submitted_step, ih, List.filterMap_append]
    cases h : input.submitted? <;> simp [h]

/-- **The client runs the turns of a session one after the other**, for every interleaving of the
calls of its methods with the steps of turns, whatever they are answered; the prompts are numbered
by the calls of `submit`. -/
theorem run_serialises (pauses : Bool) (inputs : List Input) :
    (run pauses inputs).Serialises ∧
      (run pauses inputs).submitted = inputs.filterMap Input.submitted? := by
  obtain ⟨thread, h⟩ := Invariant.run pauses inputs
  exact ⟨h.serialises, submitted_run pauses inputs⟩

/-! ## Prompts that wait -/

/-- A prompt in the queue has a `drain` that runs or is about to be called. -/
def Attended (s : ActiveSession) : Prop := s.queue = [] ∨ 0 < s.due ∨ s.threads ≠ []

theorem Move.queue_eq_nil (h : Move queue phase events none queue') : queue' = [] := by
  cases h
  rfl

theorem Attended.resume (hs : s.Attended) (pauses : Bool) (i : ℕ) (reply : Reply) :
    (s.resume pauses i reply).Attended := by
  fun_cases ActiveSession.resume pauses s i reply with
  | case1 => exact hs
  | case2 => exact hs
  | case3 phase hphase events next hadvance =>
    cases next with
    | none => exact .inl (Move.of_advance hadvance).queue_eq_nil
    | some next => exact .inr (.inr (by simp))

theorem Attended.drain (hs : s.Attended) (h : Invariant s thread) : s.drain.Attended := by
  unfold ActiveSession.drain
  split
  · exact hs
  · split
    · rename_i hrunning
      -- Whoever set `running` has not ended.
      refine .inr (.inr ?_)
      rw [h.running] at hrunning
      rw [h.threads]
      cases thread <;> simp_all
    · exact .inr (.inr (by simp))

/-- **No prompt is left in the queue** without a `drain` that will take it, in any run. -/
theorem run_attended (pauses : Bool) (inputs : List Input) : (run pauses inputs).Attended := by
  induction inputs using List.reverseRecOn with
  | nil => exact .inl rfl
  | append_singleton inputs input ih =>
    obtain ⟨thread, h⟩ := Invariant.run pauses inputs
    rw [ActiveSession.run, List.foldl_append]
    cases input with
    | submit text => exact .inr (.inl (Nat.succ_pos _))
    | cancel => exact ih
    | clearQueue => exact .inl rfl
    | drain => exact ih.drain h
    | resume i reply => exact ih.resume pauses i reply

end ActiveSession

end ServerlessHarness.Mocactl
