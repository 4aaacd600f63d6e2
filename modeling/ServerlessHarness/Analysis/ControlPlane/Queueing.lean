import Mathlib.Data.List.Induction
import ServerlessHarness.Library.Slots
import ServerlessHarness.Model.ControlPlane.SubjectQueue

/-!
# The operations of a subject run one after another

What a step can do is a new call or the next phase of one call (`Turn`). The tail that a call finds
in the map is that of the call before it for the same subject, and a subject without an entry has
no call under way (`Chained`): so an operation starts when all calls before it have finished, and
the clean-up of a tail that is still in the map is that of the last call. The log of each call is
the history of its phase (`Logged`).
-/

set_option autoImplicit false

namespace ServerlessHarness.ControlPlane

open Library

universe u

variable {ρ : Type u} {q q' : SubjectQueue ρ} {i j k : ℕ} {c c' : QueuedCall ρ} {phase : Phase ρ}

/-! ## Steps -/

/-- What a step can do. -/
inductive Turn (q : SubjectQueue ρ) : SubjectQueue ρ → Prop where
  | idle : Turn q q
  | called (subject : String) : Turn q (q.runCall subject)
  | starts {i : ℕ} {c : QueuedCall ρ} (found : q.calls[i]? = some c) (queued : c.phase = .queued)
      (ready : ∀ j, c.prev = some j → q.finished j = true) :
      Turn q { q.setPhase i .running with log := q.log ++ [.started i] }
  | settles {i : ℕ} {c : QueuedCall ρ} (o : Outcome ρ) (found : q.calls[i]? = some c)
      (running : c.phase = .running) :
      Turn q { q.setPhase i (.settled o) with log := q.log ++ [.settled i o] }
  | returns {i : ℕ} {c : QueuedCall ρ} (o : Outcome ρ) (found : q.calls[i]? = some c)
      (settled : c.phase = .settled o) :
      Turn q { q.setPhase i (.returned o) with log := q.log ++ [.returned i o] }
  | tails {i : ℕ} {c : QueuedCall ρ} (o : Outcome ρ) (found : q.calls[i]? = some c)
      (returned : c.phase = .returned o) : Turn q (q.setPhase i (.tailed o))
  | removes {i : ℕ} {c : QueuedCall ρ} (o : Outcome ρ) (found : q.calls[i]? = some c)
      (tailed : c.phase = .tailed o) (current : q.chains.get c.subject = some i) :
      Turn q { q.setPhase i (.cleaned o) with chains := q.chains.erase c.subject }
  | keeps {i : ℕ} {c : QueuedCall ρ} (o : Outcome ρ) (found : q.calls[i]? = some c)
      (tailed : c.phase = .tailed o) (replaced : q.chains.get c.subject ≠ some i) :
      Turn q (q.setPhase i (.cleaned o))

theorem microtask_turn (h : q.microtask i = some q') : Turn q q' := by
  obtain ⟨c, hc, h⟩ := Option.bind_eq_some_iff.mp h
  cases hphase : c.phase with
  | queued =>
    simp only [hphase] at h
    split at h
    · next hready =>
      cases h
      refine .starts hc hphase ?_
      intro j hj
      rwa [hj, Option.all_some] at hready
    · cases h
  | running | cleaned => simp only [hphase, reduceCtorEq] at h
  | settled o =>
    simp only [hphase, Option.some.injEq] at h
    exact h ▸ .returns o hc hphase
  | returned o =>
    simp only [hphase, Option.some.injEq] at h
    exact h ▸ .tails o hc hphase
  | tailed o =>
    simp only [hphase] at h
    split at h
    · next hcurrent =>
      cases h
      exact .removes o hc hphase hcurrent
    · next hreplaced =>
      cases h
      exact .keeps o hc hphase hreplaced

theorem step_turn (q : SubjectQueue ρ) (a : QueueAction ρ) : Turn q (q.step a) := by
  cases a with
  | runCall subject => exact .called subject
  | settle i o =>
    simp only [SubjectQueue.step, SubjectQueue.settle]
    split
    · next hphase =>
      obtain ⟨c, hc, hrunning⟩ := Option.map_eq_some_iff.mp hphase
      exact .settles o hc hrunning
    · exact .idle
  | microtask i =>
    simp only [SubjectQueue.step]
    cases h : q.microtask i with
    | none => exact .idle
    | some q' => exact microtask_turn h

/-! ## A new phase -/

/-- A call after the phase of call `i` was set. -/
theorem setPhase_slot (h : (q.setPhase i phase).calls[k]? = some c') :
    ∃ c, q.calls[k]? = some c ∧ c'.subject = c.subject ∧ c'.prev = c.prev ∧
      (k = i ∧ c'.phase = phase ∨ k ≠ i ∧ c'.phase = c.phase) := by
  rcases slot_of_modify h with ⟨rfl, c, hc, rfl⟩ | ⟨hne, hc⟩
  · exact ⟨c, hc, rfl, rfl, .inl ⟨rfl, rfl⟩⟩
  · exact ⟨c', hc, rfl, rfl, .inr ⟨hne.symm, rfl⟩⟩

theorem exists_setPhase_slot (i : ℕ) (phase : Phase ρ) (h : q.calls[k]? = some c) :
    ∃ c', (q.setPhase i phase).calls[k]? = some c' ∧ c'.subject = c.subject := by
  by_cases hik : i = k
  · subst hik
    exact ⟨_, slot_modify_self h, rfl⟩
  · exact ⟨c, (slot_modify_ne hik).trans h, rfl⟩

/-- A finished call stays finished if the new phase of call `i` keeps that. -/
theorem finished_setPhase (hi : q.calls[i]? = some c)
    (hmono : c.phase.finished = true → phase.finished = true)
    {c₀ : QueuedCall ρ} (hk : q.calls[k]? = some c₀)
    (hk' : (q.setPhase i phase).calls[k]? = some c')
    (hfinished : c₀.phase.finished = true) : c'.phase.finished = true := by
  obtain ⟨c₁, hc₁, _, _, ⟨rfl, hphase⟩ | ⟨_, hphase⟩⟩ := setPhase_slot hk'
  · rw [hphase]
    rw [Option.some.inj (hi.symm.trans hk)] at hmono
    exact hmono hfinished
  · rw [hphase, ← Option.some.inj (hk.symm.trans hc₁)]
    exact hfinished

/-! ## The chains -/

/-- The tail a call found is that of the call before it, and an operation starts after all before
it. -/
structure InOrder (q : SubjectQueue ρ) : Prop where
  prev : ∀ {i j : ℕ} {c : QueuedCall ρ}, q.calls[i]? = some c → c.prev = some j → j < i ∧
    (∃ c' : QueuedCall ρ, q.calls[j]? = some c' ∧ c'.subject = c.subject) ∧
    ∀ (k : ℕ) (c' : QueuedCall ρ), j < k → k < i → q.calls[k]? = some c' → c'.subject ≠ c.subject
  first : ∀ {i k : ℕ} {c c' : QueuedCall ρ}, q.calls[i]? = some c → c.prev = none → k < i →
    q.calls[k]? = some c' → c'.subject = c.subject → c'.phase.finished = true
  order : ∀ {i k : ℕ} {c c' : QueuedCall ρ}, q.calls[i]? = some c → c.phase ≠ .queued → k < i →
    q.calls[k]? = some c' → c'.subject = c.subject → c'.phase.finished = true

/-- The entry of a subject is its last call, which is not cleaned up; without an entry all its
calls have finished. -/
structure Held (q : SubjectQueue ρ) : Prop where
  entry : ∀ {s : String} {i : ℕ}, q.chains.get s = some i → ∃ c : QueuedCall ρ,
    q.calls[i]? = some c ∧ c.subject = s ∧ (∀ o, c.phase ≠ .cleaned o) ∧
    ∀ (k : ℕ) (c' : QueuedCall ρ), i < k → q.calls[k]? = some c' → c'.subject ≠ s
  free : ∀ {s : String} {i : ℕ} {c : QueuedCall ρ}, q.chains.get s = none → q.calls[i]? = some c →
    c.subject = s → c.phase.finished = true

structure Chained (q : SubjectQueue ρ) : Prop where
  inOrder : InOrder q
  held : Held q

/-- The chains do not depend on the log. -/
theorem Chained.log (h : Chained q) (log : List (QueueEvent ρ)) : Chained { q with log } :=
  ⟨⟨h.inOrder.prev, h.inOrder.first, h.inOrder.order⟩, ⟨h.held.entry, h.held.free⟩⟩

/-- INTERNAL: **a call whose tail has settled comes after finished calls only.** -/
theorem InOrder.ready (h : InOrder q) (hi : q.calls[i]? = some c)
    (hready : ∀ j, c.prev = some j → q.finished j = true) (hki : k < i) (hk : q.calls[k]? = some c')
    (hsubject : c'.subject = c.subject) : c'.phase.finished = true := by
  cases hprev : c.prev with
  | none => exact h.first hi hprev hki hk hsubject
  | some j =>
    obtain ⟨hji, ⟨cj, hcj, hcjs⟩, hbetween⟩ := h.prev hi hprev
    have hfinished : cj.phase.finished = true := by
      have := hready j hprev
      rwa [SubjectQueue.finished, hcj, Option.any_some] at this
    rcases Nat.lt_trichotomy k j with hlt | rfl | hgt
    · refine h.order hcj ?_ hlt hk (hsubject.trans hcjs.symm)
      intro hqueued
      rw [hqueued] at hfinished
      cases hfinished
    · rwa [Option.some.inj (hk.symm.trans hcj)]
    · exact absurd hsubject (hbetween k c' hgt hki hk)

theorem InOrder.setPhase (h : InOrder q) (phase : Phase ρ) (hi : q.calls[i]? = some c)
    (hmono : c.phase.finished = true → phase.finished = true)
    (hstart : ∀ (k : ℕ) (c' : QueuedCall ρ), k < i → q.calls[k]? = some c' →
      c'.subject = c.subject → c'.phase.finished = true) :
    InOrder (q.setPhase i phase) where
  prev := by
    intro i' j c₁ hc₁ hprev
    obtain ⟨c₀, hc₀, hsubject, hsame, _⟩ := setPhase_slot hc₁
    obtain ⟨hlt, ⟨cj, hcj, hcjs⟩, hbetween⟩ := h.prev hc₀ (hsame ▸ hprev)
    obtain ⟨cj', hcj', hcjs'⟩ := exists_setPhase_slot i phase hcj
    refine ⟨hlt, ⟨cj', hcj', (hcjs'.trans hcjs).trans hsubject.symm⟩, ?_⟩
    intro k ck hjk hki hck
    obtain ⟨ck₀, hck₀, hcks, _⟩ := setPhase_slot hck
    rw [hcks, hsubject]
    exact hbetween k ck₀ hjk hki hck₀
  first := by
    intro i' k c₁ ck hc₁ hprev hki hck hsubject
    obtain ⟨c₀, hc₀, hs, hsame, _⟩ := setPhase_slot hc₁
    obtain ⟨ck₀, hck₀, hcks, _⟩ := setPhase_slot hck
    have hold := h.first hc₀ (hsame ▸ hprev) hki hck₀ ((hcks.symm.trans hsubject).trans hs)
    exact finished_setPhase hi hmono hck₀ hck hold
  order := by
    intro i' k c₁ ck hc₁ hphase hki hck hsubject
    obtain ⟨c₀, hc₀, hs, _, hcases⟩ := setPhase_slot hc₁
    obtain ⟨ck₀, hck₀, hcks, _⟩ := setPhase_slot hck
    have hsame : ck₀.subject = c₀.subject := (hcks.symm.trans hsubject).trans hs
    refine finished_setPhase hi hmono hck₀ hck ?_
    rcases hcases with ⟨rfl, _⟩ | ⟨_, heq⟩
    · rw [← Option.some.inj (hi.symm.trans hc₀)] at hsame
      exact hstart k ck₀ hki hck₀ hsame
    · exact h.order hc₀ (heq ▸ hphase) hki hck₀ hsame

theorem Held.setPhase (h : Held q) (phase : Phase ρ) (hi : q.calls[i]? = some c)
    (hmono : c.phase.finished = true → phase.finished = true)
    (hcleaned : q.chains.get c.subject = some i → ∀ o, phase ≠ .cleaned o) :
    Held (q.setPhase i phase) where
  entry := by
    intro s e he
    obtain ⟨ce, hce, hs, hnot, hlast⟩ := h.entry he
    obtain ⟨ce', hce', hs'⟩ := exists_setPhase_slot i phase hce
    refine ⟨ce', hce', hs'.trans hs, ?_, ?_⟩
    · obtain ⟨c₀, hc₀, _, _, ⟨rfl, hphase⟩ | ⟨_, hphase⟩⟩ := setPhase_slot hce'
      · rw [hphase]
        refine hcleaned ?_
        rw [Option.some.inj (hi.symm.trans hce), hs]
        exact he
      · rw [hphase, ← Option.some.inj (hce.symm.trans hc₀)]
        exact hnot
    · intro k ck hlt hck
      obtain ⟨ck₀, hck₀, hcks, _⟩ := setPhase_slot hck
      rw [hcks]
      exact hlast k ck₀ hlt hck₀
  free := by
    intro s k ck hnone hck hs
    obtain ⟨ck₀, hck₀, hcks, _⟩ := setPhase_slot hck
    exact finished_setPhase hi hmono hck₀ hck (h.free hnone hck₀ (hcks ▸ hs))

/-- A new call queues behind the chain. -/
theorem Chained.called (h : Chained q) (subject : String) : Chained (q.runCall subject) where
  inOrder := by
    refine ⟨?_, ?_, ?_⟩
    · intro i j c hi hprev
      rcases slot_of_append hi with hold | ⟨rfl, rfl⟩
      · obtain ⟨hlt, ⟨cj, hcj, hs⟩, hbetween⟩ := h.inOrder.prev hold hprev
        refine ⟨hlt, ⟨cj, slot_append hcj _, hs⟩, ?_⟩
        intro k ck hjk hki hck
        rcases slot_of_append hck with hck | ⟨rfl, _⟩
        · exact hbetween k ck hjk hki hck
        · exact absurd (lt_of_slot hold) (Nat.lt_asymm hki)
      · obtain ⟨cj, hcj, hs, _, hlast⟩ := h.held.entry hprev
        refine ⟨lt_of_slot hcj, ⟨cj, slot_append hcj _, hs⟩, ?_⟩
        intro k ck hjk hki hck
        rcases slot_of_append hck with hck | ⟨rfl, _⟩
        · exact hlast k ck hjk hck
        · exact absurd hki (Nat.lt_irrefl _)
    · intro i k c ck hi hprev hki hck hs
      rcases slot_of_append hck with hck | ⟨rfl, _⟩
      · rcases slot_of_append hi with hold | ⟨rfl, rfl⟩
        · exact h.inOrder.first hold hprev hki hck hs
        · exact h.held.free hprev hck hs
      · rcases slot_of_append hi with hold | ⟨rfl, _⟩
        · exact absurd (lt_of_slot hold) (Nat.lt_asymm hki)
        · exact absurd hki (Nat.lt_irrefl _)
    · intro i k c ck hi hphase hki hck hs
      rcases slot_of_append hi with hold | ⟨rfl, rfl⟩
      · rcases slot_of_append hck with hck | ⟨rfl, _⟩
        · exact h.inOrder.order hold hphase hki hck hs
        · exact absurd (lt_of_slot hold) (Nat.lt_asymm hki)
      · exact absurd rfl hphase
  held := by
    refine ⟨?_, ?_⟩
    · intro s e he
      by_cases hs : s = subject
      · subst hs
        have heq : q.calls.length = e := Option.some.inj (OrderedMap.get_set_self.symm.trans he)
        subst heq
        refine ⟨_, List.getElem?_concat_length, rfl, nofun, ?_⟩
        intro k ck hlt hck
        rcases slot_of_append hck with hck | ⟨rfl, _⟩
        · exact absurd (lt_of_slot hck) (Nat.lt_asymm hlt)
        · exact absurd hlt (Nat.lt_irrefl _)
      · have hold : q.chains.get s = some e := (OrderedMap.get_set_ne hs).symm.trans he
        obtain ⟨ce, hce, hsub, hnot, hlast⟩ := h.held.entry hold
        refine ⟨ce, slot_append hce _, hsub, hnot, ?_⟩
        intro k ck hlt hck
        rcases slot_of_append hck with hck | ⟨rfl, rfl⟩
        · exact hlast k ck hlt hck
        · exact Ne.symm hs
    · intro s k ck hnone hck hs
      by_cases hsub : s = subject
      · subst hsub
        cases OrderedMap.get_set_self.symm.trans hnone
      · rcases slot_of_append hck with hck | ⟨rfl, rfl⟩
        · exact h.held.free ((OrderedMap.get_set_ne hsub).symm.trans hnone) hck hs
        · exact absurd hs.symm hsub

/-- INTERNAL: **the clean-up never drops a chain under way**: the tail in the map is that of the
last call, and the calls before it have finished. -/
theorem Chained.removes {o : Outcome ρ} (h : Chained q) (hi : q.calls[i]? = some c)
    (htailed : c.phase = .tailed o) (hcurrent : q.chains.get c.subject = some i) :
    Chained { q.setPhase i (.cleaned o) with chains := q.chains.erase c.subject } := by
  have hinOrder : InOrder (q.setPhase i (.cleaned o)) := by
    refine h.inOrder.setPhase _ hi (fun _ => rfl) ?_
    intro k ck hki hck hs
    exact h.inOrder.order hi (by rw [htailed]; nofun) hki hck hs
  obtain ⟨_, _, _, _, hlast⟩ := h.held.entry hcurrent
  refine ⟨⟨hinOrder.prev, hinOrder.first, hinOrder.order⟩, ⟨?_, ?_⟩⟩
  · intro s e he
    obtain ⟨hne, hold⟩ := OrderedMap.get_erase_eq_some he
    obtain ⟨ce, hce, hs, hnot, hafter⟩ := h.held.entry hold
    have hei : i ≠ e := by
      rintro rfl
      exact hne (hs.symm.trans (congrArg QueuedCall.subject (Option.some.inj (hce.symm.trans hi))))
    refine ⟨ce, (slot_modify_ne hei).trans hce, hs, hnot, ?_⟩
    intro k ck hlt hck
    obtain ⟨ck₀, hck₀, hcks, _⟩ := setPhase_slot hck
    rw [hcks]
    exact hafter k ck₀ hlt hck₀
  · intro s k ck hnone hck hs
    obtain ⟨ck₀, hck₀, hcks, _⟩ := setPhase_slot hck
    by_cases hsub : s = c.subject
    · have hsame : ck₀.subject = c.subject := (hcks.symm.trans hs).trans hsub
      rcases Nat.lt_trichotomy k i with hlt | rfl | hgt
      · refine finished_setPhase hi (fun _ => rfl) hck₀ hck ?_
        exact h.inOrder.order hi (by rw [htailed]; nofun) hlt hck₀ hsame
      · obtain ⟨_, _, _, _, ⟨_, hphase⟩ | ⟨hne, _⟩⟩ := setPhase_slot hck
        · rw [hphase]
          rfl
        · exact absurd rfl hne
      · exact absurd hsame (hlast k ck₀ hgt hck₀)
    · refine finished_setPhase hi (fun _ => rfl) hck₀ hck ?_
      exact h.held.free ((OrderedMap.get_erase_ne hsub).symm.trans hnone) hck₀ (hcks ▸ hs)

/-- A turn of the event loop keeps the chain. -/
theorem Chained.turn (h : Chained q) (ht : Turn q q') : Chained q' := by
  -- A call past its start keeps the order of its subject; only the clean-up looks at the map.
  have hpast : ∀ {i : ℕ} {c : QueuedCall ρ} (phase : Phase ρ), q.calls[i]? = some c →
      c.phase ≠ .queued → (c.phase.finished = true → phase.finished = true) →
        (q.chains.get c.subject = some i → ∀ o, phase ≠ .cleaned o) →
          Chained (q.setPhase i phase) := by
    intro i c phase hi hphase hmono hcleaned
    refine ⟨h.inOrder.setPhase phase hi hmono ?_, h.held.setPhase phase hi hmono hcleaned⟩
    intro k ck hki hck hs
    exact h.inOrder.order hi hphase hki hck hs
  cases ht with
  | idle => exact h
  | called subject => exact h.called subject
  | starts found queued ready =>
    have hstarted := h.inOrder.setPhase .running found (by rw [queued]; nofun)
      fun k ck hki hck hs => h.inOrder.ready found ready hki hck hs
    have hheld := h.held.setPhase .running found (by rw [queued]; nofun) fun _ => nofun
    exact .log ⟨hstarted, hheld⟩ _
  | settles o found running =>
    refine .log (hpast (.settled o) found ?_ ?_ fun _ => nofun) _
    · rw [running]; nofun
    · rw [running]; nofun
  | returns o found settled =>
    refine .log (hpast (.returned o) found ?_ ?_ fun _ => nofun) _
    · rw [settled]; nofun
    · rw [settled]; nofun
  | tails o found returned =>
    exact hpast _ found (by rw [returned]; nofun) (fun _ => rfl) fun _ => nofun
  | removes o found tailed current => exact h.removes found tailed current
  | keeps o found tailed replaced =>
    exact hpast _ found (by rw [tailed]; nofun) (fun _ => rfl) fun hcurrent =>
      absurd hcurrent replaced

/-! ## The log -/

def QueueEvent.call : QueueEvent ρ → ℕ
  | .started i => i
  | .settled i _ => i
  | .returned i _ => i

/-- The events of a call in a phase: its operation starts once, settles once, and the caller gets
that outcome. -/
def Phase.history (i : ℕ) : Phase ρ → List (QueueEvent ρ)
  | .queued => []
  | .running => [.started i]
  | .settled o => [.started i, .settled i o]
  | .returned o => [.started i, .settled i o, .returned i o]
  | .tailed o => [.started i, .settled i o, .returned i o]
  | .cleaned o => [.started i, .settled i o, .returned i o]

/-- The events of one call. -/
def eventsOf (log : List (QueueEvent ρ)) (i : ℕ) : List (QueueEvent ρ) :=
  log.filter fun e => e.call = i

/-- An operation starts after the operations of all earlier calls for its subject have settled. -/
def StartsInTurn (q : SubjectQueue ρ) : Prop :=
  ∀ before j after, q.log = before ++ .started j :: after → ∀ (i : ℕ) (ci cj : QueuedCall ρ),
    i < j → q.calls[i]? = some ci →
    q.calls[j]? = some cj → ci.subject = cj.subject → ∃ o, .settled i o ∈ before

structure Logged (q : SubjectQueue ρ) : Prop where
  histories : ∀ {i : ℕ} {c : QueuedCall ρ}, q.calls[i]? = some c →
    eventsOf q.log i = c.phase.history i
  known : ∀ e ∈ q.log, e.call < q.calls.length
  inTurn : StartsInTurn q

theorem exists_settled_of_finished (h : phase.finished = true) (i : ℕ) :
    ∃ o, .settled i o ∈ phase.history i := by
  cases phase with
  | tailed o => exact ⟨o, by simp [Phase.history]⟩
  | cleaned o => exact ⟨o, by simp [Phase.history]⟩
  | queued | running | settled | returned => cases h

theorem Logged.called (h : Logged q) (subject : String) : Logged (q.runCall subject) where
  histories := by
    intro i c hi
    rcases slot_of_append hi with hold | ⟨rfl, rfl⟩
    · exact h.histories hold
    · show eventsOf q.log q.calls.length = []
      rw [eventsOf, List.filter_eq_nil_iff]
      intro e he
      simpa using Nat.ne_of_lt (h.known e he)
  known e he := by
    have := h.known e he
    simp only [SubjectQueue.runCall, List.length_append, List.length_singleton]
    omega
  inTurn before j after hlog i ci cj hij hci hcj hs := by
    have hj : j < q.calls.length := h.known (.started j) (by
      have hmem : (.started j : QueueEvent ρ) ∈ before ++ .started j :: after := by simp
      rwa [← hlog] at hmem)
    have hold : ∀ {k : ℕ} {ck : QueuedCall ρ}, k ≤ j → (q.runCall subject).calls[k]? = some ck →
        q.calls[k]? = some ck := by
      intro k ck hk hck
      rcases slot_of_append hck with hck | ⟨rfl, _⟩
      · exact hck
      · omega
    exact h.inTurn before j after hlog i ci cj hij (hold (Nat.le_of_lt hij) hci)
      (hold (Nat.le_refl j) hcj) hs

/-- A phase without an event of its own. -/
theorem Logged.silent (h : Logged q) (hi : q.calls[i]? = some c)
    (hsame : phase.history i = c.phase.history i)
    {chains : OrderedMap String ℕ} : Logged { q.setPhase i phase with chains } where
  histories := by
    intro k ck hck
    obtain ⟨c₀, hc₀, _, _, ⟨rfl, hphase⟩ | ⟨_, hphase⟩⟩ := setPhase_slot hck
    · rw [hphase, hsame]
      exact h.histories hi
    · rw [hphase]
      exact h.histories hc₀
  known e he := by
    simp only [SubjectQueue.setPhase, List.length_modify]
    exact h.known e he
  inTurn before j after hlog i' ci cj hij hci hcj hs := by
    obtain ⟨ci₀, hci₀, hcis, _⟩ := setPhase_slot hci
    obtain ⟨cj₀, hcj₀, hcjs, _⟩ := setPhase_slot hcj
    exact h.inTurn before j after hlog i' ci₀ cj₀ hij hci₀ hcj₀ ((hcis.symm.trans hs).trans hcjs)

/-- INTERNAL: **a phase with its event**; an operation that starts is in turn. -/
theorem Logged.event (h : Logged q) (hi : q.calls[i]? = some c) {e : QueueEvent ρ}
    (hcall : e.call = i)
    (hnext : phase.history i = c.phase.history i ++ [e])
    (hstart : e = .started i → ∀ (k : ℕ) (ck : QueuedCall ρ), k < i → q.calls[k]? = some ck →
      ck.subject = c.subject → ck.phase.finished = true) :
    Logged { q.setPhase i phase with log := q.log ++ [e] } where
  histories := by
    intro k ck hck
    have happend : eventsOf (q.log ++ [e]) k = eventsOf q.log k ++ eventsOf [e] k :=
      List.filter_append ..
    obtain ⟨c₀, hc₀, _, _, ⟨rfl, hphase⟩ | ⟨hne, hphase⟩⟩ := setPhase_slot hck
    · have hown : eventsOf [e] k = [e] := by simp [eventsOf, hcall]
      show eventsOf (q.log ++ [e]) k = _
      rw [happend, h.histories hi, hphase, hnext, hown]
    · have hother : eventsOf [e] k = [] := by simp [eventsOf, hcall, hne.symm]
      show eventsOf (q.log ++ [e]) k = _
      rw [happend, h.histories hc₀, hphase, hother, List.append_nil]
  known x hx := by
    simp only [SubjectQueue.setPhase, List.length_modify]
    exact forall_mem_concat h.known (hcall ▸ lt_of_slot hi) x hx
  inTurn before j after hlog k ck cj hkj hck hcj hs := by
    obtain ⟨ck₀, hck₀, hcks, _⟩ := setPhase_slot hck
    obtain ⟨cj₀, hcj₀, hcjs, _⟩ := setPhase_slot hcj
    have hsame : ck₀.subject = cj₀.subject := (hcks.symm.trans hs).trans hcjs
    rcases split_append_singleton hlog with ⟨rfl, rfl, _⟩ | ⟨rest, _, hold⟩
    · obtain rfl : j = i := hcall
      rw [← Option.some.inj (hi.symm.trans hcj₀)] at hsame
      have hfinished := hstart rfl k ck₀ hkj hck₀ hsame
      obtain ⟨o, ho⟩ := exists_settled_of_finished hfinished k
      rw [← h.histories hck₀] at ho
      exact ⟨o, List.mem_of_mem_filter ho⟩
    · exact h.inTurn before j rest hold k ck₀ cj₀ hkj hck₀ hcj₀ hsame

theorem Logged.turn (h : Logged q) (hchained : Chained q) (ht : Turn q q') : Logged q' := by
  cases ht with
  | idle => exact h
  | called subject => exact h.called subject
  | starts found queued ready =>
    refine h.event found rfl (by rw [queued]; rfl) ?_
    intro _ k ck hki hck hs
    exact hchained.inOrder.ready found ready hki hck hs
  | settles o found running => exact h.event found rfl (by rw [running]; rfl) nofun
  | returns o found settled => exact h.event found rfl (by rw [settled]; rfl) nofun
  | tails o found returned => exact h.silent found (by rw [returned]; rfl)
  | removes o found tailed current => exact h.silent found (by rw [tailed]; rfl)
  | keeps o found tailed replaced => exact h.silent found (by rw [tailed]; rfl)

/-! ## Every interleaving -/

/-- Both invariants hold in every interleaving. -/
theorem chained_after (actions : List (QueueAction ρ)) :
    Chained (SubjectQueue.after actions) ∧ Logged (SubjectQueue.after actions) := by
  have hrun : ∀ (actions : List (QueueAction ρ)) (q : SubjectQueue ρ), Chained q ∧ Logged q →
      Chained (actions.foldl SubjectQueue.step q) ∧ Logged (actions.foldl SubjectQueue.step q) := by
    intro actions
    induction actions with
    | nil => exact fun _ h => h
    | cons a actions ih =>
      intro q h
      exact ih _ ⟨h.1.turn (step_turn q a), h.2.turn h.1 (step_turn q a)⟩
  refine hrun actions _ ⟨⟨⟨?_, ?_, ?_⟩, ⟨?_, ?_⟩⟩, ⟨?_, ?_, ?_⟩⟩
  · intro i j c hi
    cases hi
  · intro i k c c' hi
    cases hi
  · intro i k c c' hi
    cases hi
  · intro s i hi
    cases hi
  · intro s i c _ hi
    cases hi
  · intro i c hi
    cases hi
  · exact nofun
  · intro before j after hlog
    exact absurd hlog.symm (by simp)

/-! ## Calls and outcomes are those of the actions -/

theorem subjects_setPhase (q : SubjectQueue ρ) (i : ℕ) (phase : Phase ρ) :
    (q.setPhase i phase).calls.map QueuedCall.subject = q.calls.map QueuedCall.subject :=
  map_modify_of_eq (g := fun c => { c with phase }) (fun _ => rfl) q.calls i

/-- A microtask makes no call and settles no operation. -/
theorem microtask_frame (h : q.microtask i = some q') :
    q'.calls.map QueuedCall.subject = q.calls.map QueuedCall.subject ∧
      ∀ (j : ℕ) (o : Outcome ρ), .settled j o ∈ q'.log ↔ .settled j o ∈ q.log := by
  obtain ⟨c, hc, h⟩ := Option.bind_eq_some_iff.mp h
  split at h
  · split at h <;> cases h
    exact ⟨subjects_setPhase q i _, by simp⟩
  · cases h
  · cases h
    exact ⟨subjects_setPhase q i _, by simp⟩
  · cases h
    exact ⟨subjects_setPhase q i _, fun _ _ => Iff.rfl⟩
  · split at h <;> cases h <;> exact ⟨subjects_setPhase q i _, fun _ _ => Iff.rfl⟩
  · cases h

theorem subjects_step (q : SubjectQueue ρ) (a : QueueAction ρ) :
    (q.step a).calls.map QueuedCall.subject =
      q.calls.map QueuedCall.subject ++ a.called.toList := by
  cases a with
  | runCall subject => simp [SubjectQueue.step, SubjectQueue.runCall, QueueAction.called]
  | settle i o =>
    simp only [SubjectQueue.step, SubjectQueue.settle, QueueAction.called, Option.toList_none,
      List.append_nil]
    split
    · exact subjects_setPhase q i _
    · rfl
  | microtask i =>
    simp only [SubjectQueue.step, QueueAction.called, Option.toList_none, List.append_nil]
    cases h : q.microtask i with
    | none => rfl
    | some q' => exact (microtask_frame h).1

/-- INTERNAL: **every call is in the queue**, in the order of the calls. -/
theorem subjects_after (actions : List (QueueAction ρ)) :
    (SubjectQueue.after actions).calls.map QueuedCall.subject =
      actions.filterMap QueueAction.called := by
  induction actions using List.reverseRecOn with
  | nil => rfl
  | append_singleton actions a ih =>
    rw [SubjectQueue.after, List.foldl_append, List.foldl_cons, List.foldl_nil, subjects_step]
    rw [SubjectQueue.after] at ih
    rw [ih, List.filterMap_append]
    cases h : a.called <;> simp [h]

/-- The operation of a call settles with `o` in this step. -/
def Settles (q : SubjectQueue ρ) (i : ℕ) (o : Outcome ρ) (a : QueueAction ρ) : Prop :=
  a = .settle i o ∧ (q.calls[i]?).map QueuedCall.phase = some .running

theorem settled_step (q : SubjectQueue ρ) (a : QueueAction ρ) (i : ℕ) (o : Outcome ρ) :
    .settled i o ∈ (q.step a).log ↔ .settled i o ∈ q.log ∨ Settles q i o a := by
  cases a with
  | runCall subject => simp [SubjectQueue.step, SubjectQueue.runCall, Settles]
  | settle j o' =>
    simp only [SubjectQueue.step, SubjectQueue.settle, Settles, QueueAction.settle.injEq]
    split
    · next hrunning =>
      simp only [List.mem_append, List.mem_singleton, QueueEvent.settled.injEq]
      refine or_congr Iff.rfl ⟨?_, ?_⟩
      · rintro ⟨rfl, rfl⟩
        exact ⟨⟨rfl, rfl⟩, hrunning⟩
      · rintro ⟨⟨rfl, rfl⟩, _⟩
        exact ⟨rfl, rfl⟩
    · next hnot =>
      refine ⟨.inl, ?_⟩
      rintro (hold | ⟨⟨rfl, rfl⟩, hrunning⟩)
      · exact hold
      · exact absurd hrunning hnot
  | microtask j =>
    simp only [SubjectQueue.step, Settles, reduceCtorEq, false_and, or_false]
    cases h : q.microtask j with
    | none => rfl
    | some q' => exact (microtask_frame h).2 i o

/-- INTERNAL: **an operation settles as it was settled** while it ran. -/
theorem settled_after (actions : List (QueueAction ρ)) (i : ℕ) (o : Outcome ρ) :
    .settled i o ∈ (SubjectQueue.after actions).log ↔
      ∃ before a rest, actions = before ++ a :: rest ∧
        Settles (SubjectQueue.after before) i o a := by
  induction actions using List.reverseRecOn with
  | nil =>
    constructor
    · exact nofun
    · rintro ⟨before, a, rest, hnil, _⟩
      exact absurd hnil (by simp)
  | append_singleton actions a ih =>
    have hstep : SubjectQueue.after (actions ++ [a]) = (SubjectQueue.after actions).step a := by
      rw [SubjectQueue.after, List.foldl_append]
      rfl
    rw [hstep, settled_step, ih]
    constructor
    · rintro (⟨before, b, rest, rfl, hsettles⟩ | hsettles)
      · exact ⟨before, b, rest ++ [a], by simp, hsettles⟩
      · exact ⟨actions, a, [], rfl, hsettles⟩
    · rintro ⟨before, b, rest, hsplit, hsettles⟩
      rcases split_append_singleton hsplit with ⟨rfl, rfl, _⟩ | ⟨rest', _, hold⟩
      · exact .inr hsettles
      · exact .inl ⟨before, b, rest', hold, hsettles⟩

/-- INTERNAL: **no call is left behind**: without a microtask to run and an operation under way,
every call of the subject is through. -/
theorem cleaned_of_quiet (h : InOrder q) {s : String}
    (hquiet : ∀ (i : ℕ) (c : QueuedCall ρ), q.calls[i]? = some c → c.subject = s →
      q.microtask i = none ∧ c.phase ≠ .running) :
    ∀ (i : ℕ) (c : QueuedCall ρ), q.calls[i]? = some c → c.subject = s →
      ∃ o, c.phase = .cleaned o := by
  intro i
  induction i using Nat.strongRecOn with
  | _ i ih =>
    intro c hi hs
    obtain ⟨hnone, hidle⟩ := hquiet i c hi hs
    rw [SubjectQueue.microtask, hi, Option.bind_some] at hnone
    cases hphase : c.phase with
    | queued =>
      have hready : c.prev.all q.finished = true := by
        cases hprev : c.prev with
        | none => rfl
        | some j =>
          obtain ⟨hlt, ⟨cj, hcj, hcjs⟩, _⟩ := h.prev hi hprev
          obtain ⟨o, ho⟩ := ih j hlt cj hcj (hcjs.trans hs)
          rw [Option.all_some, SubjectQueue.finished, hcj, Option.any_some, ho]
          rfl
      simp only [hphase, hready, if_true, reduceCtorEq] at hnone
    | running => exact absurd hphase hidle
    | settled | returned => simp only [hphase, reduceCtorEq] at hnone
    | tailed o =>
      simp only [hphase] at hnone
      split at hnone <;> cases hnone
    | cleaned o => exact ⟨o, rfl⟩

/-- INTERNAL: **one queue, over every interleaving** of calls, settlements and microtasks. The
calls of the queue are those that were made, in their order. An operation starts only after those
of all earlier calls for its subject have settled; it settles as it was settled while it ran. The
log of a call is the history of its phase, so its operation starts and settles at most once and the
caller gets that outcome; a subject with an operation that has not settled has an entry; and once
no microtask of a subject is left and none of its operations runs, every one of its calls is
through, however the others ended, and the entry is gone.
SRCLINE: subject-document.ts:190-206 -/
theorem queue_serialises (actions : List (QueueAction ρ)) :
    (SubjectQueue.after actions).calls.map QueuedCall.subject =
      actions.filterMap QueueAction.called ∧
    StartsInTurn (SubjectQueue.after actions) ∧
    (∀ (i : ℕ) (o : Outcome ρ), .settled i o ∈ (SubjectQueue.after actions).log ↔
      ∃ before a rest, actions = before ++ a :: rest ∧
        Settles (SubjectQueue.after before) i o a) ∧
    (∀ (i : ℕ) (c : QueuedCall ρ), (SubjectQueue.after actions).calls[i]? = some c →
      eventsOf (SubjectQueue.after actions).log i = c.phase.history i ∧
        (c.phase = .queued ∨ c.phase = .running →
          (SubjectQueue.after actions).chains.get c.subject ≠ none)) ∧
    ∀ s : String, (∀ (i : ℕ) (c : QueuedCall ρ), (SubjectQueue.after actions).calls[i]? = some c →
        c.subject = s → (SubjectQueue.after actions).microtask i = none ∧ c.phase ≠ .running) →
      (∀ (i : ℕ) (c : QueuedCall ρ), (SubjectQueue.after actions).calls[i]? = some c →
        c.subject = s → ∃ o, c.phase = .cleaned o) ∧
        (SubjectQueue.after actions).chains.get s = none := by
  obtain ⟨hchained, hlogged⟩ := chained_after actions
  refine ⟨subjects_after actions, hlogged.inTurn, settled_after actions, ?_, ?_⟩
  · intro i c hi
    refine ⟨hlogged.histories hi, ?_⟩
    intro hunsettled hnone
    have hfinished := hchained.held.free hnone hi rfl
    rcases hunsettled with hphase | hphase
    · rw [hphase] at hfinished
      cases hfinished
    · rw [hphase] at hfinished
      cases hfinished
  · intro s hquiet
    have hcleaned := cleaned_of_quiet hchained.inOrder hquiet
    refine ⟨hcleaned, ?_⟩
    cases hentry : (SubjectQueue.after actions).chains.get s with
    | none => rfl
    | some i =>
      obtain ⟨c, hi, hs, hnot, _⟩ := hchained.held.entry hentry
      obtain ⟨o, ho⟩ := hcleaned i c hi hs
      exact absurd ho (hnot o)

/-- Two calls for one subject and one for another: the first fails, the second is made while it
runs. -/
def twoSubjects : List (QueueAction ℕ) :=
  [.runCall "a", .microtask 0, .runCall "a", .runCall "b", .microtask 1, .microtask 2,
    .settle 0 (.rejected 7), .microtask 0, .microtask 0, .microtask 1, .microtask 0,
    .settle 1 (.fulfilled 8), .microtask 1, .microtask 1, .microtask 1]

/-- The operation after the failed one runs and ends, and the entry of its subject is gone; that of
the other subject is still there. -/
theorem queue_serialises_twoSubjects :
    (SubjectQueue.after twoSubjects).calls.map QueuedCall.subject = ["a", "a", "b"] ∧
    (SubjectQueue.after twoSubjects).log = [.started 0, .started 2, .settled 0 (.rejected 7),
      .returned 0 (.rejected 7), .started 1, .settled 1 (.fulfilled 8),
        .returned 1 (.fulfilled 8)] ∧
    (SubjectQueue.after twoSubjects).chains.get "a" = none ∧
    (SubjectQueue.after twoSubjects).chains.get "b" ≠ none := by
  obtain ⟨hcalls, _, _, heach, hquiet⟩ := queue_serialises twoSubjects
  refine ⟨hcalls, by decide, (hquiet "a" ?_).2, (heach 2 ⟨"b", none, .running⟩ rfl).2 (.inr rfl)⟩
  intro i c hi hs
  match i, hi with
  | 0, hi =>
    cases hi
    exact ⟨rfl, nofun⟩
  | 1, hi =>
    cases hi
    exact ⟨rfl, nofun⟩
  | 2, hi =>
    cases hi
    exact absurd hs (by decide)

end ServerlessHarness.ControlPlane
