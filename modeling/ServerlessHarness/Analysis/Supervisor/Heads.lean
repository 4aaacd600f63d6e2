import ServerlessHarness.Model.Supervisor.Head

/-!
# What `readHead` returns

While no event has stopped it, the reader holds all bytes so far, and its carry is their end
(`readHead_of_waiting`). So it finds the terminator in the first chunk after which the bytes
contain it, whatever the chunks are. What follows the first terminator has no part in the session
id.
-/

set_option autoImplicit false

namespace ServerlessHarness.Supervisor.Head

open Library

variable {maxBytes : ℤ} {events : List SocketEvent}

/-- The bytes of an event. -/
def SocketEvent.bytes : SocketEvent → List UInt8
  | .data chunk => chunk
  | _ => []

def SocketEvent.isData : SocketEvent → Bool
  | .data _ => true
  | _ => false

/-- All bytes that the events brought, in order. -/
def bytesOf (events : List SocketEvent) : List UInt8 := events.flatMap SocketEvent.bytes

/-- Neither the timer nor the end of the stream came, the bytes do not contain the terminator, and
no chunk reached the cap. -/
structure Waiting (maxBytes : ℤ) (events : List SocketEvent) : Prop where
  data : ∀ e ∈ events, e.isData = true
  unterminated : ¬terminator <:+: bytesOf events
  below : ∀ before chunk, before ++ [.data chunk] <+: events →
    ((bytesOf (before ++ [.data chunk])).length : ℤ) < maxBytes

theorem bytesOf_append (before after : List SocketEvent) :
    bytesOf (before ++ after) = bytesOf before ++ bytesOf after :=
  List.flatMap_append

theorem bytesOf_concat (before : List SocketEvent) (chunk : List UInt8) :
    bytesOf (before ++ [.data chunk]) = bytesOf before ++ chunk := by
  rw [bytesOf_append]
  exact congrArg (bytesOf before ++ ·) (List.append_nil chunk)

theorem readHead_append (before after : List SocketEvent) :
    readHead maxBytes (before ++ after) = after.foldl (Reader.onEvent maxBytes)
      (readHead maxBytes before) :=
  List.foldl_append

theorem isSome_indexOfTerminator (buf : List UInt8) :
    (indexOfTerminator buf).isSome = true ↔ terminator <:+: buf := by
  rw [indexOfTerminator, Option.isSome_map]
  exact isSome_firstMatch_strip

/-! ## One event -/

/-- The reader when nothing has stopped it. -/
structure Reading (r : Reader) (bytes : List UInt8) : Prop where
  chunks : r.chunks.flatten = bytes
  total : r.total = bytes.length
  carry : r.carry = bytes.rtake 3
  unsettled : r.settled = false
  listening : r.listening = true
  unresolved : r.resolved = []

/-- The call has resolved, and hears no more. -/
structure Resolved (r : Reader) (head : HeadRead) : Prop where
  listening : r.listening = false
  resolved : r.resolved = [head]

variable {r : Reader} {bytes : List UInt8}

theorem Reading.finish (h : Reading r bytes) (outcome : HeadOutcome) :
    Resolved (r.finish outcome) ⟨bytes, outcome = .complete, outcome⟩ := by
  simp only [Reader.finish, h.unsettled, Bool.false_eq_true, if_false]
  exact ⟨rfl, by rw [h.unresolved, h.chunks]; rfl⟩

/-- INTERNAL: **one chunk**, for bytes so far without the terminator. -/
theorem Reading.onData (maxBytes : ℤ) (h : Reading r bytes) (hbytes : ¬terminator <:+: bytes)
    (chunk : List UInt8) :
    (terminator <:+: bytes ++ chunk →
      Resolved (r.onData maxBytes chunk) ⟨bytes ++ chunk, true, .complete⟩) ∧
    (¬terminator <:+: bytes ++ chunk → maxBytes ≤ ((bytes ++ chunk).length : ℤ) →
      Resolved (r.onData maxBytes chunk) ⟨bytes ++ chunk, false, .cap⟩) ∧
    (¬terminator <:+: bytes ++ chunk → ((bytes ++ chunk).length : ℤ) < maxBytes →
      Reading (r.onData maxBytes chunk) (bytes ++ chunk)) := by
  have hprobe : (if r.carry.length = 0 then chunk else r.carry ++ chunk) = bytes.rtake 3 ++
      chunk := by
    rw [← h.carry]
    split
    · next hempty => rw [List.length_eq_zero_iff.mp hempty, List.nil_append]
    · rfl
  have hfound : (indexOfTerminator (bytes.rtake 3 ++ chunk)).isSome = true ↔
      terminator <:+: bytes ++ chunk := by
    rw [isSome_indexOfTerminator]
    exact (infix_append_iff (p := terminator) nofun hbytes).symm
  have hchunks : (r.chunks ++ [chunk]).flatten = bytes ++ chunk := by
    rw [List.flatten_append, h.chunks, List.flatten_singleton]
  have htotal : r.total + chunk.length = (bytes ++ chunk).length := by
    rw [h.total, List.length_append]
  have hcarry : (bytes.rtake 3 ++ chunk).rtake 3 = (bytes ++ chunk).rtake 3 :=
    rtake_rtake_append 3 bytes chunk
  unfold Reader.onData
  dsimp only
  rw [hprobe, htotal]
  refine ⟨fun hin => ?_, fun hout hcap => ?_, fun hout hcap => ?_⟩
  · rw [if_pos (hfound.mpr hin)]
    simp only [Reader.finish, h.unsettled, Bool.false_eq_true, if_false]
    exact ⟨rfl, by rw [h.unresolved, hchunks]; rfl⟩
  · rw [if_neg (mt hfound.mp hout), if_pos hcap]
    simp only [Reader.finish, h.unsettled, Bool.false_eq_true, if_false]
    exact ⟨rfl, by rw [h.unresolved, hchunks]; rfl⟩
  · rw [if_neg (mt hfound.mp hout), if_neg (Int.not_le.mpr hcap)]
    exact ⟨hchunks, rfl, hcarry, h.unsettled, h.listening, h.unresolved⟩

theorem Resolved.onEvent {head : HeadRead} (h : Resolved r head) (e : SocketEvent) :
    r.onEvent maxBytes e = r := by
  simp only [Reader.onEvent, h.listening, Bool.false_eq_true, if_false]

theorem Resolved.foldl (maxBytes : ℤ) {head : HeadRead} (h : Resolved r head)
    (events : List SocketEvent) :
    events.foldl (Reader.onEvent maxBytes) r = r := by
  induction events with
  | nil => rfl
  | cons e events ih => rw [List.foldl_cons, h.onEvent, ih]

/-! ## All events -/

theorem Waiting.of_prefix {before : List SocketEvent} (h : Waiting maxBytes events)
    (hbefore : before <+: events) : Waiting maxBytes before where
  data e he := h.data e (hbefore.subset he)
  unterminated hin := by
    obtain ⟨after, rfl⟩ := hbefore
    refine h.unterminated (hin.trans ?_)
    rw [bytesOf_append]
    exact (List.prefix_append _ _).isInfix
  below front chunk hfront := h.below front chunk (hfront.trans hbefore)

/-- What makes a call wait after one more chunk. -/
theorem Waiting.concat {chunk : List UInt8} (h : Waiting maxBytes events)
    (hout : ¬terminator <:+: bytesOf events ++ chunk)
    (hcap : ((bytesOf events ++ chunk).length : ℤ) < maxBytes) :
    Waiting maxBytes (events ++ [.data chunk]) where
  data := List.forall_mem_append.mpr ⟨h.data, List.forall_mem_singleton.mpr rfl⟩
  unterminated := by rwa [bytesOf_concat]
  below front other hfront := by
    rcases List.prefix_concat_iff.mp hfront with heq | hold
    · rw [heq, bytesOf_concat]
      exact hcap
    · exact h.below front other hold

/-- INTERNAL: **the reader holds all bytes** as long as nothing stopped it. -/
theorem readHead_of_waiting (h : Waiting maxBytes events) :
    Reading (readHead maxBytes events) (bytesOf events) := by
  induction events using List.reverseRecOn with
  | nil => exact ⟨rfl, rfl, rfl, rfl, rfl, rfl⟩
  | append_singleton before e ih =>
    have hbefore := h.of_prefix (List.prefix_append before [e])
    have hreading := ih hbefore
    cases e with
    | data chunk =>
      have hout := h.unterminated
      have hcap := h.below before chunk (List.prefix_refl _)
      rw [bytesOf_concat] at hout hcap ⊢
      have hlast := (hreading.onData maxBytes hbefore.unterminated chunk).2.2 hout hcap
      rw [readHead_append]
      simp only [List.foldl_cons, List.foldl_nil, Reader.onEvent, hreading.listening, if_true]
      exact hlast
    | ended => cases h.data .ended (by simp)
    | errored => cases h.data .errored (by simp)
    | timer => cases h.data .timer (by simp)

/-- How the call resolves at the event that stops it. -/
def Stops (maxBytes : ℤ) (before : List SocketEvent) (e : SocketEvent) (head : HeadRead) : Prop :=
  Waiting maxBytes before ∧ head.bytes = bytesOf (before ++ [e]) ∧
    head.complete = decide (head.outcome = .complete) ∧
    (head.outcome = .complete ↔ e.isData = true ∧ terminator <:+: bytesOf (before ++ [e])) ∧
    Resolved (readHead maxBytes (before ++ [e])) head

/-- The next event leaves the call waiting or stops it. -/
theorem waiting_or_stops {before : List SocketEvent} (h : Waiting maxBytes before)
    (e : SocketEvent) :
    Waiting maxBytes (before ++ [e]) ∨ ∃ head, Stops maxBytes before e head := by
  have hreading := readHead_of_waiting h
  have hstep : readHead maxBytes (before ++ [e]) = (readHead maxBytes before).onEvent maxBytes e :=
    readHead_append before [e]
  simp only [Reader.onEvent, hreading.listening, if_true] at hstep
  -- The end of the stream and the timer stop the call in the same way.
  have hstop : ∀ outcome, e.bytes = [] → e.isData = false → outcome ≠ .complete →
      readHead maxBytes (before ++ [e]) = (readHead maxBytes before).finish outcome →
      ∃ head, Stops maxBytes before e head := by
    intro outcome hnone hdata hne heq
    have hbytes : bytesOf (before ++ [e]) = bytesOf before := by
      rw [bytesOf_append]
      simp [bytesOf, hnone]
    refine ⟨_, h, hbytes.symm, rfl, ?_, heq ▸ hreading.finish outcome⟩
    simp [hne, hdata]
  cases e with
  | ended | errored => exact .inr (hstop .closed rfl rfl nofun hstep)
  | timer => exact .inr (hstop .timeout rfl rfl nofun hstep)
  | data chunk =>
    obtain ⟨hcomplete, hcap, _⟩ := hreading.onData maxBytes h.unterminated chunk
    have hdata : readHead maxBytes (before ++ [.data chunk]) =
      (readHead maxBytes before).onData maxBytes chunk := hstep
    rw [← hdata] at hcomplete hcap
    by_cases hin : terminator <:+: bytesOf before ++ chunk
    · refine .inr ⟨_, h, (bytesOf_concat before chunk).symm, rfl, ?_, hcomplete hin⟩
      simpa [SocketEvent.isData, bytesOf_concat] using hin
    · rcases Int.lt_or_le ((bytesOf before ++ chunk).length : ℤ) maxBytes with hbelow | hreached
      · exact .inl (h.concat hin hbelow)
      · refine .inr ⟨_, h, (bytesOf_concat before chunk).symm, rfl, ?_, hcap hin hreached⟩
        simpa [SocketEvent.isData, bytesOf_concat] using hin

/-- A call is waiting, or was stopped by one of the events. -/
theorem waiting_or_stopped (maxBytes : ℤ) (events : List SocketEvent) :
    Waiting maxBytes events ∨
      ∃ before e after head, events = before ++ e :: after ∧ Stops maxBytes before e head ∧
        (readHead maxBytes events).resolved = [head] := by
  induction events using List.reverseRecOn with
  | nil =>
    refine .inl ⟨nofun, by decide, ?_⟩
    intro before chunk hbefore
    simp at hbefore
  | append_singleton events e ih =>
    rcases ih with hwaiting | ⟨before, x, after, head, rfl, hstops, hresolved⟩
    · rcases waiting_or_stops hwaiting e with hmore | ⟨head, hstops⟩
      · exact .inl hmore
      · exact .inr ⟨events, e, [], head, rfl, hstops, hstops.2.2.2.2.resolved⟩
    · refine .inr ⟨before, x, after ++ [e], head, by simp, hstops, ?_⟩
      have hsame := hstops.2.2.2.2.foldl maxBytes (after ++ [e])
      rw [← readHead_append] at hsame
      rw [List.append_assoc, List.cons_append, List.append_cons, hsame]
      exact hstops.2.2.2.2.resolved

/-! ## The session id -/

theorem headerBlockEnd_eq {before rest : List UInt8}
    (h : firstMatch (strip terminator) (before ++ (terminator ++ rest)) = some (before, rest))
      (other : List UInt8) :
    headerBlockEnd (before ++ (terminator ++ other)) = some (before ++ terminator).length := by
  rw [headerBlockEnd, indexOfTerminator, firstMatch_strip_of_rest h other, List.length_append]
  rfl

/-- INTERNAL: **only the header block names the session.** -/
theorem sessionIdFromHead_block (h : terminator <:+: bytes) :
    ∃ block rest, bytes = block ++ rest ∧ headerBlockEnd bytes = some block.length ∧
      ∀ other, sessionIdFromHead (block ++ other) = sessionIdFromHead bytes := by
  obtain ⟨⟨before, rest⟩, hfound⟩ := Option.isSome_iff_exists.mp (isSome_firstMatch_strip.mpr h)
  obtain rfl := firstMatch_strip hfound
  have hend := headerBlockEnd_eq hfound
  refine ⟨before ++ terminator, rest, (List.append_assoc ..).symm, hend rest, ?_⟩
  intro other
  have hblock : ∀ more, (before ++ (terminator ++ more)).take (before ++ terminator).length =
      before ++ terminator := by
    intro more
    rw [← List.append_assoc, List.take_left]
  rw [List.append_assoc]
  simp only [sessionIdFromHead, hend, hblock]

/-- INTERNAL: **`readHead` for every stream, every split into chunks and every cap.** It resolves
at most once, and once the timer fires or the stream ends; it waits until some event stops it, and
then returns all bytes so far; it is complete at the first chunk after which they contain the
terminator, unless it was stopped before; and then the session id depends on the header block only.
SRCLINE: head.ts:26-151 -/
theorem readHead_resolves (maxBytes : ℤ) (events : List SocketEvent) :
    (readHead maxBytes events).resolved.length ≤ 1 ∧
    ((∃ e ∈ events, e.isData = false) → (readHead maxBytes events).resolved.length = 1) ∧
    (∀ head ∈ (readHead maxBytes events).resolved, ∃ before e after, events = before ++ e :: after ∧
      (readHead maxBytes before).resolved = [] ∧
        (readHead maxBytes (before ++ [e])).resolved = [head] ∧
      head.bytes = bytesOf (before ++ [e])) ∧
    (∀ before chunk, (∃ head, (readHead maxBytes before).resolved = [] ∧
        (readHead maxBytes (before ++ [.data chunk])).resolved = [head] ∧
          head.outcome = .complete) ↔
      Waiting maxBytes before ∧ terminator <:+: bytesOf (before ++ [.data chunk])) ∧
    ∀ head ∈ (readHead maxBytes events).resolved, head.outcome = .complete →
      ∃ block rest, head.bytes = block ++ rest ∧ headerBlockEnd head.bytes = some block.length ∧
        ∀ other, sessionIdFromHead (block ++ other) = sessionIdFromHead head.bytes := by
  have hopen : ∀ {events}, (readHead maxBytes events).resolved = [] → Waiting maxBytes events := by
    intro events hnone
    rcases waiting_or_stopped maxBytes events with hwaiting | ⟨_, _, _, head, _, _, hresolved⟩
    · exact hwaiting
    · rw [hnone] at hresolved
      cases hresolved
  refine ⟨?_, ?_, ?_, ?_, ?_⟩
  · rcases waiting_or_stopped maxBytes events with hwaiting | ⟨_, _, _, head, _, _, hresolved⟩
    · rw [(readHead_of_waiting hwaiting).unresolved]
      exact Nat.zero_le _
    · rw [hresolved]
      exact Nat.le_refl _
  · rintro ⟨e, he, hstop⟩
    rcases waiting_or_stopped maxBytes events with hwaiting | ⟨_, _, _, head, _, _, hresolved⟩
    · rw [hwaiting.data e he] at hstop
      cases hstop
    · rw [hresolved]
      rfl
  · intro head hhead
    rcases waiting_or_stopped maxBytes events with hwaiting | ⟨before, e, after, found, heq, hstops,
      hresolved⟩
    · rw [(readHead_of_waiting hwaiting).unresolved] at hhead
      cases hhead
    · rw [hresolved] at hhead
      cases List.mem_singleton.mp hhead
      exact ⟨before, e, after, heq, (readHead_of_waiting hstops.1).unresolved,
        hstops.2.2.2.2.resolved, hstops.2.1⟩
  · intro before chunk
    constructor
    · rintro ⟨head, hnone, hone, hcomplete⟩
      have hwaiting := hopen hnone
      rcases waiting_or_stops hwaiting (.data chunk) with hmore | ⟨found, hstops⟩
      · rw [(readHead_of_waiting hmore).unresolved] at hone
        cases hone
      · rw [hstops.2.2.2.2.resolved] at hone
        cases hone
        exact ⟨hwaiting, (hstops.2.2.2.1.mp hcomplete).2⟩
    · rintro ⟨hwaiting, hin⟩
      rcases waiting_or_stops hwaiting (.data chunk) with hmore | ⟨found, hstops⟩
      · exact absurd hin hmore.unterminated
      · exact ⟨found, (readHead_of_waiting hwaiting).unresolved, hstops.2.2.2.2.resolved,
          hstops.2.2.2.1.mpr ⟨rfl, hin⟩⟩
  · intro head hhead hcomplete
    rcases waiting_or_stopped maxBytes events with hwaiting | ⟨before, e, after, found, heq, hstops,
      hresolved⟩
    · rw [(readHead_of_waiting hwaiting).unresolved] at hhead
      cases hhead
    · rw [hresolved] at hhead
      cases List.mem_singleton.mp hhead
      refine sessionIdFromHead_block ?_
      rw [hstops.2.1]
      exact (hstops.2.2.2.1.mp hcomplete).2

end ServerlessHarness.Supervisor.Head
