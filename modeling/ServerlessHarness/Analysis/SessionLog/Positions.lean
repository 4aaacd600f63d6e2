import ServerlessHarness.Library.Crew
import ServerlessHarness.Model.SessionLog.Backend

/-!
# Where an append ends up

Positions are given out once each, so the stream holds an entry for every append that was
added, at its own position (`Positions`). An append between its `INCR` and its `XADD` is
overtaken when one with a larger position is added first; the server then refuses its
`XADD`, and its entry is not in the log. With a single writer at a time nobody is overtaken
(`SingleWriterLog`).
-/

set_option autoImplicit false

namespace ServerlessHarness.SessionLog

open Library

variable {E : Type} {digest : E → String} {sid : String}

/-- What a command of an append does. -/
inductive AppendEffect (digest : E → String) (sid : String) (log : Log E) (c : AppendCall E) :
    Log E → AppendPc E → Prop where
  | assigned (now : Int) (pc : c.pc = .incr) :
      AppendEffect digest sid log c { log with seq := log.seq + 1 }
        (.xadd (makeStoredEntry digest (log.seq + 1) sid c.piType c.entry now))
  | unanswered (pc : c.pc = .incr) :
      AppendEffect digest sid log c { log with seq := log.seq + 1 } .lost
  | dropped (pc : c.pc = .incr ∨ ∃ st, c.pc = .xadd st) : AppendEffect digest sid log c log .lost
  | added {st : StoredEntry E} {stream : Stream (Fields E)} (replied : Bool) (pc : c.pc = .xadd st)
      (accepted : log.stream.xadd st.row.1 st.row.2 = some stream) :
      AppendEffect digest sid log c { log with stream := stream } (.added st replied)
  | rejected {st : StoredEntry E} (pc : c.pc = .xadd st)
      (refused : log.stream.xadd st.row.1 st.row.2 = none) :
      AppendEffect digest sid log c log (.rejected st)

variable {c : AppendCall E} {log' : Log E} {pc' : AppendPc E} {s : LogSys E}

theorem appendStep_effect {log : Log E} {fate : Fate}
    (h : appendStep digest sid log c fate = some (log', pc')) :
    AppendEffect digest sid log c log' pc' := by
  unfold appendStep at h
  split at h
  · rename_i replied now hpc
    cases h
    cases replied with
    | true => exact .assigned now hpc
    | false => exact .unanswered hpc
  · rename_i st replied now hpc
    split at h
    · rename_i haccepted
      cases h
      exact .added replied hpc haccepted
    · rename_i hrefused
      cases h
      exact .rejected hpc hrefused
  · rename_i hpc
    cases h
    exact .dropped (.inl hpc)
  · rename_i st hpc
    cases h
    exact .dropped (.inr ⟨st, hpc⟩)
  · cases h

/-- The record that an append was assigned a position for. -/
def AppendPc.record : AppendPc E → Option (StoredEntry E)
  | .xadd st | .added st _ | .rejected st => some st
  | _ => none

theorem AppendEffect.not_over {log : Log E} (h : AppendEffect digest sid log c log' pc') :
    c.pc = .incr ∨ ∃ st, c.pc = .xadd st := by
  cases h with
  | assigned _ pc | unanswered pc => exact .inl pc
  | dropped pc => exact pc
  | added _ pc | rejected pc => exact .inr ⟨_, pc⟩

/-- The invariant of the log: positions are within the counter and given out once, the stream
is made of the records that were added, and a refused append was overtaken. -/
structure Positions (s : LogSys E) : Prop where
  within : ∀ c ∈ s.calls, ∀ st, c.pc.record = some st →
    0 < st.position ∧ st.position ≤ s.log.seq ∧ st.entry = c.entry ∧ st.piType = c.piType
  once : ∀ (i j : Nat) (c d : AppendCall E) (st st' : StoredEntry E), s.calls[i]? = some c →
    s.calls[j]? = some d → c.pc.record = some st → d.pc.record = some st' →
      st.position = st'.position → i = j
  added : ∀ c ∈ s.calls, ∀ st replied, c.pc = .added st replied → st.row ∈ s.log.stream.entries
  source : ∀ e ∈ s.log.stream.entries, ∃ c ∈ s.calls, ∃ st replied,
    c.pc = .added st replied ∧ e = st.row
  last : s.log.stream.lastId = .mk 0 0 ∨ ∃ c ∈ s.calls, ∃ st replied,
    c.pc = .added st replied ∧ s.log.stream.lastId = st.row.1
  overtaken : ∀ c ∈ s.calls, ∀ st, c.pc = .rejected st → ∃ d ∈ s.calls, ∃ st' replied,
    d.pc = .added st' replied ∧ st.position < st'.position

section Steps

variable {s : LogSys E} (inv : Positions s)
include inv

/-- INTERNAL: **an addition is refused exactly when the append was overtaken**: the last id of
the stream is the largest position added. -/
theorem Positions.refused_iff (hc : c ∈ s.calls) {st : StoredEntry E} (pc : c.pc = .xadd st) :
    s.log.stream.xadd st.row.1 st.row.2 = none ↔
      ∃ d ∈ s.calls, ∃ st' replied, d.pc = .added st' replied ∧ st.position < st'.position := by
  have positive := (inv.within c hc st (by rw [pc]; rfl)).1
  rw [Stream.xadd_eq_none_iff]
  constructor
  · intro hle
    rcases inv.last with hzero | ⟨d, hd, st', replied, hpc, hlast⟩
    · rw [hzero] at hle
      have : ¬ StreamId.mk 0 0 < StreamId.mk st.position 0 := not_lt.mpr hle
      simp only [StreamId.mk_lt_mk] at this
      omega
    · refine ⟨d, hd, st', replied, hpc, ?_⟩
      rw [hlast] at hle
      have hle' : ¬ StreamId.mk st'.position 0 < StreamId.mk st.position 0 := not_lt.mpr hle
      rw [StreamId.mk_lt_mk] at hle'
      refine lt_of_le_of_ne (not_lt.mp hle') fun heq => ?_
      -- one position, so one call, which cannot be at both program counters
      obtain ⟨i, hi⟩ := List.mem_iff_getElem?.mp hc
      obtain ⟨j, hj⟩ := List.mem_iff_getElem?.mp hd
      obtain rfl := inv.once i j c d st st' hi hj (by rw [pc]; rfl) (by rw [hpc]; rfl) heq
      obtain rfl : c = d := Option.some.inj (hi.symm.trans hj)
      rw [pc] at hpc
      cases hpc
  · rintro ⟨d, hd, st', replied, hpc, hlt⟩
    have hrow : st'.row.1 ≤ s.log.stream.lastId :=
      s.log.stream.bounded _ (inv.added d hd st' replied hpc)
    exact (lt_of_lt_of_le (StreamId.mk_lt_mk.mpr hlt) hrow).le

theorem Positions.not_stored_of_rejected (hc : c ∈ s.calls) {st : StoredEntry E}
    (pc : c.pc = .rejected st) :
    ∀ e ∈ s.log.stream.entries, e.1 ≠ .mk st.position 0 := by
  intro e he heq
  obtain ⟨d, hd, st', replied, hpc, rfl⟩ := inv.source e he
  obtain ⟨i, hi⟩ := List.mem_iff_getElem?.mp hc
  obtain ⟨j, hj⟩ := List.mem_iff_getElem?.mp hd
  obtain rfl := inv.once i j c d st st' hi hj (by rw [pc]; rfl) (by rw [hpc]; rfl)
    (StreamId.mk_inj.mp heq).symm
  obtain rfl : c = d := Option.some.inj (hi.symm.trans hj)
  rw [pc] at hpc
  cases hpc

/-- A new append has no position yet. -/
theorem Positions.call (entry : E) (piType : String) :
    Positions { s with calls := s.calls ++ [⟨entry, piType, .incr⟩] } := by
  have fresh {c : AppendCall E} (hc : c ∈ s.calls ++ [⟨entry, piType, .incr⟩])
      (hne : c.pc ≠ .incr) :
        c ∈ s.calls := by
    rcases List.mem_append.mp hc with hc | hc
    · exact hc
    · obtain rfl : c = ⟨entry, piType, .incr⟩ := by simpa using hc
      exact absurd rfl hne
  have old {i : Nat} {c : AppendCall E} (hi : (s.calls ++ [⟨entry, piType, .incr⟩])[i]? = some c)
      (hne : c.pc.record ≠ none) : s.calls[i]? = some c := by
    rcases Nat.lt_or_ge i s.calls.length with hlt | hge
    · rwa [List.getElem?_append_left hlt] at hi
    · rw [List.getElem?_append_right hge] at hi
      obtain rfl : c = ⟨entry, piType, .incr⟩ := by
        have := List.mem_of_getElem? hi
        simpa using this
      exact absurd rfl hne
  refine ⟨?_, ?_, ?_, ?_, ?_, ?_⟩
  · intro c hc st hst
    exact inv.within c (fresh hc (by rintro h; simp [h, AppendPc.record] at hst)) st hst
  · intro i j c d st st' hi hj hst hst'
    exact inv.once i j c d st st' (old hi (by simp [hst])) (old hj (by simp [hst'])) hst hst'
  · intro c hc st replied hpc
    exact inv.added c (fresh hc (by simp [hpc])) st replied hpc
  · intro e he
    obtain ⟨c, hc, rest⟩ := inv.source e he
    exact ⟨c, List.mem_append_left _ hc, rest⟩
  · refine inv.last.imp id ?_
    rintro ⟨c, hc, rest⟩
    exact ⟨c, List.mem_append_left _ hc, rest⟩
  · intro c hc st hpc
    obtain ⟨d, hd, rest⟩ := inv.overtaken c (fresh hc (by simp [hpc])) st hpc
    exact ⟨d, List.mem_append_left _ hd, rest⟩

/-- A command of an append keeps the positions. -/
theorem Positions.command {i : Nat} (hi : s.calls[i]? = some c)
    (h : AppendEffect digest sid s.log c log' pc') :
    Positions ⟨log', s.calls.set i { c with pc := pc' }⟩ := by
  have hc := List.mem_of_getElem? hi
  -- an append that was added is not the one that takes the step
  have kept {d : AppendCall E} (hd : d ∈ s.calls) {st : StoredEntry E} {replied : Bool}
      (hpc : d.pc = .added st replied) : d ∈ s.calls.set i { c with pc := pc' } := by
    refine mem_set_of_ne hi hd ?_
    rintro rfl
    rcases h.not_over with hended | ⟨st, hended⟩ <;> simp [hended] at hpc
  have new_mem : ({ c with pc := pc' } : AppendCall E) ∈ s.calls.set i { c with pc := pc' } :=
    mem_set_self _ hi
  have seq_le : s.log.seq ≤ log'.seq := by
    cases h <;> simp
  have stream_le : ∀ e ∈ s.log.stream.entries, e ∈ log'.stream.entries := by
    intro e he
    cases h with
    | added _ _ accepted =>
      rw [(Stream.entries_of_xadd accepted).2.1]
      exact List.mem_append_left _ he
    | _ => exact he
  have within_new : ∀ st, pc'.record = some st →
      0 < st.position ∧ st.position ≤ log'.seq ∧ st.entry = c.entry ∧ st.piType = c.piType := by
    intro st hst
    cases h with
    | assigned now =>
      obtain rfl := Option.some.inj hst
      exact ⟨Nat.succ_pos _, le_refl _, rfl, rfl⟩
    | added _ pc | rejected pc => exact inv.within c hc st (by rw [pc]; exact hst)
    | _ => simp [AppendPc.record] at hst
  refine ⟨?_, ?_, ?_, ?_, ?_, ?_⟩
  · refine forall_mem_set ?_ within_new
    intro d hd st hst
    obtain ⟨pos, hle, rest⟩ := inv.within d hd st hst
    exact ⟨pos, hle.trans seq_le, rest⟩
  · -- the position of the stepping call is its old one, or new
    have new_once {j : Nat} {d : AppendCall E} (hj : s.calls[j]? = some d) {st st' : StoredEntry E}
        (hst : pc'.record = some st) (hst' : d.pc.record = some st')
        (heq : st.position = st'.position) : i = j := by
      cases h with
      | assigned now =>
        obtain rfl := Option.some.inj hst
        have := (inv.within d (List.mem_of_getElem? hj) st' hst').2.1
        simp only [makeStoredEntry] at heq
        omega
      | added _ pc | rejected pc =>
        exact inv.once i j c d st st' hi hj (by rw [pc]; exact hst) hst' heq
      | _ => simp [AppendPc.record] at hst
    intro j k d d' st st' hj hk hst hst' heq
    rw [List.getElem?_set] at hj hk
    split at hj
    · rename_i hij
      split at hk
      · rename_i hik
        rw [← hij, ← hik]
      · split at hj
        · cases hj
          rw [← hij]
          exact new_once hk hst hst' heq
        · cases hj
    · split at hk
      · rename_i hik
        split at hk
        · cases hk
          rw [← hik]
          exact (new_once hj hst' hst heq.symm).symm
        · cases hk
      · exact inv.once j k d d' st st' hj hk hst hst' heq
  · refine forall_mem_set ?_ ?_
    · exact fun d hd st replied hpc => stream_le _ (inv.added d hd st replied hpc)
    · intro st replied hpc
      cases h with
      | added _ _ accepted =>
        cases hpc
        rw [(Stream.entries_of_xadd accepted).2.1]
        exact List.mem_append_right _ (List.mem_singleton.mpr rfl)
      | _ => cases hpc
  · intro e he
    have old (he : e ∈ s.log.stream.entries) : ∃ d ∈ s.calls.set i { c with pc := pc' },
        ∃ st replied, d.pc = .added st replied ∧ e = st.row := by
      obtain ⟨d, hd, st, replied, hpc, heq⟩ := inv.source e he
      exact ⟨d, kept hd hpc, st, replied, hpc, heq⟩
    cases h with
    | @added st _ replied pc accepted =>
      rw [(Stream.entries_of_xadd accepted).2.1] at he
      rcases List.mem_append.mp he with he | he
      · exact old he
      · exact ⟨_, new_mem, st, replied, rfl, List.mem_singleton.mp he⟩
    | _ => exact old he
  · have old (hlast : log'.stream.lastId = s.log.stream.lastId) :
        log'.stream.lastId = .mk 0 0 ∨ ∃ d ∈ s.calls.set i { c with pc := pc' }, ∃ st replied,
          d.pc = .added st replied ∧ log'.stream.lastId = st.row.1 := by
      rw [hlast]
      refine inv.last.imp id ?_
      rintro ⟨d, hd, st, replied, hpc, heq⟩
      exact ⟨d, kept hd hpc, st, replied, hpc, heq⟩
    cases h with
    | @added st _ replied pc accepted =>
      exact .inr ⟨_, new_mem, st, replied, rfl, (Stream.entries_of_xadd accepted).2.2⟩
    | _ => exact old rfl
  · have kept_overtaken {st : StoredEntry E}
        (h : ∃ d ∈ s.calls, ∃ st' replied, d.pc = .added st' replied ∧ st.position < st'.position) :
        ∃ d ∈ s.calls.set i { c with pc := pc' }, ∃ st' replied,
          d.pc = .added st' replied ∧ st.position < st'.position := by
      obtain ⟨d, hd, st', replied, hpc, hlt⟩ := h
      exact ⟨d, kept hd hpc, st', replied, hpc, hlt⟩
    refine forall_mem_set ?_ ?_
    · exact fun d hd st hpc => kept_overtaken (inv.overtaken d hd st hpc)
    · intro st hpc
      cases h with
      | rejected pc refused =>
        cases hpc
        exact kept_overtaken ((inv.refused_iff hc pc).mp refused)
      | _ => cases hpc

end Steps

theorem logStep_cases {t : LogSys E} {a : LogAction E} (h : logStep digest sid s a = some t) :
    (∃ entry piType, t = { s with calls := s.calls ++ [⟨entry, piType, .incr⟩] }) ∨
    ∃ i c log' pc', s.calls[i]? = some c ∧ AppendEffect digest sid s.log c log' pc' ∧
      t = ⟨log', s.calls.set i { c with pc := pc' }⟩ := by
  cases a with
  | call entry piType =>
    cases h
    exact .inl ⟨entry, piType, rfl⟩
  | command i fate =>
    simp only [logStep] at h
    split at h
    · cases h
    · rename_i c hi
      obtain ⟨⟨log', pc'⟩, hstep, rfl⟩ := Option.map_eq_some_iff.mp h
      exact .inr ⟨i, c, log', pc', hi, appendStep_effect hstep, rfl⟩

/-- INTERNAL: **the invariant of the log holds in every interleaving**. -/
theorem positions_of_reachable (h : Reachable (logSystem digest sid) s) :
    Positions s := by
  refine h.invariant ?_ ?_
  · rintro s rfl
    exact ⟨by simp [LogSys.empty], by simp [LogSys.empty], by simp [LogSys.empty],
      by simp [LogSys.empty, Stream.empty], .inl rfl, by simp [LogSys.empty]⟩
  · rintro s t - inv ⟨a, ha⟩
    rcases logStep_cases ha with ⟨entry, piType, rfl⟩ | ⟨i, c, log', pc', hi, heffect, rfl⟩
    · exact inv.call entry piType
    · exact inv.command hi heffect

/-! ## A single writer -/

/-- With a single writer, an append that has a position has the last one, and none is
refused. -/
structure SingleWriterLog (s : LogSys E) : Prop where
  latest : ∀ c ∈ s.calls, ∀ st, c.pc = .xadd st → st.position = s.log.seq
  accepted : ∀ c ∈ s.calls, ∀ st, c.pc ≠ .rejected st

theorem SingleWriterLog.command (w : SingleWriterLog s) (inv : Positions s) {i : Nat}
    (hi : s.calls[i]? = some c) (h : AppendEffect digest sid s.log c log' pc')
    (single : SingleWriter s ⟨log', s.calls.set i { c with pc := pc' }⟩) :
    SingleWriterLog ⟨log', s.calls.set i { c with pc := pc' }⟩ := by
  have hc := List.mem_of_getElem? hi
  have nobody (hseq : log'.seq ≠ s.log.seq) : ∀ d ∈ s.calls, ∀ st, d.pc ≠ .xadd st := single hseq
  cases h with
  | assigned now pc =>
    refine ⟨forall_mem_set (fun d hd st hst => ?_) ?_, forall_mem_set w.accepted (by simp)⟩
    · exact absurd hst (nobody (by simp) d hd st)
    · rintro st ⟨rfl⟩
      rfl
  | unanswered pc =>
    refine ⟨forall_mem_set (fun d hd st hst => ?_) (by simp), forall_mem_set w.accepted (by simp)⟩
    exact absurd hst (nobody (by simp) d hd st)
  | dropped | added =>
    exact ⟨forall_mem_set w.latest (by simp), forall_mem_set w.accepted (by simp)⟩
  | @rejected st pc refused =>
    obtain ⟨d, hd, st', replied, hpc, hlt⟩ := (inv.refused_iff hc pc).mp refused
    have := (inv.within d hd st' (by rw [hpc]; rfl)).2.1
    have := w.latest c hc st pc
    omega

/-- INTERNAL: **with a single writer no append is refused**. -/
theorem singleWriterLog_of_reachable (h : Reachable (singleWriterSystem digest sid) s) :
    SingleWriterLog s := by
  refine h.invariant ?_ ?_
  · rintro s rfl
    exact ⟨by simp [LogSys.empty], by simp [LogSys.empty]⟩
  · rintro s t hs w ⟨⟨a, ha⟩, single⟩
    have inv := positions_of_reachable hs.of_restrict
    rcases logStep_cases ha with ⟨entry, piType, rfl⟩ | ⟨i, c, log', pc', hi, heffect, rfl⟩
    · exact ⟨forall_mem_concat w.latest fun _ => nofun, forall_mem_concat w.accepted fun _ => nofun⟩
    · exact w.command inv hi heffect single

/-- INTERNAL: **an append is stored at its position unless it is overtaken**. In every
interleaving of appends on one session: an append that was added is in the stream, with its
entry, at the position it was assigned; one that was refused is not, and one with a larger
position had been added; the server refuses an `XADD` exactly in that case; and none is
refused in a run with a single writer.
SRCLINE: redis-backend.ts:101-124 -/
theorem append_stored_unless_overtaken {s : LogSys E} (h : Reachable (logSystem digest sid) s) :
    (∀ c ∈ s.calls, ∀ st replied, c.pc = .added st replied →
      st.row ∈ s.log.stream.entries ∧ st.entry = c.entry) ∧
    (∀ c ∈ s.calls, ∀ st, c.pc = .rejected st →
      (∀ e ∈ s.log.stream.entries, e.1 ≠ .mk st.position 0) ∧
      ∃ d ∈ s.calls, ∃ st' replied, d.pc = .added st' replied ∧ st.position < st'.position) ∧
    (∀ c ∈ s.calls, ∀ st replied now, c.pc = .xadd st →
      ∃ log' pc', appendStep digest sid s.log c (.executed replied now) = some (log', pc') ∧
        (pc' = .rejected st ∨ pc' = .added st replied) ∧
        (pc' = .rejected st ↔ ∃ d ∈ s.calls, ∃ st' replied',
          d.pc = .added st' replied' ∧ st.position < st'.position)) ∧
    (Reachable (singleWriterSystem digest sid) s → ∀ c ∈ s.calls, ∀ st, c.pc ≠ .rejected st) := by
  have inv := positions_of_reachable h
  refine ⟨?_, ?_, ?_, fun hw => (singleWriterLog_of_reachable hw).accepted⟩
  · intro c hc st replied hpc
    exact ⟨inv.added c hc st replied hpc, (inv.within c hc st (by rw [hpc]; rfl)).2.2.1⟩
  · exact fun c hc st hpc => ⟨inv.not_stored_of_rejected hc hpc, inv.overtaken c hc st hpc⟩
  · intro c hc st replied now hpc
    rw [← inv.refused_iff hc hpc]
    cases hadd : s.log.stream.xadd st.row.1 st.row.2 with
    | none => exact ⟨s.log, .rejected st, by simp [appendStep, hpc, hadd], .inl rfl, by simp⟩
    | some stream =>
      exact ⟨{ s.log with stream := stream }, .added st replied, by simp [appendStep, hpc, hadd],
        .inr rfl, by simp⟩

/-- Two turns append at once; the second takes its position later and writes first. -/
def overtakenAppend : List (LogAction String) :=
  [.call "first" "message", .call "second" "message", .command 0 (.executed true 0),
    .command 1 (.executed true 0), .command 1 (.executed true 0), .command 0 (.executed true 0)]

/-- The second append was added. -/
def secondAdded (s : LogSys String) : Bool :=
  match s.calls with
  | [_, ⟨_, _, .added _ _⟩] => true
  | _ => false

/-- The first append was refused, and the stream holds the second entry alone. -/
def firstRejected (s : LogSys String) : Bool :=
  match s.calls with
  | [⟨"first", "message", .rejected _⟩, _] =>
    s.log.stream.entries.map (fun e => e.2.entry) == ["second"]
  | _ => false

/-- The two appends after that run, when both commands of each were executed. -/
theorem append_stored_unless_overtaken_two_writers :
    ∃ s c, Reachable (logSystem (fun _ : String => "") "s") s ∧ c ∈ s.calls ∧
      ∃ st replied, c.pc = .added st replied ∧ st.row ∈ s.log.stream.entries := by
  obtain ⟨s, hs, hP⟩ := exists_reachable_of_log (fun _ : String => "") "s" overtakenAppend
    secondAdded (by decide +kernel)
  unfold secondAdded at hP
  split at hP
  · rename_i a entry piType st replied hcalls
    have hc : ⟨entry, piType, .added st replied⟩ ∈ s.calls := by simp [hcalls]
    exact ⟨s, _, hs, hc, st, replied, rfl,
      ((append_stored_unless_overtaken hs).1 _ hc st replied rfl).1⟩
  · cases hP

/-- The first append is refused, though every command of it reached the server: the stream
holds the second entry alone. -/
theorem append_rejected_when_overtaken :
    ∃ s st, Reachable (logSystem (fun _ : String => "") "s") s ∧
      s.calls[0]? = some ⟨"first", "message", .rejected st⟩ ∧
      s.log.stream.entries.map (fun e => e.2.entry) = ["second"] := by
  obtain ⟨s, hs, hP⟩ := exists_reachable_of_log (fun _ : String => "") "s" overtakenAppend
    firstRejected (by decide +kernel)
  unfold firstRejected at hP
  split at hP
  · rename_i st b hcalls
    exact ⟨s, st, hs, by simp [hcalls], beq_iff_eq.mp hP⟩
  · cases hP

end ServerlessHarness.SessionLog
