import ServerlessHarness.Interface.RemoteWorker.Fates

/-!
# What is queued for one exec

A script is a sequence of chunk frames and then one terminal frame, all with the request id of the
exec, or nothing at all if the exec was coalesced. The frames that are queued for an exec are a
part of its script; nothing is queued after the terminal frame.
-/

set_option autoImplicit false

namespace ServerlessHarness.RemoteWorker

open Library Protocol

def Frame.isTerminal : Frame → Bool
  | hello _ => false
  | heartbeat => false
  | chunk _ => false
  | exit _ => true
  | error _ => true

def Frame.reqId : Frame → Option ℕ
  | hello _ => none
  | heartbeat => none
  | chunk c => some c.reqId
  | exit e => some e.reqId
  | error e => some e.reqId

theorem conclude_terminal (e : Exec) (result : RunResult) (dropped : ℕ) :
    (conclude e result dropped).1.isTerminal = true ∧
      (conclude e result dropped).1.reqId = some e.reqId := by
  cases result <;> exact ⟨rfl, rfl⟩

variable {frame : Frame} {reqId : ℕ}

theorem Cached.terminal {ran : Exec → RunResult → ℕ → Prop} {e : Exec} (h : Cached ran e frame) :
    frame.isTerminal = true ∧ frame.reqId = some e.reqId := by
  obtain ⟨result, dropped, -, heq⟩ := h
  have hterminal := conclude_terminal e result dropped
  rw [heq] at hterminal
  exact hterminal

theorem mem_chunkFrames {calls : List SinkCall} (h : frame ∈ chunkFrames reqId calls) :
    frame.isTerminal = false ∧ frame.reqId = some reqId := by
  obtain ⟨call, _, hframe⟩ := List.mem_filterMap.mp h
  cases call with
  | chunk stream data =>
    cases hframe
    exact ⟨rfl, rfl⟩
  | dropped stream n => cases hframe

/-- The frames of one exec: chunk frames, then one terminal frame. -/
structure WholeScript (reqId : ℕ) (script : List Frame) : Prop where
  shape : ∃ chunks last, script = chunks ++ [last] ∧ (∀ f ∈ chunks, f.isTerminal = false) ∧
    last.isTerminal = true
  reqIds : ∀ f ∈ script, f.reqId = some reqId

theorem wholeScript_singleton (h : frame.isTerminal = true ∧ frame.reqId = some reqId) :
    WholeScript reqId [frame] where
  shape := ⟨[], frame, rfl, fun f hf => (nomatch hf), h.1⟩
  reqIds f hf := by
    rw [List.mem_singleton.mp hf]
    exact h.2

theorem wholeScript_running (e : Exec) (r : Running) : WholeScript e.reqId (r.script e) where
  shape := ⟨_, _, rfl, fun _ hf => (mem_chunkFrames hf).1, (conclude_terminal e r.result _).1⟩
  reqIds :=
    forall_mem_concat (fun _ hf => (mem_chunkFrames hf).2) (conclude_terminal e r.result _).2

section Scripts

variable {Digest : Type} {sha256 : List UInt8 → Digest} {received : List Received} {n : ℕ}
  {r : Received} {script said : List Frame} {ran : Exec → RunResult → ℕ → Prop}

/-- INTERNAL: **a script ends with its only terminal frame**, unless it is empty. -/
theorem script_cases (htraced : Traced sha256 ran received n r) (h : r.script = some script) :
    (∃ other, r.fate = .coalesced other ∧ script = []) ∨
      (∀ other, r.fate ≠ .coalesced other) ∧ WholeScript r.exec.reqId script := by
  unfold Received.script at h
  cases hfate : r.fate with
  | coalesced other =>
    rw [hfate] at h
    cases h
    exact Or.inl ⟨other, rfl, rfl⟩
  | collided | refused | skipped =>
    rw [hfate] at h
    cases h
    exact Or.inr ⟨fun other heq => (nomatch heq), wholeScript_singleton ⟨rfl, rfl⟩⟩
  | replayed source frame =>
    rw [hfate] at h
    cases h
    obtain ⟨halike, hcached⟩ := htraced.2 source frame hfate
    refine Or.inr ⟨fun other heq => (nomatch heq), wholeScript_singleton ⟨hcached.terminal.1, ?_⟩⟩
    rw [hcached.terminal.2, halike.1]
  | admitted =>
    rw [hfate] at h
    cases h
  | ran run =>
    rw [hfate] at h
    cases h
    exact Or.inr ⟨fun other heq => (nomatch heq), wholeScript_running r.exec _⟩

theorem WholeScript.last_of_sublist (h : WholeScript reqId script) {before after : List Frame}
    (hsub : (before ++ frame :: after).Sublist script) (hterminal : frame.isTerminal = true) :
    after = [] ∧ ∀ f ∈ before, f.isTerminal = false := by
  obtain ⟨chunks, last, rfl, hchunks, _⟩ := h.shape
  have hnot : ∀ l : List Frame, l.Sublist chunks → ∀ f ∈ l, f.isTerminal = false :=
    fun l hl f hf => hchunks f (hl.subset hf)
  obtain ⟨l₁, l₂, heq, hl₁, hl₂⟩ := List.sublist_append_iff.mp hsub
  -- the terminal frame cannot be among the chunks, so it is what stands for the last frame
  have hlast : l₂ = [last] := by
    rcases List.sublist_singleton.mp hl₂ with hnil | hone
    · rw [hnil, List.append_nil] at heq
      have hin : frame ∈ l₁ := by
        rw [← heq]
        exact List.mem_append_right _ List.mem_cons_self
      rw [hnot l₁ hl₁ frame hin] at hterminal
      cases hterminal
    · exact hone
  rw [hlast] at heq
  rcases List.eq_nil_or_concat after with hnil | ⟨init, x, hconcat⟩
  · refine ⟨hnil, ?_⟩
    rw [hnil] at heq
    obtain ⟨hbefore, _⟩ := List.append_inj' heq rfl
    rw [hbefore]
    exact hnot l₁ hl₁
  · rw [hconcat, List.concat_eq_append, ← List.cons_append, ← List.append_assoc] at heq
    obtain ⟨hinit, _⟩ := List.append_inj' heq rfl
    have hin : frame ∈ l₁ := by
      rw [← hinit]
      exact List.mem_append_right _ List.mem_cons_self
    rw [hnot l₁ hl₁ frame hin] at hterminal
    cases hterminal

end Scripts

section Books

variable {Digest : Type} {sha256 : List UInt8 → Digest} {c : Conn Digest} {n : ℕ} {r : Received}

/-- What is still to be said for an exec is with its holder. -/
theorem Books.owes (hb : Books sha256 c) (hr : c.received[n]? = some r) :
    ∃ todo, Owes r (c.said n) todo ∧ (r.lost = true → c.ending = true) ∧
      (todo = some [] ∨ ∃ h, (n, h) ∈ c.holders ∧ h.todo = todo) := by
  by_cases hheld : n ∈ c.holders.map Prod.fst
  · obtain ⟨⟨k, h⟩, hin, rfl⟩ := List.mem_map.mp hheld
    obtain ⟨r', hr', hlaw⟩ := hb.custody.held k h hin
    rw [hr] at hr'
    cases hr'
    exact ⟨h.todo, hlaw.owes, hlaw.lost, Or.inr ⟨h, hin, rfl⟩⟩
  · have hlaw := hb.custody.free n r hr hheld
    exact ⟨some [], hlaw.owes, hlaw.lost, Or.inl rfl⟩

theorem Books.received_of_mem_said (hb : Books sha256 c) (h : frame ∈ c.said n) :
    ∃ r, c.received[n]? = some r := by
  by_cases hlt : n < c.received.length
  · exact ⟨c.received[n], List.getElem?_eq_getElem hlt⟩
  · rw [hb.known n (Nat.le_of_not_lt hlt)] at h
    cases h

end Books

end ServerlessHarness.RemoteWorker
