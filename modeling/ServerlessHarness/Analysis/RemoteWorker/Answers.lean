import ServerlessHarness.Analysis.RemoteWorker.Output
import ServerlessHarness.Interface.RemoteWorker.Progress

/-!
# Every exec gets one terminal frame

An exec is coalesced into one in flight that is alike, and nothing is queued for it; or one terminal
frame is queued for it, after all its chunks, while the connection is not ending. Until then some
goroutine or the queue has it, and the worker can always get on to where every exec is answered. The
execs in flight have different request ids.
-/

set_option autoImplicit false

namespace ServerlessHarness.RemoteWorker

open Library Protocol

section Answers

variable {Digest : Type} {sha256 : List UInt8 → Digest}

/-- The terminal frames that were queued for an exec. -/
def Conn.terminals (c : Conn Digest) (n : ℕ) : List Frame := (c.said n).filter Frame.isTerminal

/-- A goroutine or the queue has the exec. -/
def Conn.Pending (c : Conn Digest) (n : ℕ) : Prop := n ∈ c.holders.map Prod.fst

theorem WholeScript.terminals {reqId : ℕ} {script : List Frame} (h : WholeScript reqId script) :
    (script.filter Frame.isTerminal).length = 1 := by
  obtain ⟨chunks, last, rfl, hchunks, hlast⟩ := h.shape
  have hnone : chunks.filter Frame.isTerminal = [] := by
    rw [List.filter_eq_nil_iff]
    intro f hf
    rw [hchunks f hf]
    exact Bool.false_ne_true
  rw [List.filter_append, hnone, List.nil_append, List.filter_cons_of_pos hlast]
  rfl

variable {c : Conn Digest} {n : ℕ} {r : Received} {ran : Exec → RunResult → ℕ → Prop}

theorem said_of_coalesced (hb : Books sha256 c) (hr : c.received[n]? = some r) {other : ℕ}
    (hfate : r.fate = .coalesced other) : c.said n = [] := by
  obtain ⟨todo, howes, _⟩ := hb.owes hr
  cases todo with
  | none => exact howes.2
  | some todo =>
    obtain ⟨script, hscript, hsub, _⟩ := howes
    unfold Received.script at hscript
    rw [hfate] at hscript
    cases hscript
    exact (List.append_eq_nil_iff.mp (List.sublist_nil.mp hsub)).1

/-- INTERNAL: **one exec that is not coalesced**. -/
theorem said_of_not_coalesced (hb : Books sha256 c) (htraced : Traced sha256 ran c.received n r)
    (hr : c.received[n]? = some r) (hfate : ∀ other, r.fate ≠ .coalesced other) :
    (∀ frame ∈ c.said n, frame.reqId = some r.exec.reqId) ∧ (c.terminals n).length ≤ 1 ∧
      (∀ before frame after, c.said n = before ++ frame :: after → frame.isTerminal = true →
        after = []) ∧
      (c.ending = false → (c.terminals n).length = 1 ∨ c.Pending n) := by
  obtain ⟨todo, howes, hlost, hheld⟩ := hb.owes hr
  cases todo with
  | none =>
    unfold Conn.terminals
    rw [howes.2]
    refine ⟨fun frame hframe => (nomatch hframe), Nat.zero_le 1, ?_, ?_⟩
    · intro before frame after heq
      exact absurd heq.symm (List.append_ne_nil_of_right_ne_nil _ (List.cons_ne_nil frame after))
    · intro _
      rcases hheld with hnone | ⟨h, hin, _⟩
      · cases hnone
      · exact Or.inr (List.mem_map_of_mem hin)
  | some todo =>
    obtain ⟨script, hscript, hsub, hwhole⟩ := howes
    rcases script_cases htraced hscript with ⟨other, hother, _⟩ | ⟨_, hshape⟩
    · exact absurd hother (hfate other)
    · have hsaid : (c.said n).Sublist script := (List.sublist_append_left _ _).trans hsub
      have hcount : (c.terminals n).length ≤ 1 := by
        rw [← hshape.terminals]
        exact (hsaid.filter Frame.isTerminal).length_le
      refine ⟨?_, hcount, ?_, ?_⟩
      · exact fun frame hframe => hshape.reqIds frame (hsaid.subset hframe)
      · intro before frame after heq hterminal
        rw [heq] at hsaid
        exact (hshape.last_of_sublist hsaid hterminal).1
      · intro hending
        have hkept : r.lost = false := by
          rw [Bool.eq_false_iff]
          intro htrue
          rw [hlost htrue] at hending
          cases hending
        rcases hheld with hnone | ⟨h, hin, _⟩
        · cases hnone
          have heq := hwhole hkept
          rw [List.append_nil] at heq
          left
          unfold Conn.terminals
          rw [heq]
          exact hshape.terminals
        · exact Or.inr (List.mem_map_of_mem hin)

theorem Revised.map_exec {runs : ℕ → Run → Prop} {received received' : List Received}
    (h : Revised runs received received') :
      received'.map Received.exec = received.map Received.exec := by
  obtain ⟨n, g, rfl, hg⟩ := h
  exact map_modify_of_eq (fun r => (hg r).1) received n

variable [DecidableEq Digest] {cfg : Config} {s t : Session Digest}

theorem map_exec_of_innerSteps {runs : ℕ → Run}
    (hst : Relation.ReflTransGen (InnerStep sha256 cfg runs) s t) :
    t.conn.received.map Received.exec = s.conn.received.map Received.exec := by
  induction hst with
  | refl => rfl
  | tail hsteps hstep ih =>
    rw [← ih]
    exact hstep.revised.map_exec

/-- The execs received on the connection after an action, in order. -/
def execsAfter (execs : List Exec) : Action → List Exec
  | .connect => []
  | .exec e => execs ++ [e]
  | _ => execs

theorem map_exec_step {a : Action} (h : sessionStep sha256 cfg s a = some t) :
    t.conn.received.map Received.exec = execsAfter (s.conn.received.map Received.exec) a := by
  cases a with
  | connect =>
    cases step_moves h
    rfl
  | exec e =>
    cases step_moves h
    show (s.conn.decided sha256 e (s.claim sha256 e).1).received.map Received.exec = _
    cases (s.claim sha256 e).1 <;> exact List.map_append
  | _ =>
    rcases received_step h with ⟨ha, _⟩ | ⟨e, ha, _⟩ | hrevised
    · cases ha
    · cases ha
    · exact hrevised.map_exec

/-- **Each exec is coalesced into one in flight that is alike, or has exactly one terminal frame
queued for it, after its chunks, unless the connection is ending**; it can always come to that; no
two execs in flight have the same request id; and the records are of the execs that the connection
delivers. -/
theorem exec_answered_once (h : Reachable (sessionSystem sha256 cfg) s) :
    (∀ n r, s.conn.received[n]? = some r →
      (∃ other r', r.fate = .coalesced other ∧ other < n ∧ s.conn.received[other]? = some r' ∧
          Alike sha256 r'.exec r.exec ∧ s.conn.said n = []) ∨
        (∀ other, r.fate ≠ .coalesced other) ∧
          (∀ frame ∈ s.conn.said n, frame.reqId = some r.exec.reqId) ∧
          (s.conn.terminals n).length ≤ 1 ∧
          (∀ before frame after, s.conn.said n = before ++ frame :: after →
            frame.isTerminal = true → after = []) ∧
          (s.conn.ending = false → (s.conn.terminals n).length = 1 ∨ s.conn.Pending n)) ∧
    (∀ e slot, (s.claim sha256 e).1 = .coalesced slot →
      slot.message ∈ s.conn.flight ∧ Alike sha256 slot.message.exec e) ∧
    (s.conn.flight.map fun m => m.exec.reqId).Nodup ∧
    (∀ runs, s.conn.ending = false →
      ∃ t, Relation.ReflTransGen (InnerStep sha256 cfg runs) s t ∧ t.conn.ending = false ∧
        t.conn.received.map Received.exec = s.conn.received.map Received.exec ∧
        ∀ n r, t.conn.received[n]? = some r →
          (∃ other, r.fate = .coalesced other) ∨ (t.conn.terminals n).length = 1) ∧
    ∀ a t, sessionStep sha256 cfg s a = some t →
      t.conn.received.map Received.exec = execsAfter (s.conn.received.map Received.exec) a := by
  have hb := books_of_reachable h
  obtain ⟨_, hall⟩ := traced_of_reachable h
  refine ⟨?_, fun e slot hclaim => hb.coalesced hclaim, hb.registry.distinct, ?_,
    fun _ _ => map_exec_step⟩
  · intro n r hr
    by_cases hfate : ∃ other, r.fate = .coalesced other
    · obtain ⟨other, hother⟩ := hfate
      obtain ⟨r', hr', hlt, halike⟩ := (hall n r hr).1 other hother
      exact Or.inl ⟨other, r', hother, hlt, hr', halike, said_of_coalesced hb hr hother⟩
    · rw [not_exists] at hfate
      exact Or.inr ⟨hfate, said_of_not_coalesced hb (hall n r hr) hr hfate⟩
  · intro runs hending
    obtain ⟨t, hsteps, hending', hrest⟩ := exists_rest runs h hending
    refine ⟨t, hsteps, hending', map_exec_of_innerSteps hsteps, ?_⟩
    intro n r hr
    by_cases hfate : ∃ other, r.fate = .coalesced other
    · exact Or.inl hfate
    · rw [not_exists] at hfate
      have ht := reachable_of_innerSteps h hsteps
      obtain ⟨_, _, _, hone⟩ := said_of_not_coalesced (books_of_reachable ht)
        ((traced_of_reachable ht).2 n r hr) hr hfate
      rcases hone hending' with hone | hpending
      · exact Or.inr hone
      · unfold Conn.Pending at hpending
        rw [holders_of_weight_eq_zero hrest] at hpending
        cases hpending

end Answers

/-- While the exec of the example is in flight, a second delivery of it is coalesced. -/
theorem exec_answered_once_redelivered :
    ∃ s, Reachable (sessionSystem plainDigest workerConfig) s ∧
      s.conn.said 1 = [] ∧ s.conn.ending = false ∧
      ∃ t, Relation.ReflTransGen (InnerStep plainDigest workerConfig fun _ => greetingRun) s t ∧
        t.conn.received.map Received.exec = [greeting, greeting] ∧
        (∀ n r, t.conn.received[n]? = some r →
          (∃ other, r.fate = .coalesced other) ∨ (t.conn.terminals n).length = 1) := by
  obtain ⟨s, hs, hP⟩ := exists_session_state plainDigest workerConfig
    [.connect, .exec greeting, .reply, .exec greeting]
    (fun s : Session (List UInt8) => decide (s.conn.said 1 = [] ∧ s.conn.ending = false ∧
      s.conn.received.map Received.exec = [greeting, greeting]))
    (by decide +kernel)
  obtain ⟨hsaid, hending, hexecs⟩ := of_decide_eq_true hP
  obtain ⟨_, _, _, hprogress, _⟩ := exec_answered_once hs
  obtain ⟨t, hsteps, _, hsame, hanswered⟩ := hprogress (fun _ => greetingRun) hending
  exact ⟨s, hs, hsaid, hending, t, hsteps, hsame.trans hexecs, hanswered⟩

end ServerlessHarness.RemoteWorker
