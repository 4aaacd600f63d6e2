import ServerlessHarness.Interface.RemoteWorker.Pumps
import ServerlessHarness.Interface.RemoteWorker.Scripts

/-!
# What precedes a clean end

An `End` with a status and without truncation that goes out on a connection ends a run on that
connection, or repeats the end of an exec with the same request id and fingerprint that was run
before, from the cache. In the first case what the runner passed on went out before it, if no frame
was given up, and for the bash runner that is the output of the command, if it read that to its
end. In the second nothing need precede it: the cache keeps the status only, and it outlives the
connection on which the output went out.
-/

set_option autoImplicit false

namespace ServerlessHarness.RemoteWorker

open Library Protocol

/-- The standard output that frames carry for the exec with number `n`, in chunks of its request. -/
def outputFor (n reqId : ℕ) (frames : List OutFrame) : List UInt8 :=
  ((frames.filter fun out => out.origin = some n).map OutFrame.frame).flatMap (Frame.stdout reqId)

theorem conclude_clean {e : Exec} {result : RunResult} {dropped reqId : ℕ} {code : Int}
    (h : (conclude e result dropped).1 = endFrame reqId code false) (hcode : 0 ≤ code) :
    e.reqId = reqId ∧ result = .exited code ∧ dropped = 0 := by
  cases result with
  | exited status =>
    injection h with hend
    injection hend with hreqId hstatus htruncated
    rw [hstatus]
    refine ⟨hreqId, rfl, ?_⟩
    exact Nat.eq_zero_of_not_pos (of_decide_eq_false htruncated)
  | timeout => cases h
  | aborted =>
    injection h with hend
    injection hend with _ hstatus _
    omega
  | failed message => cases h

/-- What stands before the last element, if that occurs only once. -/
theorem eq_of_append_cons_eq_concat {α : Type} {f : α} {before after init : List α}
    (h : before ++ f :: after = init ++ [f]) (hnot : f ∉ init) : before = init := by
  rcases List.eq_nil_or_concat after with hnil | ⟨front, x, hconcat⟩
  · rw [hnil] at h
    exact (List.append_inj' h rfl).1
  · rw [hconcat, List.concat_eq_append, ← List.cons_append, ← List.append_assoc] at h
    obtain ⟨hinit, _⟩ := List.append_inj' h rfl
    refine absurd ?_ hnot
    rw [← hinit]
    exact List.mem_append_right _ List.mem_cons_self

/-- INTERNAL: **a clean end in the script of a run comes last**, after all of the output. -/
theorem clean_end_of_script {e : Exec} {run : Run} {frame : Frame} {reqId : ℕ} {code : Int}
    (hmem : frame ∈ Running.script e ⟨run.calls, run.result, 0⟩)
    (hend : frame = endFrame reqId code false) (hcode : 0 ≤ code) :
    e.reqId = reqId ∧ run.result = .exited code ∧ cutBy run.calls = 0 ∧
      ∀ front rest, front ++ frame :: rest = Running.script e ⟨run.calls, run.result, 0⟩ →
        front.flatMap (Frame.stdout reqId) = stdoutOf run.calls := by
  have hnot : frame ∉ chunkFrames e.reqId run.calls := by
    intro hchunk
    have hterminal := (mem_chunkFrames hchunk).1
    rw [hend] at hterminal
    cases hterminal
  have hlast : frame = (conclude e run.result (0 + cutBy run.calls)).1 := by
    rcases List.mem_append.mp hmem with hchunk | hlast
    · exact absurd hchunk hnot
    · exact List.mem_singleton.mp hlast
  obtain ⟨hreqId, hresult, hcut⟩ := conclude_clean (hlast.symm.trans hend) hcode
  rw [Nat.zero_add] at hcut
  refine ⟨hreqId, hresult, hcut, ?_⟩
  intro front rest heq
  unfold Running.script at heq
  dsimp only at heq
  rw [← hlast] at heq
  rw [eq_of_append_cons_eq_concat heq hnot, ← hreqId, stdout_chunkFrames]

section Output

variable {Digest : Type} {sha256 : List UInt8 → Digest}

/-- What was sent for an exec before a frame is what was queued for it before. -/
theorem said_of_sent {c : Conn Digest} {before after : List OutFrame} {out : OutFrame} {n : ℕ}
    (hsent : c.sent = before ++ out :: after) (horigin : out.origin = some n) :
    ∃ rest, c.said n =
      (before.filter fun out => out.origin = some n).map OutFrame.frame ++ out.frame :: rest := by
  have hpos : ∀ rest : List OutFrame, (out :: rest).filter (fun out => out.origin = some n) =
      out :: rest.filter fun out => out.origin = some n :=
    fun rest => List.filter_cons_of_pos (decide_eq_true horigin)
  unfold Conn.said Conn.pushed
  rw [hsent, List.append_assoc, List.filter_append, List.map_append, List.cons_append, hpos,
    List.map_cons]
  exact ⟨_, rfl⟩

/-- INTERNAL: **an answer that goes out is in the script of its exec**, after what the script has
before it, if no frame was given up. -/
theorem script_of_sent {c : Conn Digest} {before after : List OutFrame} {out : OutFrame}
    (hb : Books sha256 c) (hsent : c.sent = before ++ out :: after)
    (hanswer : out.frame.isAnswer = true) :
    ∃ n r script rest, out.origin = some n ∧ c.received[n]? = some r ∧
      r.script = some script ∧ out.frame ∈ script ∧
      (r.lost = false → (before.filter fun out => out.origin = some n).map OutFrame.frame ++
        out.frame :: rest = script) := by
  have hpushed : out ∈ c.pushed := by
    unfold Conn.pushed
    rw [hsent]
    exact List.mem_append_left _ (List.mem_append_right _ List.mem_cons_self)
  cases horigin : out.origin with
  | none =>
    rw [hb.lane.anonymous out hpushed horigin] at hanswer
    cases hanswer
  | some n =>
    obtain ⟨rest, hsaid⟩ := said_of_sent hsent horigin
    have hin : out.frame ∈ c.said n := by
      rw [hsaid]
      exact List.mem_append_right _ List.mem_cons_self
    obtain ⟨r, hr⟩ := hb.received_of_mem_said hin
    obtain ⟨todo, howes, _, _⟩ := hb.owes hr
    cases todo with
    | none =>
      rw [howes.2] at hin
      cases hin
    | some todo =>
      obtain ⟨script, hscript, hsub, hwhole⟩ := howes
      have hmem : out.frame ∈ script := hsub.subset (List.mem_append_left _ hin)
      refine ⟨n, r, script, rest ++ todo, rfl, hr, hscript, hmem, fun hlost => ?_⟩
      rw [← hwhole hlost, hsaid, List.append_assoc, List.cons_append]

variable [DecidableEq Digest] {cfg : Config} {s : Session Digest}

/-- INTERNAL: **a clean end that goes out repeats that of an exec that was run before, or the
output of its command went out before it**, if no frame of the exec was given up. The output is
what the runner passed on; the bash runner passes on what the command wrote, once it has read that
to its end.
SRCLINE: loop.go:284-468, 510-598, 635-736 -/
theorem clean_end_preceded (h : Reachable (sessionSystem sha256 cfg) s)
    {before after : List OutFrame}
    {out : OutFrame} {reqId : ℕ} {code : Int} (hsent : s.conn.sent = before ++ out :: after)
    (hend : out.frame = endFrame reqId code false) (hcode : 0 ≤ code) :
    ∃ n r, out.origin = some n ∧ s.conn.received[n]? = some r ∧ r.exec.reqId = reqId ∧
      ((∃ source, r.fate = .replayed source out.frame ∧ Alike sha256 source r.exec ∧
          Ran sha256 cfg s source (.exited code) 0) ∨
        ∃ run, r.fate = .ran run ∧ run.result = .exited code ∧ cutBy run.calls = 0 ∧
          (r.lost = false → outputFor n reqId before = stdoutOf run.calls ∧
            ∀ b : BashRun, run = b.run r.exec.streaming → b.ReadToEnd →
              outputFor n reqId before = b.stdout)) := by
  obtain ⟨_, hall⟩ := traced_of_reachable h
  obtain ⟨n, r, script, rest, horigin, hr, hscript, hmem, hwhole⟩ :=
    script_of_sent (books_of_reachable h) hsent (by rw [hend]; rfl)
  unfold Received.script at hscript
  refine ⟨n, r, horigin, hr, ?_⟩
  -- which fate has a clean end in its script
  cases hfate : r.fate with
  | replayed source frame =>
    rw [hfate] at hscript
    cases hscript
    obtain ⟨halike, hcached⟩ := (hall n r hr).2 source frame hfate
    have heq : out.frame = frame := List.mem_singleton.mp hmem
    obtain ⟨result, dropped, hran, hconclude⟩ := hcached
    have hframe : (conclude source result dropped).1 = endFrame reqId code false := by
      rw [hconclude, ← heq, hend]
    obtain ⟨hreqId, rfl, rfl⟩ := conclude_clean hframe hcode
    rw [heq]
    exact ⟨halike.1.symm.trans hreqId, Or.inl ⟨source, rfl, halike, hran⟩⟩
  | ran run =>
    rw [hfate] at hscript
    cases hscript
    obtain ⟨hreqId, hresult, hcut, hfront⟩ := clean_end_of_script hmem hend hcode
    refine ⟨hreqId, Or.inr ⟨run, rfl, hresult, hcut, fun hlost => ?_⟩⟩
    have hout : outputFor n reqId before = stdoutOf run.calls := hfront _ _ (hwhole hlost)
    refine ⟨hout, ?_⟩
    rintro b rfl hread
    rw [hout, ← hread]
    exact stdoutOf_bash_of_cut hcut
  | coalesced other =>
    rw [hfate] at hscript
    cases hscript
    cases hmem
  | collided | refused =>
    rw [hfate] at hscript
    cases hscript
    rw [List.mem_singleton.mp hmem] at hend
    cases hend
  | admitted =>
    rw [hfate] at hscript
    cases hscript
  | skipped =>
    rw [hfate] at hscript
    cases hscript
    rw [List.mem_singleton.mp hmem] at hend
    injection hend with hend
    injection hend with _ hstatus _
    omega

end Output

/-! ## A redelivery after a reconnect -/

def greeting : Exec := ⟨7, "echo", [], 60, true, "run"⟩

/-- A command that writes one byte and succeeds. -/
def greetingCommand : BashRun := ⟨[104], [(false, [104])], .exited 0⟩

def greetingRun : Run := greetingCommand.run true

/-- A connection on which the exec is run, its frames go out and the stream ends. -/
def firstConnection : List Action :=
  [.connect, .exec greeting, .reply, .pool 0, .pool 0, .start 0 greetingRun, .pool 0, .pool 0,
    .pool 0,
    .pool 0, .pool 0, .pool 0, .pool 0, .recvError, .send true, .send true, .send true, .send true,
    .send true, .send true]

/-- The connection is closed, and on the next one the exec is delivered again and answered. -/
def redelivery : List Action :=
  [.serve, .serve, .pool 0, .beatDone, .serve, .send true, .serve, .connect, .exec greeting, .reply,
    .send true, .send true, .send true]

/-- On the first connection the end comes after the byte; on the next it repeats the end of the
run. -/
theorem clean_end_preceded_greeting :
    (∃ s, Reachable (sessionSystem plainDigest workerConfig) s ∧ ∃ before out,
      s.conn.sent = before ++ [out] ∧ out.frame = endFrame 7 0 false ∧
        outputFor 0 7 before = [104]) ∧
    ∃ t, Reachable (sessionSystem plainDigest workerConfig) t ∧ ∃ before out,
      t.conn.sent = before ++ [out] ∧ out.frame = endFrame 7 0 false ∧
      Ran plainDigest workerConfig t greeting (.exited 0) 0 := by
  constructor
  · obtain ⟨s, hs, hP⟩ := exists_session_state plainDigest workerConfig firstConnection
      (fun s : Session (List UInt8) =>
        decide (s.conn.sent.drop 2 = [⟨endFrame 7 0 false, false, some 0⟩] ∧
          s.conn.received = [⟨greeting, .ran greetingRun, false⟩]))
      (by decide +kernel)
    obtain ⟨hdrop, hreceived⟩ := of_decide_eq_true hP
    have hsent : s.conn.sent = s.conn.sent.take 2 ++ [⟨endFrame 7 0 false, false, some 0⟩] := by
      rw [← hdrop, List.take_append_drop]
    obtain ⟨n, r, horigin, hr, _, hcases⟩ := clean_end_preceded hs hsent rfl (Int.le_refl 0)
    cases horigin
    rw [hreceived] at hr
    cases hr
    rcases hcases with ⟨_, hfate, _⟩ | ⟨run, hfate, _, _, hout⟩
    · cases hfate
    · cases hfate
      exact ⟨s, hs, _, _, hsent, rfl, (hout rfl).2 greetingCommand rfl rfl⟩
  · obtain ⟨t, ht, hP⟩ := exists_session_state plainDigest workerConfig
      (firstConnection ++ redelivery)
      (fun t : Session (List UInt8) =>
        decide (t.conn.sent.drop 1 = [⟨endFrame 7 0 false, true, some 0⟩] ∧
          t.conn.received = [⟨greeting, .replayed greeting (endFrame 7 0 false), false⟩]))
      (by decide +kernel)
    obtain ⟨hdrop, hreceived⟩ := of_decide_eq_true hP
    have hsent : t.conn.sent = t.conn.sent.take 1 ++ [⟨endFrame 7 0 false, true, some 0⟩] := by
      rw [← hdrop, List.take_append_drop]
    obtain ⟨n, r, horigin, hr, _, hcases⟩ := clean_end_preceded ht hsent rfl (Int.le_refl 0)
    cases horigin
    rw [hreceived] at hr
    cases hr
    rcases hcases with ⟨source, hfate, _, hran⟩ | ⟨run, hfate, _⟩
    · cases hfate
      exact ⟨t, ht, _, _, hsent, rfl, hran⟩
    · cases hfate

/-- The command wrote a byte, and after a reconnect the same exec is answered with a clean end
before which nothing but the hello went out. -/
theorem clean_end_without_output :
    ∃ s t, runActions (sessionStep plainDigest workerConfig) Session.new firstConnection = some s ∧
      runActions (sessionStep plainDigest workerConfig) s redelivery = some t ∧
      s.conn.received = [⟨greeting, .ran (greetingCommand.run true), false⟩] ∧
      greetingCommand.stdout = [104] ∧ t.conn.received.map Received.exec = [greeting] ∧
      t.conn.sent.map OutFrame.frame =
        [.hello ⟨"sbx", [], ["exec"], 1⟩, endFrame 7 0 false] := by
  have hrun : (runActions (sessionStep plainDigest workerConfig) Session.new
      firstConnection).any (fun s : Session (List UInt8) =>
        decide (s.conn.received = [⟨greeting, .ran (greetingCommand.run true), false⟩]) &&
        (runActions (sessionStep plainDigest workerConfig) s redelivery).any
          fun t : Session (List UInt8) =>
            decide (t.conn.received.map Received.exec = [greeting] ∧
              t.conn.sent.map OutFrame.frame =
                [.hello ⟨"sbx", [], ["exec"], 1⟩, endFrame 7 0 false])) = true := by
    decide +kernel
  rw [Option.any_eq_true] at hrun
  obtain ⟨s, hs, hboth⟩ := hrun
  obtain ⟨hfirst, hrest⟩ := (Bool.and_eq_true _ _).mp hboth
  rw [Option.any_eq_true] at hrest
  obtain ⟨t, ht, hlast⟩ := hrest
  obtain ⟨hsecond, hsent⟩ := of_decide_eq_true hlast
  exact ⟨s, t, hs, ht, of_decide_eq_true hfirst, rfl, hsecond, hsent⟩

end ServerlessHarness.RemoteWorker
