import ServerlessHarness.Analysis.RemoteWorker.Answers

/-!
# The output of an exec that is not streaming

The pumps collect each stream up to the cap and report what they drop; at the exit what was
collected goes out in chunks, standard output first. So whatever the reads and their order, the
frames of the exec are those of the first bytes of each stream, and its end says whether standard
output was cut.
-/

set_option autoImplicit false

namespace ServerlessHarness.RemoteWorker

open Library Protocol

section

variable {Digest : Type} [DecidableEq Digest] (sha256 : List UInt8 → Digest) (cfg : Config)

/-- When nobody has an exec that was run and none of its frames was given up, its script was
queued. -/
theorem said_of_ran {s : Session Digest} (h : Reachable (sessionSystem sha256 cfg) s) {n : ℕ}
    {r : Received} {run : Run} (hr : s.conn.received[n]? = some r) (hfate : r.fate = .ran run)
    (hlost : r.lost = false) (hdone : ¬ s.conn.Pending n) :
    s.conn.said n = Running.script r.exec ⟨run.calls, run.result, 0⟩ := by
  obtain ⟨script, hscript, -, hwhole⟩ := ((books_of_reachable h).custody.free n r hr hdone).owes
  have heq := hwhole hlost
  rw [List.append_nil] at heq
  unfold Received.script at hscript
  rw [hfate] at hscript
  cases hscript
  exact heq

/-- INTERNAL: **each stream goes out up to the cap, standard output first, and the end says whether
it was cut**, for every split into reads and every order of the two pumps. `reads` are the reads of
both, up to the end of the pipes; the frames are what `runOne` queues, also in any run of the
session in which the exec is run so and no frame is given up.
SRCLINE: exec/runner.go:246-339, 401-430 -/
theorem buffered_output {e : Exec} (hstreaming : e.streaming = false) (code : Int)
    (reads : List (Bool × List UInt8)) :
    ∃ outs errs : List (List UInt8),
      outs.flatten = (readFromStdout reads).take bufferCap ∧
      errs.flatten = (readFromStderr reads).take bufferCap ∧
      (∀ data ∈ outs ++ errs, data ≠ [] ∧ data.length ≤ chunkSize) ∧
      Running.script e ⟨bashCalls e.streaming reads, .exited code, 0⟩ =
        (outs.map fun data => Frame.chunk ⟨e.reqId, data, .stdout⟩) ++
          ((errs.map fun data => Frame.chunk ⟨e.reqId, data, .stderr⟩) ++
            [endFrame e.reqId code (decide (bufferCap < (readFromStdout reads).length))]) ∧
      ∀ (s : Session Digest), Reachable (sessionSystem sha256 cfg) s →
        ∀ (n : ℕ) (r : Received) (run : Run),
        s.conn.received[n]? = some r → r.exec = e → r.fate = .ran run →
        run.calls = bashCalls e.streaming reads → run.result = .exited code → r.lost = false →
        ¬ s.conn.Pending n →
        s.conn.said n = (outs.map fun data => Frame.chunk ⟨e.reqId, data, .stdout⟩) ++
          ((errs.map fun data => Frame.chunk ⟨e.reqId, data, .stderr⟩) ++
            [endFrame e.reqId code (decide (bufferCap < (readFromStdout reads).length))]) := by
  obtain ⟨reports, outs, errs, hcalls, houts, herrs, hsizes, hquiet, hcut⟩ :=
    bashCalls_buffered reads
  rw [← hstreaming] at hcalls hcut
  have hscript : Running.script e ⟨bashCalls e.streaming reads, .exited code, 0⟩ =
      (outs.map fun data => Frame.chunk ⟨e.reqId, data, .stdout⟩) ++
        ((errs.map fun data => Frame.chunk ⟨e.reqId, data, .stderr⟩) ++
          [endFrame e.reqId code (decide (bufferCap < (readFromStdout reads).length))]) := by
    have hend : (conclude e (.exited code) (0 + cutBy (bashCalls e.streaming reads))).1 =
        endFrame e.reqId code (decide (bufferCap < (readFromStdout reads).length)) := by
      show endFrame e.reqId code (decide (0 < 0 + cutBy (bashCalls e.streaming reads))) = _
      congr 1
      rw [hcut, decide_eq_decide]
      omega
    show chunkFrames e.reqId (bashCalls e.streaming reads) ++ [_] = _
    rw [hend, hcalls, chunkFrames_append, chunkFrames_append, hquiet, List.nil_append,
      chunkFrames_map_chunk, chunkFrames_map_chunk, List.append_assoc]
  refine ⟨outs, errs, houts, herrs, hsizes, hscript, ?_⟩
  · intro s hs n r run hr hexec hfate hrunCalls hresult hlost hdone
    rw [said_of_ran sha256 cfg hs hr hfate hlost hdone, hexec, hrunCalls, hresult, hscript]

end

/-- Two reads of standard output with one of standard error between them. -/
theorem buffered_output_greeting :
    ∃ outs errs : List (List UInt8),
      outs.flatten = (readFromStdout [(false, [104]), (true, [33]), (false, [105])]).take
        bufferCap ∧
      errs.flatten = (readFromStderr [(false, [104]), (true, [33]), (false, [105])]).take
        bufferCap ∧
      Running.script { greeting with streaming := false }
          ⟨bashCalls false [(false, [104]), (true, [33]), (false, [105])], .exited 0, 0⟩ =
        (outs.map fun data => Frame.chunk ⟨7, data, .stdout⟩) ++
          ((errs.map fun data => Frame.chunk ⟨7, data, .stderr⟩) ++ [endFrame 7 0 false]) := by
  obtain ⟨outs, errs, houts, herrs, -, hscript, -⟩ :=
    buffered_output plainDigest workerConfig (e := { greeting with streaming := false }) rfl 0
      [(false, [104]), (true, [33]), (false, [105])]
  exact ⟨outs, errs, houts, herrs, hscript⟩

/-- INTERNAL: **the bash runner loses no output silently**: whatever the order of the reads of both
pipes, it passes on a first part of what it read from standard output, and reports the size of the
rest.
SRCLINE: exec/runner.go:292-299, 329-339, 401-430 -/
theorem stdoutOf_bashCalls (streaming : Bool) (reads : List (Bool × List UInt8)) :
    stdoutOf (bashCalls streaming reads) <+: readFromStdout reads ∧
      (stdoutOf (bashCalls streaming reads)).length + cutBy (bashCalls streaming reads) =
        (readFromStdout reads).length := by
  rw [stdoutOf_bash, cutBy_bash]
  cases streaming with
  | true => exact ⟨List.prefix_refl _, rfl⟩
  | false =>
    refine ⟨List.take_prefix _ _, ?_⟩
    simp only [Bool.false_eq_true, if_false, List.length_take]
    omega

end ServerlessHarness.RemoteWorker
