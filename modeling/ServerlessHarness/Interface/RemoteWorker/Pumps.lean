import ServerlessHarness.Interface.RemoteWorker.Holders

/-!
# The pumps of the bash runner

Each pump passes on what it reads, or collects it up to the cap and reports what it drops. Whatever
the reads and their order, the calls of the sink for an exec that is not streaming are reports,
then chunks of the first bytes of standard output, then chunks of the first bytes of standard error
(`bashCalls_buffered`).
-/

set_option autoImplicit false

namespace ServerlessHarness.RemoteWorker

open Protocol

/-- The standard output that a frame carries for a request. -/
def Frame.stdout (reqId : ℕ) : Frame → List UInt8
  | chunk c => if c.reqId = reqId ∧ c.stream ≠ .stderr then c.data else []
  | hello _ => []
  | heartbeat => []
  | exit _ => []
  | error _ => []

theorem stdout_chunkFrames (reqId : ℕ) (calls : List SinkCall) :
    (chunkFrames reqId calls).flatMap (Frame.stdout reqId) = stdoutOf calls := by
  induction calls with
  | nil => rfl
  | cons call calls ih =>
    have hcalls : stdoutOf (call :: calls) = call.stdout ++ stdoutOf calls := rfl
    rw [hcalls, ← ih]
    cases call with
    | dropped stream n => rfl
    | chunk stream data =>
      show Frame.stdout reqId (.chunk ⟨reqId, data, stream⟩) ++ _ = _
      congr 1
      show (if reqId = reqId ∧ stream ≠ .stderr then data else []) =
        if stream = .stderr then [] else data
      by_cases hstream : stream = .stderr
      · rw [if_pos hstream, if_neg]
        exact fun hboth => hboth.2 hstream
      · rw [if_neg hstream, if_pos ⟨rfl, hstream⟩]

/-- The bytes that were read from standard error. -/
def readFromStderr (reads : List (Bool × List UInt8)) : List UInt8 :=
  reads.flatMap fun r => if r.1 then r.2 else []

/-! ## One read -/

theorem cutBy_append (l m : List SinkCall) : cutBy (l ++ m) = cutBy l + cutBy m := by
  induction l with
  | nil => rw [List.nil_append, cutBy, Nat.zero_add]
  | cons call l ih => rw [List.cons_append, cutBy, cutBy, ih, Nat.add_assoc]

theorem drain_stderr (bufs : Buffers) (data : List UInt8) (reads : List (Bool × List UInt8)) :
    drain false bufs ((true, data) :: reads) =
      ((drain false { bufs with err := (bufferRead .stderr bufs.err data).1 } reads).1,
        (bufferRead .stderr bufs.err data).2 ++
          (drain false { bufs with err := (bufferRead .stderr bufs.err data).1 } reads).2) := rfl

theorem drain_stdout (bufs : Buffers) (data : List UInt8) (reads : List (Bool × List UInt8)) :
    drain false bufs ((false, data) :: reads) =
      ((drain false { bufs with out := (bufferRead .stdout bufs.out data).1 } reads).1,
        (bufferRead .stdout bufs.out data).2 ++
          (drain false { bufs with out := (bufferRead .stdout bufs.out data).1 } reads).2) := rfl

variable {buf : List UInt8}

theorem bufferRead_fst (stream : OutputStream) (data : List UInt8) (h : buf.length ≤ bufferCap) :
    (bufferRead stream buf data).1 = (buf ++ data).take bufferCap := by
  rw [List.take_append, List.take_of_length_le h]
  show buf ++ data.take (min data.length (bufferCap - buf.length)) = _
  rw [Nat.min_comm, ← List.take_eq_take_min]

theorem length_bufferRead (stream : OutputStream) (data : List UInt8) (h : buf.length ≤ bufferCap) :
    (bufferRead stream buf data).1.length ≤ bufferCap := by
  rw [bufferRead_fst stream data h, List.length_take]
  exact Nat.min_le_left _ _

theorem cutBy_bufferRead (data : List UInt8) (h : buf.length ≤ bufferCap) :
    cutBy (bufferRead .stdout buf data).2 = buf.length + data.length - bufferCap := by
  unfold bufferRead
  dsimp only
  split
  · show data.length - min data.length (bufferCap - buf.length) + 0 = _
    omega
  · show 0 = _
    omega

theorem cutBy_bufferRead_stderr (buf data : List UInt8) :
    cutBy (bufferRead .stderr buf data).2 = 0 := by
  unfold bufferRead
  dsimp only
  split
  · rfl
  · rfl

theorem chunkFrames_bufferRead (reqId : ℕ) (stream : OutputStream) (buf data : List UInt8) :
    chunkFrames reqId (bufferRead stream buf data).2 = [] := by
  unfold bufferRead
  dsimp only
  split
  · rfl
  · rfl

theorem chunkFrames_append (reqId : ℕ) (calls calls' : List SinkCall) :
    chunkFrames reqId (calls ++ calls') = chunkFrames reqId calls ++ chunkFrames reqId calls' :=
  List.filterMap_append

/-! ## Both pumps -/

theorem take_append_take {l m : List UInt8} (n : ℕ) : (l.take n ++ m).take n = (l ++ m).take n := by
  rw [List.take_append, List.take_append, List.take_take, Nat.min_self, List.length_take]
  congr 2
  omega

/-- What the pumps have when they are done: each buffer the first bytes of its stream, the dropped
bytes of standard output reported, and nothing passed on. -/
structure Drained (bufs : Buffers) (reads : List (Bool × List UInt8)) (reqId : ℕ)
    (result : Buffers × List SinkCall) : Prop where
  out_eq : result.1.out = (bufs.out ++ readFromStdout reads).take bufferCap
  err_eq : result.1.err = (bufs.err ++ readFromStderr reads).take bufferCap
  cut_eq : cutBy result.2 = bufs.out.length + (readFromStdout reads).length - bufferCap
  quiet : chunkFrames reqId result.2 = []

/-- INTERNAL: **the pumps, for every order of their reads.** -/
theorem drained (reqId : ℕ) (bufs : Buffers) (hout : bufs.out.length ≤ bufferCap)
    (herr : bufs.err.length ≤ bufferCap) (reads : List (Bool × List UInt8)) :
    Drained bufs reads reqId (drain false bufs reads) := by
  induction reads generalizing bufs with
  | nil =>
    refine ⟨?_, ?_, ?_, rfl⟩
    · show bufs.out = (bufs.out ++ []).take bufferCap
      rw [List.append_nil, List.take_of_length_le hout]
    · show bufs.err = (bufs.err ++ []).take bufferCap
      rw [List.append_nil, List.take_of_length_le herr]
    · show 0 = bufs.out.length + 0 - bufferCap
      omega
  | cons read reads ih =>
    obtain ⟨isErr, data⟩ := read
    cases isErr with
    | true =>
      have hrest := ih { bufs with err := (bufferRead .stderr bufs.err data).1 } hout
        (length_bufferRead .stderr data herr)
      have hstdout : readFromStdout ((true, data) :: reads) = readFromStdout reads := rfl
      have hstderr : readFromStderr ((true, data) :: reads) = data ++ readFromStderr reads := rfl
      rw [drain_stderr]
      refine ⟨?_, ?_, ?_, ?_⟩
      · rw [hstdout]
        exact hrest.out_eq
      · rw [hstderr, hrest.err_eq]
        show ((bufferRead .stderr bufs.err data).1 ++ _).take bufferCap = _
        rw [bufferRead_fst _ _ herr, take_append_take, List.append_assoc]
      · rw [cutBy_append, cutBy_bufferRead_stderr, Nat.zero_add, hstdout]
        exact hrest.cut_eq
      · rw [chunkFrames_append, chunkFrames_bufferRead, hrest.quiet, List.append_nil]
    | false =>
      have hrest := ih { bufs with out := (bufferRead .stdout bufs.out data).1 }
        (length_bufferRead .stdout data hout) herr
      have hstdout : readFromStdout ((false, data) :: reads) = data ++ readFromStdout reads := rfl
      have hstderr : readFromStderr ((false, data) :: reads) = readFromStderr reads := rfl
      rw [drain_stdout]
      refine ⟨?_, ?_, ?_, ?_⟩
      · rw [hstdout, hrest.out_eq]
        show ((bufferRead .stdout bufs.out data).1 ++ _).take bufferCap = _
        rw [bufferRead_fst _ _ hout, take_append_take, List.append_assoc]
      · rw [hstderr]
        exact hrest.err_eq
      · rw [cutBy_append, cutBy_bufferRead data hout, hrest.cut_eq, hstdout, List.length_append]
        show _ + ((bufferRead .stdout bufs.out data).1.length + _ - bufferCap) = _
        rw [bufferRead_fst _ _ hout, List.length_take, List.length_append]
        omega
      · rw [chunkFrames_append, chunkFrames_bufferRead, hrest.quiet, List.append_nil]

/-! ## What goes out at the exit -/

theorem emitBuffered_pieces (stream : OutputStream) (data : List UInt8) :
    ∃ pieces : List (List UInt8), emitBuffered stream data = pieces.map (SinkCall.chunk stream) ∧
      pieces.flatten = data ∧ ∀ piece ∈ pieces, piece ≠ [] ∧ piece.length ≤ chunkSize := by
  induction data using emitBuffered.induct with
  | case1 =>
    refine ⟨[], ?_, rfl, ?_⟩
    · rw [emitBuffered]
      rfl
    · intro piece hpiece
      cases hpiece
  | case2 b data ih =>
    obtain ⟨pieces, hcalls, hflatten, hsizes⟩ := ih
    refine ⟨(b :: data).take chunkSize :: pieces, ?_, ?_, ?_⟩
    · rw [emitBuffered, hcalls]
      rfl
    · rw [List.flatten_cons, hflatten, List.take_append_drop]
    · intro piece hpiece
      rcases List.mem_cons.mp hpiece with rfl | hpiece
      · refine ⟨List.cons_ne_nil _ _, ?_⟩
        rw [List.length_take]
        exact Nat.min_le_left _ _
      · exact hsizes piece hpiece

theorem chunkFrames_map_chunk (reqId : ℕ) (stream : OutputStream) (pieces : List (List UInt8)) :
    chunkFrames reqId (pieces.map (SinkCall.chunk stream)) =
      pieces.map fun data => Frame.chunk ⟨reqId, data, stream⟩ := by
  rw [chunkFrames, List.filterMap_map, ← List.filterMap_eq_map]
  rfl

theorem cutBy_map_chunk (stream : OutputStream) (pieces : List (List UInt8)) :
    cutBy (pieces.map (SinkCall.chunk stream)) = 0 := by
  induction pieces with
  | nil => rfl
  | cons piece pieces ih =>
    rw [List.map_cons, cutBy, ih]
    rfl

/-- INTERNAL: **the calls for an exec that is not streaming**: reports, and the chunks of both
streams. -/
theorem bashCalls_buffered (reads : List (Bool × List UInt8)) :
    ∃ (reports : List SinkCall) (outs errs : List (List UInt8)),
      bashCalls false reads =
        reports ++ outs.map (SinkCall.chunk .stdout) ++ errs.map (SinkCall.chunk .stderr) ∧
      outs.flatten = (readFromStdout reads).take bufferCap ∧
      errs.flatten = (readFromStderr reads).take bufferCap ∧
      (∀ data ∈ outs ++ errs, data ≠ [] ∧ data.length ≤ chunkSize) ∧
      (∀ reqId, chunkFrames reqId reports = []) ∧
      cutBy (bashCalls false reads) = (readFromStdout reads).length - bufferCap := by
  have hdrained := fun reqId => drained reqId ⟨[], []⟩ (Nat.zero_le _) (Nat.zero_le _) reads
  obtain ⟨outs, houts, houtBytes, houtSizes⟩ :=
    emitBuffered_pieces .stdout (drain false ⟨[], []⟩ reads).1.out
  obtain ⟨errs, herrs, herrBytes, herrSizes⟩ :=
    emitBuffered_pieces .stderr (drain false ⟨[], []⟩ reads).1.err
  have hcalls : bashCalls false reads = (drain false ⟨[], []⟩ reads).2 ++
      outs.map (SinkCall.chunk .stdout) ++ errs.map (SinkCall.chunk .stderr) := by
    rw [← houts, ← herrs]
    rfl
  refine ⟨_, outs, errs, hcalls, ?_, ?_, ?_, fun reqId => (hdrained reqId).quiet, ?_⟩
  · rw [houtBytes, (hdrained 0).out_eq]
    rfl
  · rw [herrBytes, (hdrained 0).err_eq]
    rfl
  · exact List.forall_mem_append.mpr ⟨houtSizes, herrSizes⟩
  · rw [hcalls, cutBy_append, cutBy_append, cutBy_map_chunk, cutBy_map_chunk, (hdrained 0).cut_eq]
    show 0 + _ - _ + 0 + 0 = _
    omega

/-! ## Standard output -/

theorem stdoutOf_append (l m : List SinkCall) : stdoutOf (l ++ m) = stdoutOf l ++ stdoutOf m :=
  List.flatMap_append

theorem stdoutOf_map_chunk (stream : OutputStream) (pieces : List (List UInt8)) :
    stdoutOf (pieces.map (SinkCall.chunk stream)) = if stream = .stderr then
      [] else pieces.flatten := by
  induction pieces with
  | nil => exact (ite_self _).symm
  | cons piece pieces ih =>
    show (if stream = .stderr then [] else piece) ++
      stdoutOf (pieces.map (SinkCall.chunk stream)) = _
    rw [ih]
    split
    · rfl
    · rfl

theorem stdoutOf_drain_streaming (bufs : Buffers) (reads : List (Bool × List UInt8)) :
    stdoutOf (drain true bufs reads).2 = readFromStdout reads := by
  induction reads with
  | nil => rfl
  | cons r reads ih =>
    obtain ⟨isErr, data⟩ := r
    show SinkCall.stdout (.chunk (if isErr then .stderr else .stdout) data) ++
      stdoutOf (drain true bufs reads).2 = (if isErr then [] else data) ++ readFromStdout reads
    rw [ih]
    cases isErr <;> rfl

theorem cutBy_drain_streaming (bufs : Buffers) (reads : List (Bool × List UInt8)) :
    cutBy (drain true bufs reads).2 = 0 := by
  induction reads with
  | nil => rfl
  | cons r reads ih => exact (Nat.zero_add _).trans ih

/-- INTERNAL: **the bytes of standard output that are passed on**: all of them, or those up to the
cap. -/
theorem stdoutOf_bash (streaming : Bool) (reads : List (Bool × List UInt8)) :
    stdoutOf (bashCalls streaming reads) =
      if streaming then readFromStdout reads else (readFromStdout reads).take bufferCap := by
  cases streaming with
  | true => exact stdoutOf_drain_streaming ⟨[], []⟩ reads
  | false =>
    obtain ⟨reports, outs, errs, hcalls, houts, -, -, hquiet, -⟩ := bashCalls_buffered reads
    rw [hcalls, stdoutOf_append, stdoutOf_append, stdoutOf_map_chunk, stdoutOf_map_chunk,
      ← stdout_chunkFrames 0 reports, hquiet]
    simpa using houts

/-- INTERNAL: **the bytes of standard output that are reported as dropped**. -/
theorem cutBy_bash (streaming : Bool) (reads : List (Bool × List UInt8)) :
    cutBy (bashCalls streaming reads) =
      if streaming then 0 else (readFromStdout reads).length - bufferCap := by
  cases streaming with
  | true => exact cutBy_drain_streaming ⟨[], []⟩ reads
  | false =>
    obtain ⟨-, -, -, -, -, -, -, -, hcut⟩ := bashCalls_buffered reads
    rw [hcut, if_neg Bool.false_ne_true]

/-- What was read is passed on, unless some was dropped. -/
theorem stdoutOf_bash_of_cut {streaming : Bool} {reads : List (Bool × List UInt8)}
    (h : cutBy (bashCalls streaming reads) = 0) :
    stdoutOf (bashCalls streaming reads) = readFromStdout reads := by
  rw [cutBy_bash] at h
  rw [stdoutOf_bash]
  cases streaming with
  | true => rfl
  | false =>
    rw [if_neg Bool.false_ne_true] at h ⊢
    exact List.take_of_length_le (Nat.le_of_sub_eq_zero h)

end ServerlessHarness.RemoteWorker
