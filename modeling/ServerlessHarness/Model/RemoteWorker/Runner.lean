import ServerlessHarness.Model.Protocol

/-!
# Running one command

What a `Runner` does with its `Sink`: a sequence of calls, and a result (`Run`). The bash runner
reads the two pipes of its child until their end, or until the drain watchdog closes them; output
is passed on as it is read, or, for an exec that is not streaming, collected up to a cap and passed
on at the exit (`BashRun.run`). The sink of a session takes every call.
-/

set_option autoImplicit false

namespace ServerlessHarness.RemoteWorker

open Protocol

/-- SRCLINE: exec/runner.go:133-136 -/
inductive SinkCall where
  | chunk (stream : OutputStream) (data : List UInt8)
  | dropped (stream : OutputStream) (n : ℕ)
deriving DecidableEq, Repr

/-- The output that a call passes on, `STREAM_UNSPECIFIED` being standard output. -/
def SinkCall.stdout : SinkCall → List UInt8
  | chunk stream data => if stream = .stderr then [] else data
  | dropped _ _ => []

/-- SRCLINE: loop.go:669-676 -/
def SinkCall.cut : SinkCall → ℕ
  | chunk _ _ => 0
  | dropped stream n => if stream = .stderr then 0 else n

/-- The bytes of standard output that the calls report as dropped. -/
def cutBy : List SinkCall → ℕ
  | [] => 0
  | call :: calls => call.cut + cutBy calls

def stdoutOf (calls : List SinkCall) : List UInt8 := calls.flatMap SinkCall.stdout

/-- What `Run` returns: a status without an error, or one of the errors. -/
inductive RunResult where
  | exited (code : Int)
  | timeout
  | aborted
  | failed (message : String)
deriving DecidableEq, Repr

/-- One call of `Run`, by any runner: the calls of the sink, and the result. -/
structure Run where
  calls : List SinkCall
  result : RunResult
deriving DecidableEq

/-! ## The bash runner -/

/-- SRCLINE: exec/runner.go:24 -/
def chunkSize : ℕ := 32 * 1024

/-- SRCLINE: exec/runner.go:49 -/
def bufferCap : ℕ := 8 * 1024 * 1024

/-- What the pumps have collected. -/
structure Buffers where
  out : List UInt8
  err : List UInt8

/-- One read of `n > 0` bytes from one of the pipes, for an exec that is not streaming: the buffer
afterwards and the calls.
SRCLINE: exec/runner.go:406-424 -/
def bufferRead (stream : OutputStream) (buf data : List UInt8) : List UInt8 × List SinkCall :=
  let kept := min data.length (bufferCap - buf.length)
  (buf ++ data.take kept,
    if kept < data.length then [.dropped stream (data.length - kept)] else [])

/-- The reads of both pumps, in the order in which their calls of the sink are serialized: `true` is
standard error.
SRCLINE: exec/runner.go:401-430 -/
def drain (streaming : Bool) : Buffers → List (Bool × List UInt8) → Buffers × List SinkCall
  | bufs, [] => (bufs, [])
  | bufs, (isErr, data) :: reads =>
    let stream : OutputStream := if isErr then .stderr else .stdout
    if streaming then
      let (bufs', calls) := drain streaming bufs reads
      (bufs', .chunk stream data :: calls)
    else
      let (buf, now) := bufferRead stream (if isErr then bufs.err else bufs.out) data
      let (bufs', calls) :=
        drain streaming (if isErr then { bufs with err := buf } else { bufs with out := buf }) reads
      (bufs', now ++ calls)

/-- SRCLINE: exec/runner.go:329-339 -/
def emitBuffered (stream : OutputStream) : List UInt8 → List SinkCall
  | [] => []
  | b :: data =>
    .chunk stream ((b :: data).take chunkSize) :: emitBuffered stream ((b :: data).drop chunkSize)
termination_by data => data.length
decreasing_by
  rw [List.length_drop, List.length_cons, chunkSize]
  omega

/-- SRCLINE: exec/runner.go:292-299 -/
def bashCalls (streaming : Bool) (reads : List (Bool × List UInt8)) : List SinkCall :=
  let (bufs, calls) := drain streaming ⟨[], []⟩ reads
  if streaming then calls
  else calls ++ emitBuffered .stdout bufs.out ++ emitBuffered .stderr bufs.err

/-- The bytes that were read from standard output. -/
def readFromStdout (reads : List (Bool × List UInt8)) : List UInt8 :=
  reads.flatMap fun r => if r.1 then [] else r.2

/-- A command under the bash runner: what it wrote to its standard output, the reads of both pumps,
and the result. -/
structure BashRun where
  stdout : List UInt8
  reads : List (Bool × List UInt8)
  result : RunResult

/-- SRCLINE: exec/runner.go:169-323 -/
def BashRun.run (b : BashRun) (streaming : Bool) : Run := ⟨bashCalls streaming b.reads, b.result⟩

/-- The drain watchdog did not cut standard output off. -/
def BashRun.ReadToEnd (b : BashRun) : Prop := readFromStdout b.reads = b.stdout

end ServerlessHarness.RemoteWorker
