import ServerlessHarness.Model.GuestAgent.Protocol

/-!
# What the guest answers

The output of a command goes back in frames of its two streams, and one more frame says how the
command ended. `FrameWriter` is the guest's side: every stream is cut at the same number of bytes,
what is cut off is counted, and nothing is sent after the last frame. All of its functions run
under one mutex, so that a run of the two drains and of the request's own goroutine is a list of
calls.
-/

set_option autoImplicit false

namespace ServerlessHarness.GuestAgent

open Library

/-! ## Frames of an answer -/

/-- SRCLINE: protocol.go:40 -/
def kindStdout : UInt8 := 0x11

/-- SRCLINE: protocol.go:41 -/
def kindStderr : UInt8 := 0x12

/-- SRCLINE: protocol.go:42 -/
def kindEnd : UInt8 := 0x13

/-- SRCLINE: protocol.go:43 -/
def kindError : UInt8 := 0x14

inductive Stream where
  | stdout
  | stderr
deriving DecidableEq, Repr

def Stream.kind : Stream → UInt8
  | .stdout => kindStdout
  | .stderr => kindStderr

/-- Some bytes of one stream. -/
structure Output where
  stream : Stream
  bytes : List UInt8
deriving DecidableEq, Repr

/-- The bytes of one stream among those of both. -/
def streamBytes (s : Stream) (outputs : List Output) : List UInt8 :=
  (outputs.filter fun o => o.stream = s).flatMap Output.bytes

/-- SRCLINE: protocol.go:69-73 -/
structure End where
  exitCode : Int32
  droppedStdout : Int64
  droppedStderr : Int64
deriving DecidableEq, Repr

def End.json (e : End) : Json :=
  .obj [("exit_code", .num e.exitCode.toInt 0), ("dropped_stdout", .num e.droppedStdout.toInt 0),
    ("dropped_stderr", .num e.droppedStderr.toInt 0)]

/-- `json.Marshal`. -/
def End.marshal (e : End) : List UInt8 := utf8 (JsonText.text goEscaping e.json)

/-! ## The guest's side -/

/-- SRCLINE: agent.go:507-521 -/
structure FrameWriter where
  conn : Conn
  cap : Int64
  sentStdout : Int64
  sentStderr : Int64
  droppedStdout : Int64
  droppedStderr : Int64
  isSealed : Bool
deriving DecidableEq, Repr

/-- SRCLINE: agent.go:248 -/
def FrameWriter.new (conn : Conn) (cap : Int64) : FrameWriter := ⟨conn, cap, 0, 0, 0, 0, false⟩

def FrameWriter.sent (w : FrameWriter) : Stream → Int64
  | .stdout => w.sentStdout
  | .stderr => w.sentStderr

def FrameWriter.dropped (w : FrameWriter) : Stream → Int64
  | .stdout => w.droppedStdout
  | .stderr => w.droppedStderr

def FrameWriter.setCounts (w : FrameWriter) (sent dropped : Int64) : Stream → FrameWriter
  | .stdout => { w with sentStdout := sent, droppedStdout := dropped }
  | .stderr => { w with sentStderr := sent, droppedStderr := dropped }

/-- Once sealed, and once the stream has no room, bytes are counted and not written.
SRCLINE: agent.go:523-548 -/
def FrameWriter.emit (w : FrameWriter) (o : Output) : FrameWriter :=
  let length := Int64.ofNat o.bytes.length
  if w.isSealed then w.setCounts (w.sent o.stream) (w.dropped o.stream + length) o.stream
  else
    let room := w.cap - w.sent o.stream
    if room ≤ 0 then w.setCounts (w.sent o.stream) (w.dropped o.stream + length) o.stream
    else
      let dropped :=
        if room < length then w.dropped o.stream + (length - room) else w.dropped o.stream
      let bytes := if room < length then o.bytes.take room.toNatClampNeg else o.bytes
      { w.setCounts (w.sent o.stream + Int64.ofNat bytes.length) dropped o.stream with
        conn := (writeFrame w.conn o.stream.kind bytes).1 }

/-- SRCLINE: agent.go:553-558 -/
def FrameWriter.sealAndWriteFrame (w : FrameWriter) (kind : UInt8) (payload : List UInt8) :
    FrameWriter :=
  { w with isSealed := true, conn := (writeFrame w.conn kind payload).1 }

/-- SRCLINE: agent.go:564-570 -/
def FrameWriter.sealAndWriteEnd (w : FrameWriter) (e : End) : FrameWriter :=
  let e := { e with droppedStdout := w.droppedStdout, droppedStderr := w.droppedStderr }
  { w with isSealed := true, conn := (writeFrame w.conn kindEnd e.marshal).1 }

/-- How a command ended: its end, or the text of the error. -/
inductive Terminal where
  | ended (e : End)
  | failed (message : List UInt8)
deriving DecidableEq, Repr

/-- SRCLINE: agent.go:277-280 -/
def FrameWriter.finish (w : FrameWriter) : Terminal → FrameWriter
  | .ended e => w.sealAndWriteEnd e
  | .failed message => w.sealAndWriteFrame kindError message

end ServerlessHarness.GuestAgent
