import ServerlessHarness.Library.Blocks
import ServerlessHarness.Library.Trim

/-!
# The stream of a turn

The server writes each frame of a turn as an event of a server-sent event stream, and comments in
between to keep the connection alive. The client gets the bytes in chunks, decodes them as they
come and takes complete events from a buffer.
-/

set_option autoImplicit false

namespace ServerlessHarness.Mocactl

open Library

/-- SRCLINE: sse-parser.ts:3-6 -/
structure SseEvent where
  event : Units
  data : Units
deriving DecidableEq

/-! ## The parser -/

/-- One line of a block, after the name of the event and the data so far.
SRCLINE: sse-parser.ts:43-49 -/
def parseLine (acc : Units × List Units) (line : Units) : Units × List Units :=
  if line = [] ∨ line.head? = some 58 then acc
  else
    let field := line.takeWhile (· ≠ 58)
    let afterColon := (line.dropWhile (· ≠ 58)).tail
    let value := if afterColon.head? = some 32 then afterColon.tail else afterColon
    if field = units "event" then (value, acc.2)
    else if field = units "data" then (acc.1, acc.2 ++ [value])
    else acc

/-- SRCLINE: sse-parser.ts:39-52 -/
def parseBlock (block : Units) : Option SseEvent :=
  let r := (block.splitOn 10).foldl parseLine (units "message", [])
  if r.2 = [] then none else some ⟨r.1, [10].intercalate r.2⟩

/-- SRCLINE: sse-parser.ts:8-10 -/
structure SseParser where
  buf : Units
  pendingCr : Bool
deriving DecidableEq

def SseParser.start : SseParser := ⟨[], false⟩

/-- SRCLINE: sse-parser.ts:12-28 -/
def SseParser.push (p : SseParser) (chunk : Units) : List SseEvent × SseParser :=
  let s := if p.pendingCr then 13 :: chunk else chunk
  let pendingCr := s.getLast? == some 13
  let s := if pendingCr then s.dropLast else s
  let r := blocks (p.buf ++ normalize s)
  (r.1.filterMap parseBlock, ⟨r.2, pendingCr⟩)

/-- SRCLINE: sse-parser.ts:30-36 -/
def SseParser.flush (p : SseParser) : List SseEvent :=
  let rest := p.buf ++ (if p.pendingCr then [10] else [])
  if rest.any (fun u => !isWhiteSpace u.toNat) then (parseBlock rest).toList else []

/-- All chunks of a text, and the final flush. -/
def SseParser.read (p : SseParser) : List Units → List SseEvent
  | [] => p.flush
  | chunk :: chunks => (p.push chunk).1 ++ (p.push chunk).2.read chunks

/-! ## The stream -/

/-- What decoding bytes as they arrive does: what comes out for chunks of bytes, and at their end.
A byte order mark at the beginning is not handed out. -/
structure StreamDecoder where
  State : Type
  start : State
  decode : State → List UInt8 → Units × State
  finish : State → Units

/-- SRCLINE: sse-parser.ts:57-60 -/
def StreamDecoder.chunks (d : StreamDecoder) : d.State → List (List UInt8) → List Units
  | s, [] => [d.finish s]
  | s, bytes :: body => (d.decode s bytes).1 :: d.chunks (d.decode s bytes).2 body

/-- What is decoded is the text, however its bytes are cut. -/
def StreamDecoder.Correct (d : StreamDecoder) : Prop :=
  ∀ (cs : List Char) (body : List (List UInt8)), cs.head? ≠ some '\ufeff' → body.flatten = utf8 cs →
    (d.chunks d.start body).flatten = ofChars cs

/-- SRCLINE: sse-parser.ts:54-62 -/
def readSse (d : StreamDecoder) (body : List (List UInt8)) : List SseEvent :=
  SseParser.start.read (d.chunks d.start body)

/-! ## Frames -/

/-- SRCLINE: frames.ts:39-46 -/
def knownFrameTypes : List String :=
  ["text", "thinking", "tool_use", "tool_result", "done", "error"]

/-- JSON: values, their `type` if it is a string, and their text. -/
structure JsonCodec where
  Value : Type
  typeOf : Value → Option Units
  stringify : Value → List Char
  parse : Units → Option Value

/-- A value reads back from its text, which is one line. -/
structure JsonCodec.Correct (json : JsonCodec) : Prop where
  parse_stringify : ∀ v, json.parse (ofChars (json.stringify v)) = some v
  oneLine : ∀ v, '\n' ∉ json.stringify v ∧ '\r' ∉ json.stringify v

/-- A frame that the server writes: its type is one of the six. -/
structure TurnStreamFrame (json : JsonCodec) where
  value : json.Value
  type : String
  known : type ∈ knownFrameTypes
  type_eq : json.typeOf value = some (units type)

/-- SRCLINE: frames.ts:28-37 -/
inductive TurnFrame (json : JsonCodec) where
  | known (value : json.Value)
  | unknownText (event data : Units)
  | unknown (event : Units) (data : json.Value)

/-- SRCLINE: sse-parser.ts:66-76 -/
def toFrame (json : JsonCodec) (e : SseEvent) : TurnFrame json :=
  match json.parse e.data with
  | none => .unknownText e.event e.data
  | some data =>
    if e.event ∈ knownFrameTypes.map units ∧ json.typeOf data = some e.event then .known data
    else .unknown e.event data

/-- What the server writes. -/
inductive Written (json : JsonCodec) where
  | frame (f : TurnStreamFrame json)
  | keepalive

def eventField : List Char := "event: ".toList

def dataField : List Char := "\ndata: ".toList

def blankLine : List Char := "\n\n".toList

/-- SRCLINE: knative-server/server.ts:269, 274 -/
def Written.text {json : JsonCodec} : Written json → List Char
  | frame f => eventField ++ f.type.toList ++ dataField ++ json.stringify f.value ++ blankLine
  | keepalive => ": keepalive\n\n".toList

end ServerlessHarness.Mocactl
