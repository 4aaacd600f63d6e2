import ServerlessHarness.Library.Utf16

/-!
# Transcripts

The terminal client keeps what was said in a session in a file of its own, one record a line, that
it only appends to. The first record is a header that names the owner. A process may die in the
middle of an append, so that the file ends with a part of a line; the first append of the next
process starts a new one.

The file of one session is modelled, with what a process remembers of it, and a call that is made
is a list of records to append. The time of a record is left out, since nothing reads it.
-/

set_option autoImplicit false

namespace ServerlessHarness.Mocactl

open Library

/-! ## Records -/

/-- SRCLINE: transcripts.ts:18-21 -/
structure TranscriptOwner where
  subject : Units
  controlPlaneUrl : Units
deriving DecidableEq

structure Usage where
  input : ℕ
  output : ℕ
  cacheRead : ℕ
  cacheWrite : ℕ
  total : ℕ

inductive DeltaType where
  | text
  | thinking
deriving DecidableEq

/-- A frame: a piece of text, or another frame as its JSON, of which it is read whether it ends the
turn and what was used. -/
inductive Frame where
  | delta (type : DeltaType) (delta : Units)
  | other (terminal : Bool) (usage : Option Usage) (json : Units)

inductive TitleSource where
  | auto
  | user

/-- SRCLINE: transcripts.ts:40-44 -/
inductive Rec where
  | header (createdAt : ℕ) (owner : TranscriptOwner)
  | prompt (text : Units)
  | frame (frame : Frame)
  | title (title : Units) (source : TitleSource)

/-- The JSON of records as bytes: one line, not empty, that reads back; what is left of it after
its end is lost does not parse. -/
structure RecCodec where
  encode : Rec → List UInt8
  parse : List UInt8 → Option Rec
  parse_encode : ∀ r, parse (encode r) = some r
  oneLine : ∀ r, (10 : UInt8) ∉ encode r
  encode_ne_nil : ∀ r, encode r ≠ []
  parse_torn : ∀ r p, p <+: encode r → p ≠ encode r → parse p = none

/-- What a process is started with. -/
structure TranscriptConfig where
  codec : RecCodec
  owner : TranscriptOwner
  deriveTitle : Units → Units

/-! ## Reading -/

inductive TranscriptEntry where
  | prompt (text : Units)
  | frame (frame : Frame)

/-- SRCLINE: transcripts.ts:30-38 -/
structure Transcript where
  createdAt : ℕ
  title : Option (Units × TitleSource)
  entries : List TranscriptEntry
  prompts : List Units
  usage : Usage
  turns : ℕ

def Transcript.empty : Transcript := ⟨0, none, [], [], ⟨0, 0, 0, 0, 0⟩, 0⟩

def Usage.add (u v : Usage) : Usage :=
  ⟨u.input + v.input, u.output + v.output, u.cacheRead + v.cacheRead, u.cacheWrite + v.cacheWrite,
    u.total + v.total⟩

/-- SRCLINE: transcripts.ts:221-248 -/
def Transcript.add (t : Transcript) : Rec → Transcript
  | .header createdAt _ => { t with createdAt }
  | .title title source => { t with title := some (title, source) }
  | .prompt text =>
    { t with entries := t.entries ++ [.prompt text], prompts := t.prompts ++ [text] }
  | .frame (.other true usage json) =>
    { t with
      entries := t.entries ++ [.frame (.other true usage json)]
      turns := t.turns + 1
      usage := (usage.map t.usage.add).getD t.usage }
  | .frame f => { t with entries := t.entries ++ [.frame f] }

def transcriptOf (recs : List Rec) : Transcript := recs.foldl Transcript.add .empty

def Rec.headerOwner : Rec → Option TranscriptOwner
  | .header _ owner => some owner
  | _ => none

namespace TranscriptConfig

variable (cfg : TranscriptConfig)

/-- The records of a file; a line that does not parse is passed over. No byte of a longer character
is a newline, so that lines are the same before and after decoding.
SRCLINE: transcripts.ts:213-220 -/
def readRecs (bytes : List UInt8) : List Rec := (bytes.splitOn 10).filterMap cfg.codec.parse

/-- SRCLINE: transcripts.ts:202-257 -/
def load (file : Option (List UInt8)) : Option Transcript :=
  file.bind fun bytes =>
    if ((cfg.readRecs bytes).filterMap Rec.headerOwner).getLast? = some cfg.owner then
      some (transcriptOf (cfg.readRecs bytes))
    else none

/-! ## Writing -/

end TranscriptConfig

/-- The file of the session, and what the process remembers of it. -/
structure Store where
  file : Option (List UInt8)
  pending : Option (DeltaType × Units)
  titled : Bool
  ownership : Option Bool
  tailChecked : Bool

/-- A new process. -/
def Store.fresh (file : Option (List UInt8)) : Store := ⟨file, none, false, none, false⟩

/-- SRCLINE: transcripts.ts:67-83 -/
def endsTorn (file : Option (List UInt8)) : Bool :=
  match (file.getD []).getLast? with
  | none => false
  | some last => last ≠ 10

namespace TranscriptConfig

variable (cfg : TranscriptConfig)

/-- SRCLINE: transcripts.ts:102-127 -/
def ownsFile (s : Store) : Bool :=
  match s.ownership with
  | some cached => cached
  | none =>
    match s.file with
    | none => true
    | some bytes => ((cfg.readRecs bytes).filterMap Rec.headerOwner).head? == some cfg.owner

/-- What one append adds.
SRCLINE: transcripts.ts:135-137 -/
def chunk (s : Store) (r : Rec) : List UInt8 :=
  (if !s.tailChecked && endsTorn s.file then [10] else []) ++ (cfg.codec.encode r ++ [10])

/-- An append of which `n` bytes reach the file. -/
def writePart (s : Store) (r : Rec) (n : ℕ) : List UInt8 := s.file.getD [] ++ (cfg.chunk s r).take n

/-- SRCLINE: transcripts.ts:129-138 -/
def write (s : Store) (r : Rec) : Store :=
  { s with file := some (s.file.getD [] ++ cfg.chunk s r), tailChecked := true }

def writeAll (s : Store) (recs : List Rec) : Store := recs.foldl cfg.write s

/-- SRCLINE: transcripts.ts:144-147 -/
def ensure (s : Store) (createdAt : ℕ) : List Rec :=
  if s.file.isNone then [.header createdAt cfg.owner] else []

/-- SRCLINE: transcripts.ts:149-155 -/
def flush (s : Store) : List Rec :=
  match s.pending with
  | some (type, delta) => [.frame (.delta type delta)]
  | none => []

/-- SRCLINE: transcripts.ts:157-168 -/
def appendPrompt (s : Store) (now : ℕ) (text : Units) : List Rec :=
  let before := cfg.ensure s now ++ flush s
  let title :=
    if s.titled then []
    else if ((cfg.load (cfg.writeAll s before).file).bind Transcript.title).isNone then
      [.title (cfg.deriveTitle text) .auto]
    else []
  before ++ title ++ [.prompt text]

/-- What is written, and what is pending afterwards.
SRCLINE: transcripts.ts:170-185 -/
def appendFrame (s : Store) (now : ℕ) : Frame → List Rec × Option (DeltaType × Units)
  | .delta type delta =>
    match s.pending with
    | some (type', before) =>
      if type' = type then (cfg.ensure s now, some (type, before ++ delta))
      else (cfg.ensure s now ++ flush s, some (type, delta))
    | none => (cfg.ensure s now, some (type, delta))
  | f => (cfg.ensure s now ++ flush s ++ [.frame f], none)

/-- A call; `now` is what the clock shows. -/
inductive Call where
  | ensure (createdAt : ℕ)
  | flush
  | appendPrompt (now : ℕ) (text : Units)
  | appendFrame (now : ℕ) (frame : Frame)
  | rename (now : ℕ) (title : Units)

/-- The records that a call appends, if the process owns the file. -/
def records (s : Store) : Call → List Rec
  | .ensure createdAt => cfg.ensure s createdAt
  | .flush => TranscriptConfig.flush s
  | .appendPrompt now text => cfg.appendPrompt s now text
  | .appendFrame now frame => (cfg.appendFrame s now frame).1
  | .rename now title => cfg.ensure s now ++ [.title title .user]

/-- What the process remembers after a call. -/
def remember (s : Store) : Call → Store
  | .ensure _ => s
  | .flush => { s with pending := none }
  | .appendPrompt _ _ => { s with pending := none, titled := true }
  | .appendFrame now frame => { s with pending := (cfg.appendFrame s now frame).2 }
  | .rename _ _ => { s with titled := true }

/-! ## Processes that die -/

/-- What happens: a call; a call during which the process dies, when `n` of its records are
appended and `k` bytes of the next one; the end of a process between two calls. -/
inductive Act where
  | call (call : Call)
  | crash (call : Call) (n k : ℕ)
  | restart

/-- The store, the records that can be read from the file with whether their append completed, and
the calls that were passed over. -/
structure World where
  store : Store
  records : List (Rec × Bool)
  dropped : List Call

def World.start : World := ⟨.fresh none, [], []⟩

/-- The owner's call goes through. -/
def complete (w : World) (c : Call) : World :=
  let s := cfg.writeAll w.store (cfg.records w.store c)
  { w with
    store := { cfg.remember w.store c with
      file := s.file, tailChecked := s.tailChecked, ownership := some true }
    records := w.records ++ (cfg.records w.store c).map fun r => (r, true) }

/-- The process dies; a record that lacks only its newline can be read all the same. -/
def tear (w : World) (c : Call) (n k : ℕ) : World :=
  let s := cfg.writeAll w.store ((cfg.records w.store c).take n)
  let done := ((cfg.records w.store c).take n).map fun r => (r, true)
  match (cfg.records w.store c)[n]? with
  | none => { w with store := .fresh s.file, records := w.records ++ done }
  | some r =>
    let readable := if (cfg.chunk s r).length ≤ k + 1 then
      [(r, decide ((cfg.chunk s r).length ≤ k))] else []
    { w with store := .fresh (some (cfg.writePart s r k)), records :=
      w.records ++ done ++ readable }

def step (w : World) : Act → World
  | .call c =>
    if cfg.ownsFile w.store then cfg.complete w c
    else { w with store := { w.store with ownership := some false }, dropped := w.dropped ++ [c] }
  | .crash c n k =>
    if cfg.ownsFile w.store then cfg.tear w c n k
    else { w with store := .fresh w.store.file, dropped := w.dropped ++ [c] }
  | .restart => { w with store := .fresh w.store.file }

def run (acts : List Act) : World := acts.foldl cfg.step .start

end TranscriptConfig

end ServerlessHarness.Mocactl
