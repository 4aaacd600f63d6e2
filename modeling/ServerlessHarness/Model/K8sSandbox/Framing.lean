import ServerlessHarness.Library.Base64
import ServerlessHarness.Library.Number
import ServerlessHarness.Library.Scan
import ServerlessHarness.Library.Trim

/-!
# The wire protocol of the persistent channel

One shell reads commands from its standard input and writes the output of each between two markers,
in base64. `FrameParser` collects what arrives and takes complete frames from it; the text that it
scans is the buffer read as latin1, one character for each byte.
-/

set_option autoImplicit false

namespace ServerlessHarness.K8sSandbox

open Library

/-- SRCLINE: framing.ts:23-27 -/
structure Frame where
  nonce : List UInt8
  stdout : List UInt8
  exitCode : Number
deriving DecidableEq

/-! ## Characters -/

/-- `\s` on a latin1 text. -/
def isSpace (b : UInt8) : Bool := isWhiteSpace b.toNat

/-- `\d`. -/
def isDigit (b : UInt8) : Bool := decide (48 ≤ b.toNat ∧ b.toNat ≤ 57)

/-- The value of digits. -/
def parseDigits (digits : List UInt8) : ℕ :=
  digits.foldl (fun n b => 10 * n + (b.toNat - 48)) 0

/-- A number in decimal. -/
def decimal (n : ℕ) : List UInt8 := (Nat.toDigits 10 n).map fun c => UInt8.ofNat c.toNat

def decimalInt (n : Int) : List UInt8 := if n < 0 then 45 :: decimal n.natAbs else decimal n.natAbs

/-! ## The parser -/

/-- The expression for the begin marker: the nonce, and what follows.
SRCLINE: framing.ts:103 -/
def matchBegin (text : List UInt8) : Option (List UInt8 × List UInt8) :=
  (strip [1, 66] text).bind fun rest =>
    if rest.takeWhile (fun b => !isSpace b) = [] then none
    else (strip [10] (rest.dropWhile fun b => !isSpace b)).map fun after =>
      (rest.takeWhile (fun b => !isSpace b), after)

/-- A number with an optional sign, and a newline after it. -/
def matchCode (text : List UInt8) : Option (ℕ × List UInt8) :=
  if text.takeWhile isDigit = [] then none
  else (strip [10] (text.dropWhile isDigit)).map fun after =>
    (parseDigits (text.takeWhile isDigit), after)

/-- The expression for the end marker: the exit code, and what follows.
SRCLINE: framing.ts:107 -/
def matchEnd (nonce text : List UInt8) : Option (Int × List UInt8) :=
  (strip ([1, 69] ++ nonce ++ [32]) text).bind fun rest =>
    match strip [45] rest with
    | some digits => (matchCode digits).map fun r => (-(r.1 : Int), r.2)
    | none => (matchCode rest).map fun r => ((r.1 : Int), r.2)

/-- The bytes that a body is the base64 of.
SRCLINE: framing.ts:114 -/
def decodeBody (body : List UInt8) : List UInt8 := unbase64 (body.filter fun b => !isSpace b)

/-- One turn of the loop in `push`: the first frame, if it is complete, and what follows it.
`parseInt` makes a number of the exit code.
SRCLINE: framing.ts:101-117 -/
def parseFrame (text : List UInt8) : Option (Frame × List UInt8) :=
  (firstMatch matchBegin text).bind fun begin =>
    (firstMatch (matchEnd begin.2.1) begin.2.2).map fun found =>
      (⟨begin.2.1, decodeBody found.1, .ofInt found.2.1⟩, found.2.2)

/-- The loop; a turn takes at least one byte.
SRCLINE: framing.ts:100-118 -/
def parseFrames : ℕ → List UInt8 → List Frame × List UInt8
  | 0, text => ([], text)
  | fuel + 1, text =>
    match parseFrame text with
    | none => ([], text)
    | some (frame, rest) =>
      let (frames, left) := parseFrames fuel rest
      (frame :: frames, left)

/-- The frames that are complete now, and the buffer.
SRCLINE: framing.ts:97-120 -/
def push (buf chunk : List UInt8) : List Frame × List UInt8 :=
  parseFrames (buf ++ chunk).length (buf ++ chunk)

/-! ## What the shell writes -/

/-- The line that the begin marker is. -/
def beginLine (nonce : List UInt8) : List UInt8 := [1, 66] ++ nonce ++ [10]

/-- The line that the end marker is. -/
def endLine (nonce : List UInt8) (code : Int) : List UInt8 :=
  [1, 69] ++ nonce ++ [32] ++ decimalInt code ++ [10]

/-- What the shell writes for a wrapped command, `body` being what `base64` wrote. -/
def frameText (nonce body : List UInt8) (code : Int) : List UInt8 :=
  beginLine nonce ++ (body ++ endLine nonce code)

end ServerlessHarness.K8sSandbox
