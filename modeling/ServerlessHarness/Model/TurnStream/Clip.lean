import ServerlessHarness.Library.Number
import ServerlessHarness.Library.Utf16

/-!
# The preview of a tool result

A stream of turn events shows a tool result up to a number of bytes, and says so when it is cut.
-/

set_option autoImplicit false

namespace ServerlessHarness.TurnStream

open Library

/-- SRCLINE: turn-stream.ts:24 -/
def defaultPreviewBytes : ℚ := 2048

/-- Finite and not negative, or the default. -/
def orDefault : Number → ℚ
  | .finite q => if 0 ≤ q then q else defaultPreviewBytes
  | _ => defaultPreviewBytes

/-- `raw` is the environment variable; `parseInt` reads a number from it.
SRCLINE: turn-stream.ts:30-38 -/
def previewCap (parseInt : Units → Number) (raw : Option Units) : Option Number → ℚ
  | some override => orDefault override
  | none =>
    match raw with
    | none => defaultPreviewBytes
    | some raw => orDefault (parseInt raw)

/-- A tool result: a string, or a value that `JSON.stringify` makes a string or nothing of. -/
inductive ToolResult where
  | string (text : Units)
  | other (json : Option Units)

/-- SRCLINE: turn-stream.ts:46 -/
def ToolResult.text : ToolResult → Units
  | .string text => text
  | .other json => json.getD []

def truncated : Units := units "…[truncated]"

/-- The bytes up to the cap as a string; a fraction of a byte is left out.
SRCLINE: turn-stream.ts:49 -/
def cutText (text : Units) (cap : ℚ) : Units := ofChars (decodeText ((unitsUtf8 text).take ⌊cap⌋₊))

/-- SRCLINE: turn-stream.ts:44-50 -/
def clip (parseInt : Units → Number) (raw : Option Units) (result : ToolResult)
    (previewBytes : Option Number) : Units :=
  let cap := previewCap parseInt raw previewBytes
  if ((unitsUtf8 result.text).length : ℚ) ≤ cap then result.text
  else cutText result.text cap ++ truncated

end ServerlessHarness.TurnStream
