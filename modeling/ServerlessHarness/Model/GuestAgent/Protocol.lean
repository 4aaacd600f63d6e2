import ServerlessHarness.Library.Framing
import ServerlessHarness.Library.JsonText
import ServerlessHarness.Library.Utf8

/-!
# The guest's protocol

Host and guest send each other frames. `Conn` is an end of the connection, with the bytes it has
taken and how many more it will take before it breaks.

The JSON is that of Go's `encoding/json`: `<`, `>`, `&` and the two line separators are escaped.
-/

set_option autoImplicit false

namespace ServerlessHarness.GuestAgent

open Library

/-! ## Frames -/

/-- SRCLINE: protocol.go:29 -/
def maxFrame : ℕ := 32 * 1024

/-- The host's end of a connection: what it has taken, and how many more bytes it takes before it
breaks, if it does. -/
structure Conn where
  written : List UInt8
  room : Option ℕ
deriving DecidableEq, Repr

/-- A `Write`, and whether it took everything. -/
def Conn.write (conn : Conn) (bytes : List UInt8) : Conn × Bool :=
  match conn.room with
  | none => ({ conn with written := conn.written ++ bytes }, true)
  | some n =>
    if bytes.length ≤ n then (⟨conn.written ++ bytes, some (n - bytes.length)⟩, true)
    else (⟨conn.written ++ bytes.take n, some 0⟩, false)

inductive WriteError where
  | frameTooLarge (length : ℕ)
  | connection
deriving DecidableEq, Repr

/-- SRCLINE: protocol.go:75-90 -/
def writeFrame (conn : Conn) (kind : UInt8) (payload : List UInt8) : Conn × Option WriteError :=
  if maxFrame < payload.length then (conn, some (.frameTooLarge payload.length))
  else
    match conn.write (kind :: bigEndian 4 payload.length) with
    | (conn, false) => (conn, some .connection)
    | (conn, true) =>
      if payload = [] then (conn, none)
      else
        match conn.write payload with
        | (conn, false) => (conn, some .connection)
        | (conn, true) => (conn, none)

/-! ## JSON -/

/-- The characters that Go escapes in JSON for the sake of HTML and of JavaScript. -/
def htmlUnsafe (c : Char) : Bool :=
  c = '<' || c = '>' || c = '&' || c = '\u2028' || c = '\u2029'

def goEscaping : Char → List Char := JsonText.escapeWith htmlUnsafe

end ServerlessHarness.GuestAgent
