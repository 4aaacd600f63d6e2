import Mathlib.Data.Nat.Notation
import ServerlessHarness.Library.Json

/-!
# JSON texts

A writer of JSON values, for any way of escaping the characters of strings. The members of an
object stand as they are written, two of one name included. A number is written as its mantissa,
with an exponent unless that is zero.
-/

set_option autoImplicit false

namespace ServerlessHarness.Library.JsonText

variable (escape : Char → List Char)

def quoted (s : String) : List Char :=
  '"' :: (s.toList.flatMap escape ++ ['"'])

def integer (m : Int) : List Char :=
  if m < 0 then '-' :: Nat.toDigits 10 m.natAbs else Nat.toDigits 10 m.natAbs

def number (mantissa exponent : Int) : List Char :=
  integer mantissa ++ if exponent = 0 then [] else 'e' :: integer exponent

/-- Texts with commas between them. -/
def joined : List (List Char) → List Char
  | [] => []
  | [t] => t
  | t :: ts => t ++ ',' :: joined ts

mutual

def text : Json → List Char
  | .null => "null".toList
  | .bool b => if b then "true".toList else "false".toList
  | .num mantissa exponent => number mantissa exponent
  | .str s => quoted escape s
  | .arr items => '[' :: (joined (texts items) ++ [']'])
  | .obj fields => '\x7b' :: (joined (members fields) ++ ['\x7d'])

def texts : List Json → List (List Char)
  | [] => []
  | item :: items => text item :: texts items

def members : List (String × Json) → List (List Char)
  | [] => []
  | (key, value) :: fields => (quoted escape key ++ ':' :: text value) :: members fields

end

/-- The text of a member. -/
def member (field : String × Json) : List Char :=
  quoted escape field.1 ++ ':' :: text escape field.2

theorem members_eq_map (fields : List (String × Json)) :
    members escape fields = fields.map (member escape) := by
  induction fields with
  | nil => simp [members]
  | cons field fields ih => simp [members, member, ih]

/-! ## Digits -/

theorem isDigit_toDigits (n : ℕ) : ∀ d ∈ Nat.toDigits 10 n, d.isDigit = true := by
  intro d hd
  exact Nat.isDigit_of_mem_toDigits (by decide) (by decide) hd

/-! ## Escapes -/

/-- `\uXXXX`. -/
def unicodeEscape (c : Char) : List Char :=
  ['\\', 'u', (c.toNat / 4096).digitChar, (c.toNat / 256 % 16).digitChar,
    (c.toNat / 16 % 16).digitChar, (c.toNat % 16).digitChar]

/-- The characters that are written as a backslash and a letter. -/
def shorts : List (Char × Char) :=
  [('"', '"'), ('\\', '\\'), ('\x08', 'b'), ('\x0c', 'f'), ('\n', 'n'), ('\r', 'r'), ('\t', 't')]

/-- Quotes, backslashes and control characters are escaped, and the special characters. -/
def escapeWith (special : Char → Bool) (c : Char) : List Char :=
  match shorts.lookup c with
  | some d => ['\\', d]
  | none => if c.toNat < 0x20 || special c then unicodeEscape c else [c]

end ServerlessHarness.Library.JsonText
