import Mathlib.Data.Nat.Notation

/-!
# Characters as bytes

The UTF-8 encoding of characters, and a decoder of arbitrary bytes that reads bytes which start no
character as the replacement character, as many at a time as could begin a character. What was
encoded is decoded again, and what is decoded is no shorter when it is encoded again.
-/

set_option autoImplicit false

namespace ServerlessHarness.Library

def utf8 (cs : List Char) : List UInt8 := cs.flatMap String.utf8EncodeChar

/-- The character some bytes start with. -/
def firstChar (bytes : List UInt8) : Option Char :=
  (ByteArray.mk bytes.toArray).utf8DecodeChar? 0

/-- The second byte of a character of three or four bytes. -/
def isSecond (b c : UInt8) : Bool :=
  decide ((if b = 0xe0 then 0xa0 else if b = 0xf0 then 0x90 else 0x80) ≤ c ∧
    c ≤ (if b = 0xed then 0x9f else if b = 0xf4 then 0x8f else 0xbf))

/-- How many bytes after the first belong to the beginning of a character that is cut short. -/
def cutShort : List UInt8 → ℕ
  | b :: c :: rest =>
    if 0xe0 ≤ b ∧ b ≤ 0xf4 ∧ isSecond b c then
      match rest with
      | d :: _ => if 0xf0 ≤ b ∧ 0x80 ≤ d ∧ d ≤ 0xbf then 2 else 1
      | [] => 1
    else 0
  | _ => 0

/-- Decodes as many bytes as the number says. -/
def fromUtf8 : ℕ → List UInt8 → List Char
  | 0, _ => []
  | _ + 1, [] => []
  | n + 1, b :: bytes =>
    match firstChar (b :: bytes) with
    | some c => c :: fromUtf8 n ((b :: bytes).drop c.utf8Size)
    | none => '\ufffd' :: fromUtf8 n (bytes.drop (cutShort (b :: bytes)))

/-- One replacement character for each beginning of a character, as `TextDecoder` and
`Buffer.toString` have it. -/
def decodeText (bytes : List UInt8) : List Char := fromUtf8 bytes.length bytes

theorem utf8_cons (c : Char) (cs : List Char) :
    utf8 (c :: cs) = String.utf8EncodeChar c ++ utf8 cs := List.flatMap_cons

theorem utf8_append (cs ds : List Char) : utf8 (cs ++ ds) = utf8 cs ++ utf8 ds :=
  List.flatMap_append

theorem firstChar_utf8 (c : Char) (cs : List Char) : firstChar (utf8 (c :: cs)) = some c := by
  have h := List.utf8DecodeChar?_utf8Encode_cons (c := c) (l := cs)
  have hbytes : (c :: cs).utf8Encode = ByteArray.mk (utf8 (c :: cs)).toArray := by
    apply ByteArray.ext
    simp [List.utf8Encode, utf8]
  rw [hbytes] at h
  exact h

theorem fromUtf8_utf8 (cs : List Char) {n : ℕ} (hn : (utf8 cs).length ≤ n) :
    fromUtf8 n (utf8 cs) = cs := by
  induction cs generalizing n with
  | nil => cases n <;> rfl
  | cons c cs ih =>
    have hfirst := firstChar_utf8 c cs
    have hlength : (String.utf8EncodeChar c).length = c.utf8Size := String.length_utf8EncodeChar c
    have hpos : 0 < c.utf8Size := Char.utf8Size_pos c
    have hdrop : (utf8 (c :: cs)).drop c.utf8Size = utf8 cs := by
      rw [utf8_cons, ← hlength, List.drop_left]
    have htotal : (utf8 (c :: cs)).length = c.utf8Size + (utf8 cs).length := by
      rw [utf8_cons, List.length_append, hlength]
    cases n with
    | zero => omega
    | succ n =>
      cases hbytes : utf8 (c :: cs) with
      | nil =>
        rw [hbytes] at htotal
        simp at htotal
        omega
      | cons b bytes =>
        rw [hbytes] at hfirst hdrop
        rw [fromUtf8, hfirst]
        show c :: fromUtf8 n ((b :: bytes).drop c.utf8Size) = c :: cs
        rw [hdrop, ih (by omega)]

/-- INTERNAL: **what was encoded is decoded**. -/
theorem decodeText_utf8 (cs : List Char) : decodeText (utf8 cs) = cs :=
  fromUtf8_utf8 cs (Nat.le_refl _)

-- Node's example of a character that is cut short.
example : decodeText [0xe2, 0x82, 0x41] = ['\ufffd', 'A'] := by decide +kernel

theorem cutShort_le (bytes : List UInt8) : cutShort bytes ≤ 2 := by
  unfold cutShort
  split
  · split
    · split
      · split <;> decide
      · decide
    · decide
  · decide

/-- Replaced bytes are at most three, as many as the replacement character has. -/
theorem length_le_utf8_fromUtf8 {n : ℕ} {bytes : List UInt8} (hn : bytes.length ≤ n) :
    bytes.length ≤ (utf8 (fromUtf8 n bytes)).length := by
  fun_induction fromUtf8 n bytes with
  | case1 bytes => omega
  | case2 n => exact Nat.zero_le _
  | case3 n b bytes c hc ih =>
    have hrest := ih (by
      have hpos : 0 < c.utf8Size := Char.utf8Size_pos c
      rw [List.length_drop]
      omega)
    rw [utf8_cons, List.length_append, String.length_utf8EncodeChar]
    rw [List.length_drop] at hrest
    omega
  | case4 n b bytes hc ih =>
    have hcut := cutShort_le (b :: bytes)
    rw [List.length_drop, List.length_cons] at *
    have hrest := ih (by omega)
    rw [utf8_cons, List.length_append]
    have hsize : (String.utf8EncodeChar '\ufffd').length = 3 := by decide
    omega

theorem length_le_utf8_decodeText (bytes : List UInt8) :
    bytes.length ≤ (utf8 (decodeText bytes)).length :=
  length_le_utf8_fromUtf8 (Nat.le_refl _)

end ServerlessHarness.Library
