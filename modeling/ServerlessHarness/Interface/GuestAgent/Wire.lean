import Mathlib.Algebra.Ring.Nat
import ServerlessHarness.Model.GuestAgent.Response

/-!
# Frames and ends

A frame that is not too large is written as a whole to a connection that does not break, and the
JSON of an end is never too large.
-/

set_option autoImplicit false

namespace ServerlessHarness.GuestAgent

open Library

/-! ## Frames -/

def encodeFrame (kind : UInt8) (payload : List UInt8) : List UInt8 :=
  kind :: (bigEndian 4 payload.length ++ payload)

/-- A connection that does not break takes the frame. -/
theorem writeFrame_unbroken {kind : UInt8} {payload : List UInt8} (h : payload.length ≤ maxFrame)
    (written : List UInt8) :
    writeFrame ⟨written, none⟩ kind payload =
      (⟨written ++ encodeFrame kind payload, none⟩, none) := by
  rw [writeFrame, if_neg (by omega)]
  by_cases hempty : payload = []
  · subst hempty
    rfl
  · simp [Conn.write, hempty, encodeFrame]

theorem writeFrame_tooLarge {kind : UInt8} {payload : List UInt8} (h : maxFrame < payload.length)
    (conn : Conn) : writeFrame conn kind payload =
      (conn, some (.frameTooLarge payload.length)) := by
  rw [writeFrame, if_pos h]

/-! ## The length of a JSON text -/

/-- How many bytes a number is in decimal. -/
def numberWidth (m : Int) : ℕ := (JsonText.integer m).length

theorem length_utf8_cons (c : Char) (cs : List Char) :
    (utf8 (c :: cs)).length = c.utf8Size + (utf8 cs).length := by
  rw [utf8_cons, List.length_append, String.length_utf8EncodeChar]

theorem length_utf8_append (cs ds : List Char) :
    (utf8 (cs ++ ds)).length = (utf8 cs).length + (utf8 ds).length := by
  rw [utf8_append, List.length_append]

theorem length_utf8_ascii {cs : List Char} (h : ∀ c ∈ cs, c.utf8Size = 1) :
    (utf8 cs).length = cs.length := by
  induction cs with
  | nil => rfl
  | cons c cs ih =>
    rw [length_utf8_cons, h c List.mem_cons_self, ih fun d hd => h d (List.mem_cons_of_mem _ hd),
      List.length_cons, Nat.add_comm]

theorem utf8Size_of_isDigit {c : Char} (h : c.isDigit = true) : c.utf8Size = 1 := by
  rw [Char.utf8Size_eq_one_iff]
  simp only [Char.isDigit, Bool.and_eq_true, decide_eq_true_eq] at h
  exact UInt32.le_trans h.2 (by decide)

theorem length_utf8_integer (m : Int) : (utf8 (JsonText.integer m)).length = numberWidth m := by
  apply length_utf8_ascii
  intro c hc
  unfold JsonText.integer at hc
  split at hc
  · rcases List.mem_cons.mp hc with rfl | hc
    · decide
    · exact utf8Size_of_isDigit (JsonText.isDigit_toDigits _ c hc)
  · exact utf8Size_of_isDigit (JsonText.isDigit_toDigits _ c hc)

theorem length_utf8_num (m : Int) :
    (utf8 (JsonText.text goEscaping (.num m 0))).length = numberWidth m := by
  rw [JsonText.text, JsonText.number, if_pos rfl, List.append_nil, length_utf8_integer]

theorem length_utf8_member (key : String) (value : Json) :
    (utf8 (JsonText.member goEscaping (key, value))).length =
      (utf8 (JsonText.quoted goEscaping key)).length + 1 +
        (utf8 (JsonText.text goEscaping value)).length := by
  rw [JsonText.member, length_utf8_append, length_utf8_cons]
  show (utf8 (JsonText.quoted goEscaping key)).length +
    (1 + (utf8 (JsonText.text goEscaping value)).length) = _
  omega

/-! ## Ends -/

theorem numberWidth_le {m : Int} (h : m.natAbs < 10 ^ 19) : numberWidth m ≤ 20 := by
  have hdigits : (Nat.toDigits 10 m.natAbs).length ≤ 19 :=
    (Nat.length_toDigits_le_iff (by decide) (by decide)).mpr h
  unfold numberWidth JsonText.integer
  split
  · rw [List.length_cons]
    omega
  · omega

theorem natAbs_toInt_int64_lt (n : Int64) : n.toInt.natAbs < 10 ^ 19 := by
  have hlow := n.minValue_le_toInt
  have hhigh := n.toInt_le
  have hmin : Int64.minValue.toInt = -9223372036854775808 := by decide
  have hmax : Int64.maxValue.toInt = 9223372036854775807 := by decide
  omega

theorem natAbs_toInt_int32_lt (n : Int32) : n.toInt.natAbs < 10 ^ 19 := by
  have hlow := n.minValue_le_toInt
  have hhigh := n.toInt_le
  have hmin : Int32.minValue.toInt = -2147483648 := by decide
  have hmax : Int32.maxValue.toInt = 2147483647 := by decide
  omega

/-- An end always fits a frame. -/
theorem marshal_end_length (e : End) : e.marshal.length ≤ maxFrame := by
  have hcode : (utf8 (JsonText.quoted goEscaping "exit_code")).length = 11 := by decide
  have hstdout : (utf8 (JsonText.quoted goEscaping "dropped_stdout")).length = 16 := by decide
  have hstderr : (utf8 (JsonText.quoted goEscaping "dropped_stderr")).length = 16 := by decide
  have hopen : ('\x7b' : Char).utf8Size = 1 := by decide
  have hclose : (utf8 ['\x7d']).length = 1 := by decide
  have hcomma : (',' : Char).utf8Size = 1 := by decide
  have hmax : maxFrame = 32768 := rfl
  have hcodeWidth := numberWidth_le (natAbs_toInt_int32_lt e.exitCode)
  have hstdoutWidth := numberWidth_le (natAbs_toInt_int64_lt e.droppedStdout)
  have hstderrWidth := numberWidth_le (natAbs_toInt_int64_lt e.droppedStderr)
  rw [End.marshal, End.json, JsonText.text, JsonText.members_eq_map]
  simp only [List.map_cons, List.map_nil, JsonText.joined, length_utf8_cons, length_utf8_append,
    length_utf8_member, length_utf8_num, hcode, hstdout, hstderr, hopen, hclose, hcomma]
  omega

end ServerlessHarness.GuestAgent
