import ServerlessHarness.Library.Utf8

/-!
# Texts of code units

A string of a script is a sequence of 16-bit code units; any sequence is a string, and it may be
cut between any two units. Its bytes are those of its characters; a unit that is half of a pair and
stands alone counts as the replacement character.
-/

set_option autoImplicit false

namespace ServerlessHarness.Library

abbrev Units : Type := List UInt16

/-- The one or two units of a character. -/
def charUnits (c : Char) : Units :=
  if c.toNat < 0x10000 then [UInt16.ofNat c.toNat]
  else [UInt16.ofNat (0xd800 + (c.toNat - 0x10000) / 0x400),
    UInt16.ofNat (0xdc00 + (c.toNat - 0x10000) % 0x400)]

def ofChars (cs : List Char) : Units := cs.flatMap charUnits

/-- The string of a literal. -/
def units (s : String) : Units := ofChars s.toList

theorem ofChars_append (cs ds : List Char) : ofChars (cs ++ ds) = ofChars cs ++ ofChars ds :=
  List.flatMap_append

/-- A unit below the pairs is a character of the text. -/
theorem mem_of_mem_ofChars {u : UInt16} {cs : List Char} (hu : u.toNat < 0xd800)
    (h : u ∈ ofChars cs) :
    ∃ c ∈ cs, c.toNat = u.toNat := by
  obtain ⟨c, hc, hmem⟩ := List.mem_flatMap.mp h
  refine ⟨c, hc, ?_⟩
  unfold charUnits at hmem
  split at hmem
  · rw [List.mem_singleton.mp hmem, UInt16.toNat_ofNat']
    omega
  · have hvalid : c.toNat < 0xd800 ∨ 0xdfff < c.toNat ∧ c.toNat < 0x110000 := c.valid
    rcases List.mem_cons.mp hmem with rfl | hmem
    · rw [UInt16.toNat_ofNat'] at hu
      omega
    · rw [List.mem_singleton.mp hmem, UInt16.toNat_ofNat'] at hu
      omega

/-- The first of a pair and the second. -/
def isPair (u v : UInt16) : Bool :=
  decide (0xd800 ≤ u.toNat ∧ u.toNat < 0xdc00 ∧ 0xdc00 ≤ v.toNat ∧ v.toNat < 0xe000)

/-- The character of a unit that is not half of a pair. -/
def unitChar (u : UInt16) : Char :=
  if 0xd800 ≤ u.toNat ∧ u.toNat < 0xe000 then '\ufffd' else Char.ofNat u.toNat

def chars : Units → List Char
  | [] => []
  | [u] => [unitChar u]
  | u :: v :: rest =>
    if isPair u v then
      Char.ofNat (0x10000 + (u.toNat - 0xd800) * 0x400 + (v.toNat - 0xdc00)) :: chars rest
    else unitChar u :: chars (v :: rest)

/-- The bytes of a string. -/
def unitsUtf8 (t : Units) : List UInt8 := utf8 (chars t)

theorem toNat_valid (c : Char) : c.toNat < 0xd800 ∨ 0xdfff < c.toNat ∧ c.toNat < 0x110000 := c.valid

theorem charUnits_small {c : Char} (h : c.toNat < 0x10000) (rest : Units) :
    chars (UInt16.ofNat c.toNat :: rest) = c :: chars rest := by
  have hunit : (UInt16.ofNat c.toNat).toNat = c.toNat := by
    rw [UInt16.toNat_ofNat']
    exact Nat.mod_eq_of_lt h
  have hnot : ¬(0xd800 ≤ c.toNat ∧ c.toNat < 0xe000) := by
    have hvalid := toNat_valid c
    omega
  have hchar : unitChar (UInt16.ofNat c.toNat) = c := by
    rw [unitChar, hunit, if_neg hnot, Char.ofNat_toNat]
  cases rest with
  | nil => simp [chars, hchar]
  | cons v rest =>
    have hpair : isPair (UInt16.ofNat c.toNat) v = false := by
      simp only [isPair, hunit, decide_eq_false_iff_not]
      omega
    simp [chars, hchar, hpair]

theorem charUnits_large {c : Char} (h : ¬c.toNat < 0x10000) (rest : Units) :
    chars (UInt16.ofNat (0xd800 + (c.toNat - 0x10000) / 0x400) ::
      UInt16.ofNat (0xdc00 + (c.toNat - 0x10000) % 0x400) :: rest) = c :: chars rest := by
  have hvalid := toNat_valid c
  have hfirst : (UInt16.ofNat (0xd800 + (c.toNat - 0x10000) / 0x400)).toNat =
      0xd800 + (c.toNat - 0x10000) / 0x400 := by
    rw [UInt16.toNat_ofNat']
    omega
  have hsecond : (UInt16.ofNat (0xdc00 + (c.toNat - 0x10000) % 0x400)).toNat =
      0xdc00 + (c.toNat - 0x10000) % 0x400 := by
    rw [UInt16.toNat_ofNat']
    omega
  have hpair : isPair (UInt16.ofNat (0xd800 + (c.toNat - 0x10000) / 0x400))
      (UInt16.ofNat (0xdc00 + (c.toNat - 0x10000) % 0x400)) = true := by
    simp only [isPair, hfirst, hsecond, decide_eq_true_eq]
    omega
  have hcode : 0x10000 + (0xd800 + (c.toNat - 0x10000) / 0x400 - 0xd800) * 0x400 +
      (0xdc00 + (c.toNat - 0x10000) % 0x400 - 0xdc00) = c.toNat := by
    omega
  rw [chars, if_pos hpair, hfirst, hsecond, hcode, Char.ofNat_toNat]

theorem chars_charUnits_append (c : Char) (rest : Units) :
    chars (charUnits c ++ rest) = c :: chars rest := by
  unfold charUnits
  split
  · next h => exact charUnits_small h rest
  · next h => exact charUnits_large h rest

theorem chars_ofChars_append (cs : List Char) (rest : Units) :
    chars (ofChars cs ++ rest) = cs ++ chars rest := by
  induction cs with
  | nil => rfl
  | cons c cs ih =>
    rw [ofChars, List.flatMap_cons, List.append_assoc, chars_charUnits_append, ← ofChars, ih,
      List.cons_append]

theorem unitsUtf8_ofChars_append (cs : List Char) (rest : Units) :
    unitsUtf8 (ofChars cs ++ rest) = utf8 cs ++ unitsUtf8 rest := by
  rw [unitsUtf8, chars_ofChars_append, utf8_append, unitsUtf8]

theorem unitsUtf8_ofChars (cs : List Char) : unitsUtf8 (ofChars cs) = utf8 cs := by
  have h := unitsUtf8_ofChars_append cs []
  rw [List.append_nil] at h
  rw [h]
  exact List.append_nil _

end ServerlessHarness.Library
