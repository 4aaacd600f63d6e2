import ServerlessHarness.Model.TurnStream.Clip

/-!
# What a preview keeps of a text

The cut is made on bytes. If it falls between two characters, the part that is kept is a beginning
of the text and has as many bytes as the cap allows. If it falls inside of one, the bytes of its
beginning are decoded as a replacement character, which is not in the text and may have more bytes
than were cut.
-/

set_option autoImplicit false

namespace ServerlessHarness.TurnStream

open Library

/-- The part before the marker is a beginning of the text and within the cap. -/
def Faithful (part text : Units) (cap : ℚ) : Prop :=
  part <+: text ∧ ((unitsUtf8 part).length : ℚ) ≤ cap

/-- The cut falls between two characters, and all before it are characters. -/
def CutsBetween (text : Units) (cap : ℚ) : Prop :=
  ∃ cs : List Char, ofChars cs <+: text ∧ (utf8 cs).length = ⌊cap⌋₊

theorem orDefault_nonneg (n : Number) : 0 ≤ orDefault n := by
  unfold orDefault
  split
  · split
    · assumption
    · decide
  · decide

theorem previewCap_nonneg (parseInt : Units → Number) (raw : Option Units)
    (override : Option Number) :
    0 ≤ previewCap parseInt raw override := by
  unfold previewCap
  split
  · exact orDefault_nonneg _
  · split
    · decide
    · exact orDefault_nonneg _

theorem cutText_of_cutsBetween {text : Units} {cap : ℚ} (hcap : 0 ≤ cap)
    (h : CutsBetween text cap) :
    Faithful (cutText text cap) text cap := by
  obtain ⟨cs, ⟨rest, rfl⟩, hlength⟩ := h
  have hcut : cutText (ofChars cs ++ rest) cap = ofChars cs := by
    rw [cutText, unitsUtf8_ofChars_append, ← hlength, List.take_left, decodeText_utf8]
  rw [hcut]
  refine ⟨List.prefix_append _ _, ?_⟩
  rw [unitsUtf8_ofChars, hlength]
  exact Nat.floor_le hcap

theorem cutsBetween_of_faithful {text : Units} {cap : ℚ}
    (hlong : cap < (unitsUtf8 text).length) (h : Faithful (cutText text cap) text cap) :
    CutsBetween text cap := by
  refine ⟨_, h.1, Nat.le_antisymm ?_ ?_⟩
  · have hbytes := h.2
    rw [cutText, unitsUtf8_ofChars] at hbytes
    exact Nat.le_floor hbytes
  · have hfloor : ⌊cap⌋₊ ≤ (unitsUtf8 text).length := (Nat.floor_le_of_le hlong.le)
    have hdecoded := length_le_utf8_decodeText ((unitsUtf8 text).take ⌊cap⌋₊)
    rwa [List.length_take_of_le hfloor] at hdecoded

/-- A preview that is cut keeps a beginning of the text within the cap if and only if the cut falls
between two characters. -/
theorem clip_faithful_iff (parseInt : Units → Number) (raw : Option Units) (result : ToolResult)
    (previewBytes : Option Number) :
    (previewCap parseInt raw previewBytes < (unitsUtf8 result.text).length →
        ∃ part, clip parseInt raw result previewBytes = part ++ truncated ∧
          Faithful part result.text (previewCap parseInt raw previewBytes)) ↔
      (previewCap parseInt raw previewBytes < (unitsUtf8 result.text).length →
        CutsBetween result.text (previewCap parseInt raw previewBytes)) := by
  have hcap := previewCap_nonneg parseInt raw previewBytes
  refine forall_congr' fun hlong => ?_
  have hclip : clip parseInt raw result previewBytes =
      cutText result.text (previewCap parseInt raw previewBytes) ++ truncated :=
    if_neg (not_le.mpr hlong)
  constructor
  · rintro ⟨part, hpart, hfaithful⟩
    rw [hclip] at hpart
    rw [← List.append_cancel_right hpart] at hfaithful
    exact cutsBetween_of_faithful hlong hfaithful
  · intro hcut
    exact ⟨_, hclip, cutText_of_cutsBetween hcap hcut⟩

/-- Half of a character of two bytes becomes a replacement character of three. -/
theorem clip_half_character :
    clip (fun _ => .nan) none (.string (units "é")) (some (.finite 1)) = units "\ufffd" ++
      truncated ∧
      ¬Faithful (units "\ufffd") (units "é") 1 := by
  refine ⟨?_, ?_⟩
  · have hcap : previewCap (fun _ => .nan) none (some (.finite 1)) = 1 := by decide
    have hcut : cutText (units "é") 1 = units "\ufffd" := by
      rw [cutText, Nat.floor_one]
      decide
    have hlength : (unitsUtf8 (units "é")).length = 2 := by decide
    simp only [clip, ToolResult.text, hcap, hcut, hlength]
    exact if_neg (by decide)
  · rintro ⟨h, -⟩
    exact absurd h (by decide)

end ServerlessHarness.TurnStream
