import Mathlib.Data.Nat.Notation

/-!
# Length-prefixed bytes

A number of known width in big-endian order, and data after its own length. Fields that are written
one after the other in this way can be told apart again.
-/

set_option autoImplicit false

namespace ServerlessHarness.Library

/-- How many numbers `width` bytes can tell apart. -/
def span : ℕ → ℕ
  | 0 => 1
  | width + 1 => 256 * span width

/-- The last `width` bytes of a number, the most significant one first. -/
def bigEndian : ℕ → ℕ → List UInt8
  | 0, _ => []
  | width + 1, n => bigEndian width (n / 256) ++ [UInt8.ofNat n]

theorem length_bigEndian (width n : ℕ) : (bigEndian width n).length = width := by
  induction width generalizing n with
  | zero => rfl
  | succ width ih => rw [bigEndian, List.length_append, ih, List.length_singleton]

theorem bigEndian_inj {width m n : ℕ} (hm : m < span width) (hn : n < span width)
    (h : bigEndian width m = bigEndian width n) : m = n := by
  induction width generalizing m n with
  | zero =>
    rw [span] at hm hn
    omega
  | succ width ih =>
    rw [bigEndian, bigEndian] at h
    obtain ⟨hhigh, hlow⟩ := List.append_inj' h rfl
    have hquot : m / 256 = n / 256 := by
      apply ih
      · rw [span] at hm
        omega
      · rw [span] at hn
        omega
      · exact hhigh
    have hrem : m % 256 = n % 256 := by
      have hbyte := congrArg UInt8.toNat (List.singleton_inj.mp hlow)
      simpa using hbyte
    omega

/-- Data after its length. -/
def framed (width : ℕ) (data : List UInt8) : List UInt8 := bigEndian width data.length ++ data

/-- INTERNAL: **a field with its length can be told from what follows**. -/
theorem framed_append_inj {width : ℕ} {data data' rest rest' : List UInt8}
    (hdata : data.length < span width) (hdata' : data'.length < span width)
    (h : framed width data ++ rest = framed width data' ++ rest') : data = data' ∧
      rest = rest' := by
  unfold framed at h
  rw [List.append_assoc, List.append_assoc] at h
  obtain ⟨hlength, htail⟩ := List.append_inj h (by rw [length_bigEndian, length_bigEndian])
  exact List.append_inj htail (bigEndian_inj hdata hdata' hlength)

end ServerlessHarness.Library
