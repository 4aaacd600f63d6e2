import Mathlib.Data.List.DropRight

/-!
# Trimming both ends of a list

`trimEnds p l` drops the elements with `p` from both ends of `l`; it leaves what it returns as it is
(`Trimmed`). White space is what scripts trim.
-/

set_option autoImplicit false

namespace ServerlessHarness.Library

/-- The code points that `trim` and `\s` of a script take for white space. -/
def isWhiteSpace (n : ℕ) : Bool :=
  (9 ≤ n && n ≤ 13) || n = 0x20 || n = 0xA0 || n = 0x1680 || (0x2000 ≤ n && n ≤ 0x200A) ||
    n = 0x2028 || n = 0x2029 || n = 0x202F || n = 0x205F || n = 0x3000 || n = 0xFEFF

variable {α : Type*} (p : α → Bool)

def trimEnds (l : List α) : List α := (l.dropWhile p).rdropWhile p

/-- The list is not empty, and neither of its ends has `p`. -/
structure Trimmed (l : List α) : Prop where
  ne_nil : l ≠ []
  head : l.dropWhile p = l
  last : l.rdropWhile p = l

variable {p}

variable {l : List α}

theorem mem_of_mem_trimEnds {x : α} (h : x ∈ trimEnds p l) : x ∈ l := by
  have hdropped := (List.rdropWhile_prefix p (l := l.dropWhile p)).subset h
  exact (List.dropWhile_suffix p).subset hdropped

/-- Dropping the end of a list whose head stays does not drop the head. -/
theorem dropWhile_rdropWhile (h : l.dropWhile p = l) :
    (l.rdropWhile p).dropWhile p = l.rdropWhile p := by
  rw [List.dropWhile_eq_self_iff] at h ⊢
  intro hpos
  have hfront := List.rdropWhile_prefix p (l := l)
  have hl : 0 < l.length := lt_of_lt_of_le hpos hfront.length_le
  rw [hfront.getElem hpos]
  exact h hl

theorem trimmed_trimEnds (h : trimEnds p l ≠ []) : Trimmed p (trimEnds p l) where
  ne_nil := h
  head := dropWhile_rdropWhile (List.dropWhile_idempotent p (l := l))
  last := List.rdropWhile_idempotent p (l := l.dropWhile p)

end ServerlessHarness.Library
