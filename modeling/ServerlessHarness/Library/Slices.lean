import Mathlib.Data.Nat.Notation

/-!
# Slices of arrays

A slice is a window of an array, with room up to its capacity, as in Go: to append writes into the
array when there is room, which another slice of the array can see, and copies to a new array
otherwise. The arrays are a list, and never freed.
-/

set_option autoImplicit false

namespace ServerlessHarness.Library

structure Slice where
  array : ℕ
  offset : ℕ
  length : ℕ
  capacity : ℕ
deriving DecidableEq, Repr

variable {i : ℕ}

namespace Slice

variable {α : Type}

def read (heap : List (List α)) (s : Slice) : List α :=
  ((heap[s.array]?.getD []).drop s.offset).take s.length

/-- `s[:i:i]` -/
def upTo (s : Slice) (i : ℕ) : Slice := { s with length := i, capacity := i }

/-- `s[i:]` -/
def after (s : Slice) (i : ℕ) : Slice :=
  ⟨s.array, s.offset + i, s.length - i, s.capacity - i⟩

/-- `append(s, xs...)`; `spare` is how much more than is needed a new array has, of zeros. -/
def append (spare : ℕ → ℕ) (zero : α) (heap : List (List α)) (s : Slice) (xs : List α) :
    List (List α) × Slice :=
  let n := s.length + xs.length
  if n ≤ s.capacity then
    (heap.modify s.array fun cells =>
      cells.take (s.offset + s.length) ++ (xs ++ cells.drop (s.offset + n)), { s with length := n })
  else
    (heap ++ [s.read heap ++ (xs ++ List.replicate (spare n) zero)],
      ⟨heap.length, 0, n, n + spare n⟩)

/-- The window is inside its array. -/
structure Valid (heap : List (List α)) (s : Slice) : Prop where
  inside : ∃ cells, heap[s.array]? = some cells ∧ s.offset + s.capacity ≤ cells.length
  length_le : s.length ≤ s.capacity

variable {heap : List (List α)} {s : Slice}

theorem length_read (h : Valid heap s) : (s.read heap).length = s.length := by
  obtain ⟨cells, hcells, hinside⟩ := h.inside
  have hlength := h.length_le
  rw [read, hcells, Option.getD_some, List.length_take, List.length_drop]
  omega

theorem read_upTo (h : i ≤ s.length) : (s.upTo i).read heap = (s.read heap).take i := by
  rw [read, read, List.take_take, Nat.min_eq_left h]
  rfl

theorem read_after (i : ℕ) : (s.after i).read heap = (s.read heap).drop i := by
  rw [read, read, List.drop_take, List.drop_drop]
  rfl

theorem valid_upTo (h : Valid heap s) (hi : i ≤ s.length) : Valid heap (s.upTo i) := by
  obtain ⟨cells, hcells, hinside⟩ := h.inside
  have hlength := h.length_le
  refine ⟨⟨cells, hcells, ?_⟩, Nat.le_refl i⟩
  show s.offset + i ≤ cells.length
  omega

theorem valid_after (h : Valid heap s) (hi : i ≤ s.length) : Valid heap (s.after i) := by
  obtain ⟨cells, hcells, hinside⟩ := h.inside
  have hlength := h.length_le
  refine ⟨⟨cells, hcells, ?_⟩, ?_⟩
  · show s.offset + i + (s.capacity - i) ≤ cells.length
    omega
  · show s.length - i ≤ s.capacity - i
    omega

/-- INTERNAL: **what an append does to its own slice**, in place or not. -/
theorem append_spec (spare : ℕ → ℕ) (zero : α) (h : Valid heap s) (xs : List α) :
    Valid (append spare zero heap s xs).1 (append spare zero heap s xs).2 ∧
      (append spare zero heap s xs).2.read (append spare zero heap s xs).1 = s.read heap ++ xs := by
  obtain ⟨cells, hcells, hinside⟩ := h.inside
  have hlength := h.length_le
  rw [append]
  by_cases hroom : s.length + xs.length ≤ s.capacity
  · simp only [if_pos hroom]
    have hwritten : (heap.modify s.array fun cells =>
        cells.take (s.offset + s.length) ++
          (xs ++ cells.drop (s.offset + (s.length + xs.length))))[s.array]? =
        some (cells.take (s.offset + s.length) ++
          (xs ++ cells.drop (s.offset + (s.length + xs.length)))) := by
      rw [List.getElem?_modify_eq, hcells]
      rfl
    have hfront : (cells.take (s.offset + s.length)).length = s.offset + s.length := by
      rw [List.length_take]
      omega
    refine ⟨⟨⟨_, hwritten, ?_⟩, hroom⟩, ?_⟩
    · rw [List.length_append, hfront, List.length_append, List.length_drop]
      show s.offset + s.capacity ≤ _
      omega
    · rw [read, hwritten, Option.getD_some, read, hcells, Option.getD_some]
      show ((cells.take (s.offset + s.length) ++ _).drop s.offset).take (s.length + xs.length) = _
      rw [List.drop_append_of_le_length (by omega), List.drop_take]
      have hwindow : ((cells.drop s.offset).take (s.offset + s.length - s.offset)).length =
          s.length := by
        rw [List.length_take, List.length_drop]
        omega
      rw [List.take_append, hwindow, List.take_of_length_le (by omega), Nat.add_sub_cancel_left,
        Nat.add_sub_cancel_left, List.take_left]
  · simp only [if_neg hroom]
    have hnew : (heap ++ [s.read heap ++
        (xs ++ List.replicate (spare (s.length + xs.length)) zero)])[
          heap.length]? = some (s.read heap ++
            (xs ++ List.replicate (spare (s.length + xs.length)) zero)) := by
      rw [List.getElem?_append_right (Nat.le_refl _), Nat.sub_self]
      rfl
    refine ⟨⟨⟨_, hnew, ?_⟩, ?_⟩, ?_⟩
    · rw [List.length_append, List.length_append, List.length_replicate, length_read h]
      show 0 + (s.length + xs.length + spare (s.length + xs.length)) ≤ _
      omega
    · show s.length + xs.length ≤ s.length + xs.length + spare (s.length + xs.length)
      omega
    · rw [read, hnew, Option.getD_some]
      show ((s.read heap ++ (xs ++ _)).drop 0).take (s.length + xs.length) = _
      rw [List.drop_zero, ← List.append_assoc]
      apply List.take_left'
      rw [List.length_append, length_read h]

end Slice

end ServerlessHarness.Library
