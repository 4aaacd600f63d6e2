import Mathlib.Data.List.Basic

/-!
# Longest common subsequences

`lcsLength` compares heads: it takes an equal pair whenever there is one, and tries both sides
otherwise. No common subsequence is longer, so that nothing is lost by taking equal heads.
-/

set_option autoImplicit false

namespace ServerlessHarness.Library

variable {α : Type} [DecidableEq α]

def lcsLength : List α → List α → ℕ
  | [], _ => 0
  | _ :: _, [] => 0
  | x :: xs, y :: ys =>
    if x = y then lcsLength xs ys + 1 else max (lcsLength xs (y :: ys)) (lcsLength (x :: xs) ys)
termination_by a b => a.length + b.length

@[simp] theorem lcsLength_nil (a : List α) : lcsLength a [] = 0 := by
  cases a <;> rw [lcsLength]

omit [DecidableEq α] in
/-- A sublist that starts with another element than the list. -/
theorem sublist_of_cons_sublist_cons {z x : α} {s l : List α} (h : (z :: s).Sublist (x :: l))
    (hne : z ≠ x) :
    (z :: s).Sublist l := by
  cases h with
  | cons _ h => exact h
  | cons_cons _ h => exact absurd rfl hne

/-- INTERNAL: **no common subsequence is longer**. -/
theorem length_le_lcsLength {s a b : List α} (ha : s.Sublist a) (hb : s.Sublist b) :
    s.length ≤ lcsLength a b := by
  fun_induction lcsLength a b generalizing s with
  | case1 b =>
    rw [List.sublist_nil.mp ha]
    exact Nat.le_refl 0
  | case2 x xs =>
    rw [List.sublist_nil.mp hb]
    exact Nat.le_refl 0
  | case3 x xs ys ih =>
    have htail := ih ha.tail hb.tail
    rw [List.length_tail] at htail
    omega
  | case4 x xs y ys hxy ihleft ihright =>
    cases s with
    | nil => exact Nat.zero_le _
    | cons z s =>
      -- an element is skipped on the side whose head the subsequence does not start with
      by_cases hz : z = x
      · have hright := ihright ha (sublist_of_cons_sublist_cons hb (fun h => hxy (hz ▸ h)))
        exact Nat.le_trans hright (Nat.le_max_right _ _)
      · have hleft := ihleft (sublist_of_cons_sublist_cons ha hz) hb
        exact Nat.le_trans hleft (Nat.le_max_left _ _)

theorem lcsLength_le_mul (a b : List α) : lcsLength a b ≤ a.length * b.length := by
  fun_induction lcsLength a b with
  | case1 b => exact Nat.zero_le _
  | case2 x xs => exact Nat.zero_le _
  | case3 x xs ys ih =>
    rw [List.length_cons, List.length_cons, Nat.succ_mul, Nat.mul_succ]
    omega
  | case4 x xs y ys hxy ihleft ihright =>
    rw [List.length_cons, List.length_cons] at *
    rw [Nat.succ_mul, Nat.mul_succ] at *
    omega

end ServerlessHarness.Library
