import Mathlib.Data.List.Nodup
import ServerlessHarness.Library.Splits

/-!
# Numbered slots

A list whose elements are referred to by their positions: objects that are created at the end and
updated in place. What is found at a position after each kind of update, as `some`-statements: they
chain without a case split on whether a position is in range.
-/

set_option autoImplicit false

namespace ServerlessHarness.Library

universe u v

variable {α : Type u} {l : List α} {i j : Nat} {a b : α}

theorem lt_of_slot (h : l[i]? = some a) : i < l.length := (List.getElem?_eq_some_iff.mp h).1

theorem slot_set_self (h : l[i]? = some a) : (l.set i b)[i]? = some b :=
  List.getElem?_set_self (lt_of_slot h)

theorem set_slot_self (h : l[i]? = some a) : l.set i a = l := by
  obtain ⟨hlt, rfl⟩ := List.getElem?_eq_some_iff.mp h
  exact List.set_getElem_self hlt

theorem slot_of_set (h : (l.set i a)[j]? = some b) : i = j ∧ a = b ∨ i ≠ j ∧ l[j]? = some b := by
  rw [List.getElem?_set] at h
  by_cases hij : i = j
  · rw [if_pos hij] at h
    split at h
    · exact Or.inl ⟨hij, Option.some.inj h⟩
    · cases h
  · rw [if_neg hij] at h
    exact Or.inr ⟨hij, h⟩

variable {f : α → α}

theorem slot_modify_self (h : l[i]? = some a) : (l.modify i f)[i]? = some (f a) := by
  simp [h]

theorem slot_modify_ne (h : i ≠ j) : (l.modify i f)[j]? = l[j]? := by
  simp [h]

theorem slot_of_modify (h : (l.modify i f)[j]? = some b) :
    (i = j ∧ ∃ a, l[j]? = some a ∧ f a = b) ∨ i ≠ j ∧ l[j]? = some b := by
  by_cases hij : i = j
  · subst hij
    rw [List.getElem?_modify, Option.map_eq_map, Option.map_eq_some_iff] at h
    obtain ⟨a, ha, hb⟩ := h
    rw [if_pos rfl] at hb
    exact Or.inl ⟨rfl, a, ha, hb⟩
  · rw [slot_modify_ne hij] at h
    exact Or.inr ⟨hij, h⟩

theorem mem_modify (h : b ∈ l.modify i f) : b ∈ l ∨ ∃ a, l[i]? = some a ∧ b = f a := by
  obtain ⟨j, hj⟩ := List.getElem?_of_mem h
  rcases slot_of_modify hj with ⟨rfl, a, ha, rfl⟩ | ⟨_, hb⟩
  · exact .inr ⟨a, ha, rfl⟩
  · exact .inl (List.mem_of_getElem? hb)

theorem modify_concat (l : List α) (a : α) (f : α → α) :
    (l ++ [a]).modify l.length f = l ++ [f a] := by
  induction l with
  | nil => rfl
  | cons b l ih =>
    rw [List.cons_append, List.length_cons, List.modify_succ_cons, ih, List.cons_append]

theorem map_modify_of_eq {β : Type v} {f : α → β} {g : α → α} (h : ∀ a, f (g a) = f a) (l : List α)
    (i : ℕ) : (l.modify i g).map f = l.map f := by
  induction l generalizing i with
  | nil =>
    cases i <;> rfl
  | cons a l ih =>
    cases i with
    | zero =>
      show f (g a) :: l.map f = f a :: l.map f
      rw [h]
    | succ i =>
      show f a :: (l.modify i g).map f = f a :: l.map f
      rw [ih]

theorem slot_append (h : l[i]? = some a) (more : List α) : (l ++ more)[i]? = some a := by
  rw [List.getElem?_append_left (lt_of_slot h), h]

theorem slot_of_append (h : (l ++ [a])[j]? = some b) : l[j]? = some b ∨ j = l.length ∧ a = b := by
  rcases Nat.lt_trichotomy j l.length with hlt | heq | hgt
  · rw [List.getElem?_append_left hlt] at h
    exact Or.inl h
  · subst heq
    rw [List.getElem?_concat_length] at h
    exact Or.inr ⟨rfl, Option.some.inj h⟩
  · have hnone : (l ++ [a])[j]? = none := by
      rw [List.getElem?_eq_none_iff, List.length_append, List.length_singleton]
      exact hgt
    rw [hnone] at h
    cases h

end ServerlessHarness.Library
