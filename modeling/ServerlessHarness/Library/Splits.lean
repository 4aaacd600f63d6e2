import Mathlib.Data.Nat.Notation

/-!
# Splitting a list that grows at its end

A log or a history is extended by one element at a time, while a statement about it picks an element
and what stands before and after it.
-/

set_option autoImplicit false

namespace ServerlessHarness.Library

universe u

theorem split_append_singleton {α : Type u} {l before after : List α} {x e : α}
    (h : l ++ [x] = before ++ e :: after) :
    l = before ∧ x = e ∧ after = [] ∨ ∃ rest, after = rest ++ [x] ∧ l = before ++ e :: rest := by
  rcases List.eq_nil_or_concat after with rfl | ⟨rest, y, rfl⟩
  · obtain ⟨hl, hx⟩ := List.append_inj' h rfl
    exact Or.inl ⟨hl, List.head_eq_of_cons_eq hx, rfl⟩
  · rw [List.concat_eq_append, ← List.cons_append, ← List.append_assoc] at h
    obtain ⟨hl, hx⟩ := List.append_inj' h rfl
    rw [List.concat_eq_append, List.head_eq_of_cons_eq hx]
    exact Or.inr ⟨rest, rfl, hl⟩

/-- What holds of the elements so far and of the new one holds of all. -/
theorem forall_mem_concat {α : Type u} {l : List α} {x : α} {P : α → Prop} (h : ∀ a ∈ l, P a)
    (hx : P x) : ∀ a ∈ l ++ [x], P a :=
  List.forall_mem_append.mpr ⟨h, List.forall_mem_singleton.mpr hx⟩

end ServerlessHarness.Library
