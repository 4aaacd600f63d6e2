import Mathlib.Data.List.Nodup

/-!
# What was used last

`recents` of a history, its latest use first, is the things that were used, without repetition and
by their last use. The first ones of it are kept up by moving what is used to the front.
-/

set_option autoImplicit false

namespace ServerlessHarness.Library

variable {α : Type} [DecidableEq α]

def recents : List α → List α
  | [] => []
  | a :: uses => a :: (recents uses).erase a

theorem nodup_recents (uses : List α) : (recents uses).Nodup := by
  induction uses with
  | nil => exact List.nodup_nil
  | cons a uses ih =>
    rw [recents, List.nodup_cons]
    exact ⟨ih.not_mem_erase, ih.erase a⟩

theorem take_erase (a : α) (n : ℕ) (l : List α) :
    (l.erase a).take n = ((l.take (n + 1)).erase a).take n := by
  induction l generalizing n with
  | nil => rfl
  | cons b l ih =>
    rw [List.take_succ_cons]
    by_cases hb : b = a
    · subst hb
      rw [List.erase_cons_head, List.erase_cons_head, List.take_take, Nat.min_self]
    · rw [List.erase_cons_tail (by simpa using hb), List.erase_cons_tail (by simpa using hb)]
      cases n with
      | zero => rfl
      | succ n => rw [List.take_succ_cons, List.take_succ_cons, ih]

@[simp] theorem mem_recents {a : α} {uses : List α} : a ∈ recents uses ↔ a ∈ uses := by
  induction uses with
  | nil => rfl
  | cons b uses ih =>
    by_cases hab : a = b
    · simp [recents, hab]
    · simp [recents, hab, ih]

/-- Later uses come first, and only what was not used again follows them. -/
theorem recents_append (later uses : List α) :
    recents (later ++ uses) = recents later ++ (recents uses).filter fun a => a ∉ later := by
  induction later with
  | nil => simp [recents]
  | cons a later ih =>
    rw [List.cons_append, recents, recents, (nodup_recents _).erase_eq_filter,
      (nodup_recents _).erase_eq_filter, ih, List.filter_append, List.filter_filter,
        List.cons_append]
    congr 2
    refine List.filter_congr ?_
    intro b _
    by_cases hb : b = a
    · simp [hb]
    · simp [hb]

/-- Fewer than `n` others were used since. -/
theorem mem_take_recents {a : α} {later : List α} {n : ℕ} (ha : a ∉ later)
    (hn : (recents later).length < n) (uses : List α) :
    a ∈ (recents (later ++ a :: uses)).take n := by
  rw [recents_append, recents, List.filter_cons_of_pos (by simpa using ha), List.take_append]
  apply List.mem_append_right
  obtain ⟨m, hm⟩ := Nat.exists_eq_add_of_lt hn
  rw [show n - (recents later).length = m + 1 by omega, List.take_succ_cons]
  exact List.mem_cons_self

/-- INTERNAL: **the most recent ones move up by one use.** -/
theorem take_recents_cons (a : α) (n : ℕ) (uses : List α) :
    (recents (a :: uses)).take n = (a :: ((recents uses).take n).erase a).take n := by
  cases n with
  | zero => rfl
  | succ n => rw [recents, List.take_succ_cons, List.take_succ_cons, take_erase]

end ServerlessHarness.Library
