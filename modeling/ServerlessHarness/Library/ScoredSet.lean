import Mathlib.Data.List.Nodup

/-!
# Sets with a score for each member

A Redis sorted set, without its order: each member has one score. A value carries that no member
comes twice. The lemmas say, for each command, what it does to the members and to their number.
-/

set_option autoImplicit false

namespace ServerlessHarness.Library

universe u

/-- Members with their scores. -/
structure ScoredSet (α : Type u) where
  entries : List (α × ℕ)
  nodup : (entries.map Prod.fst).Nodup

namespace ScoredSet

variable {α : Type u}

/-- The set without members. -/
def empty : ScoredSet α := ⟨[], List.nodup_nil⟩

/-- The members. -/
def members (s : ScoredSet α) : List α := s.entries.map Prod.fst

/-- `ZCARD`. -/
def zcard (s : ScoredSet α) : ℕ := s.entries.length

/-- The entries that meet `p`. -/
def select (s : ScoredSet α) (p : α × ℕ → Bool) : ScoredSet α :=
  ⟨s.entries.filter p, s.nodup.sublist (List.filter_sublist.map Prod.fst)⟩

/-- `ZREMRANGEBYSCORE` from `-inf` to `bound`. -/
def zremUpTo (s : ScoredSet α) (bound : ℕ) : ScoredSet α := s.select fun e => bound < e.2

variable {s : ScoredSet α} {m : α}

theorem mem_select {p : α × ℕ → Bool} (h : m ∈ (s.select p).members) : m ∈ s.members :=
  (List.filter_sublist.map Prod.fst).subset h

theorem zcard_select_le (p : α × ℕ → Bool) : (s.select p).zcard ≤ s.zcard :=
  List.length_filter_le _ _

theorem zcard_eq_length : s.zcard = s.members.length := by
  simp [zcard, members]

variable [DecidableEq α]

/-- `ZREM`. -/
def zrem (s : ScoredSet α) (a : α) : ScoredSet α := s.select fun e => e.1 ≠ a

/-- `ZADD`: a member gets the new score, anything else becomes a member. -/
def zadd (s : ScoredSet α) (a : α) (score : ℕ) : ScoredSet α :=
  if h : a ∈ s.members then
    ⟨s.entries.map fun e => if e.1 = a then (a, score) else e, by
      have hfst : (s.entries.map fun e => if e.1 = a then (a, score) else e).map Prod.fst =
          s.entries.map Prod.fst := by
        rw [List.map_map]
        apply List.map_congr_left
        intro e _
        by_cases he : e.1 = a
        · simp [he]
        · simp [he]
      rw [hfst]
      exact s.nodup⟩
  else
    ⟨s.entries ++ [(a, score)], by
      rw [List.map_append, List.nodup_append_comm]
      exact List.nodup_cons.mpr ⟨h, s.nodup⟩⟩

theorem members_zadd_of_mem {a : α} (score : ℕ) (h : a ∈ s.members) :
    (s.zadd a score).members = s.members := by
  rw [zadd, dif_pos h]
  simp only [members, List.map_map]
  apply List.map_congr_left
  intro e _
  by_cases he : e.1 = a
  · simp [he]
  · simp [he]

theorem members_zadd_of_notMem {a : α} (score : ℕ) (h : a ∉ s.members) :
    (s.zadd a score).members = s.members ++ [a] := by
  rw [zadd, dif_neg h]
  simp [members]

theorem mem_zadd {a : α} {score : ℕ} : m ∈ (s.zadd a score).members ↔ m = a ∨ m ∈ s.members := by
  by_cases h : a ∈ s.members
  · rw [members_zadd_of_mem score h]
    constructor
    · exact Or.inr
    · rintro (rfl | hm)
      · exact h
      · exact hm
  · rw [members_zadd_of_notMem score h, List.mem_append, List.mem_singleton, or_comm]

theorem zcard_zadd_of_mem {a : α} (score : ℕ) (h : a ∈ s.members) :
    (s.zadd a score).zcard = s.zcard := by
  rw [zcard_eq_length, zcard_eq_length, members_zadd_of_mem score h]

theorem zcard_zadd_le {a : α} (score : ℕ) : (s.zadd a score).zcard ≤ s.zcard + 1 := by
  by_cases h : a ∈ s.members
  · rw [zcard_zadd_of_mem score h]
    exact Nat.le_succ _
  · rw [zcard_eq_length, zcard_eq_length, members_zadd_of_notMem score h]
    simp

end ScoredSet

end ServerlessHarness.Library
