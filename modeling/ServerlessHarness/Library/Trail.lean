import Mathlib.Data.Finset.Card
import Mathlib.Data.List.Nodup
import Mathlib.Logic.Relation

/-!
# Following a partial function

The values a program passes through when each one determines the next: `trail f n a` is all of them
from `a` on, if there is a last one among the first `n`. A trail has no repetitions, and a value
that leads back to itself is on none (`acyclic_of_trail`); where only finitely many values have a
next one, that is the only way not to end (`exists_trail`).
-/

set_option autoImplicit false

namespace ServerlessHarness.Library

universe u

variable {α : Type u} {f : α → Option α} {a b p : α} {l s : List α} {m n : ℕ}

/-- One value determines the next. -/
def Leads (f : α → Option α) (a b : α) : Prop := f a = some b

def trail (f : α → Option α) : ℕ → α → Option (List α)
  | 0, _ => none
  | n + 1, a =>
    match f a with
    | none => some [a]
    | some b => (trail f n b).map (a :: ·)

theorem trail_last (h : f a = none) : trail f (n + 1) a = some [a] := by
  rw [trail, h]

theorem trail_next (h : f a = some b) : trail f (n + 1) a = (trail f n b).map (a :: ·) := by
  rw [trail, h]

/-- A trail is one value, or a value before the trail of the next. -/
theorem trail_cases (h : trail f (n + 1) a = some l) :
    f a = none ∧ l = [a] ∨ ∃ b t, f a = some b ∧ trail f n b = some t ∧ l = a :: t := by
  cases hf : f a with
  | none =>
    rw [trail_last hf] at h
    exact Or.inl ⟨rfl, (Option.some.inj h).symm⟩
  | some b =>
    rw [trail_next hf] at h
    obtain ⟨t, ht, rfl⟩ := Option.map_eq_some_iff.mp h
    exact Or.inr ⟨b, t, rfl, ht, rfl⟩

/-- The number of steps allowed does not matter. -/
theorem trail_unique (h : trail f m a = some l) (h' : trail f n a = some s) : l = s := by
  induction m generalizing a l n s with
  | zero => cases h
  | succ m ih =>
    cases n with
    | zero => cases h'
    | succ n =>
      rcases trail_cases h with ⟨hf, rfl⟩ | ⟨b, t, hf, ht, rfl⟩
      · rw [trail_last hf] at h'
        exact Option.some.inj h'
      · rw [trail_next hf] at h'
        obtain ⟨t', ht', rfl⟩ := Option.map_eq_some_iff.mp h'
        rw [ih ht ht']

/-- From each of its values on, a trail is that value's trail. -/
theorem trail_of_mem (h : trail f n a = some l) (hp : p ∈ l) :
    ∃ m s, trail f m p = some s ∧ s.length ≤ l.length := by
  induction n generalizing a l with
  | zero => cases h
  | succ n ih =>
    rcases trail_cases h with ⟨_, rfl⟩ | ⟨b, t, _, ht, rfl⟩
    · rw [List.mem_singleton.mp hp]
      exact ⟨n + 1, [a], h, Nat.le_refl _⟩
    · rcases List.mem_cons.mp hp with rfl | hp
      · exact ⟨n + 1, p :: t, h, Nat.le_refl _⟩
      · obtain ⟨m, s, hs, hlength⟩ := ih ht hp
        exact ⟨m, s, hs, Nat.le_succ_of_le hlength⟩

theorem nodup_trail (h : trail f n a = some l) : l.Nodup := by
  induction n generalizing a l with
  | zero => cases h
  | succ n ih =>
    rcases trail_cases h with ⟨_, rfl⟩ | ⟨b, t, _, ht, rfl⟩
    · exact List.nodup_singleton a
    · apply List.nodup_cons.mpr
      refine ⟨?_, ih ht⟩
      intro hmem
      -- The trail of `a` would be no longer than its own tail.
      obtain ⟨m, s, hs, hlength⟩ := trail_of_mem ht hmem
      rw [trail_unique hs h] at hlength
      exact absurd hlength (Nat.not_succ_le_self _)

theorem mem_trail (h : trail f n a = some l) : p ∈ l ↔ Relation.ReflTransGen (Leads f) a p := by
  induction n generalizing a l with
  | zero => cases h
  | succ n ih =>
    rw [Relation.ReflTransGen.cases_head_iff]
    rcases trail_cases h with ⟨hf, rfl⟩ | ⟨b, t, hf, ht, rfl⟩
    · rw [List.mem_singleton]
      constructor
      · rintro rfl
        exact Or.inl rfl
      · rintro (rfl | ⟨b, hb, _⟩)
        · rfl
        · rw [Leads, hf] at hb
          cases hb
    · rw [List.mem_cons, ih ht]
      constructor
      · rintro (rfl | hp)
        · exact Or.inl rfl
        · exact Or.inr ⟨b, hf, hp⟩
      · rintro (rfl | ⟨c, hc, hp⟩)
        · exact Or.inl rfl
        · cases Option.some.inj (hf.symm.trans hc)
          exact Or.inr hp

theorem acyclic_of_trail (h : trail f n a = some l) (hp : Relation.ReflTransGen (Leads f) a p) :
    ¬ Relation.TransGen (Leads f) p p := by
  intro hcycle
  obtain ⟨m, s, hs, _⟩ := trail_of_mem h ((mem_trail h).mpr hp)
  obtain ⟨c, hc, hback⟩ := Relation.TransGen.head'_iff.mp hcycle
  cases m with
  | zero => cases hs
  | succ m =>
    rcases trail_cases hs with ⟨hf, _⟩ | ⟨d, t, hf, ht, rfl⟩
    · rw [Leads, hf] at hc
      cases hc
    · cases Option.some.inj (hf.symm.trans hc)
      exact (List.nodup_cons.mp (nodup_trail hs)).1 ((mem_trail ht).mpr hback)

/-- INTERNAL: **a trail ends** unless it comes back to where it was, if only the values of a finite
set have a next one. -/
theorem exists_trail [DecidableEq α] (values : Finset α)
    (hvalues : ∀ p, Relation.ReflTransGen (Leads f) a p → f p ≠ none → p ∈ values)
    (hacyclic : ∀ p, Relation.ReflTransGen (Leads f) a p → ¬ Relation.TransGen (Leads f) p p) :
    ∃ n l, trail f n a = some l := by
  -- Each step takes the value it leaves out of the set.
  induction hcard : values.card generalizing a values with
  | zero =>
    cases hf : f a with
    | none => exact ⟨1, [a], trail_last hf⟩
    | some b =>
      have hmem := hvalues a .refl (by rw [hf]; exact Option.some_ne_none b)
      rw [Finset.card_eq_zero.mp hcard] at hmem
      cases hmem
  | succ k ih =>
    cases hf : f a with
    | none => exact ⟨1, [a], trail_last hf⟩
    | some b =>
      have hmem := hvalues a .refl (by rw [hf]; exact Option.some_ne_none b)
      have hreach : ∀ p, Relation.ReflTransGen (Leads f) b p →
          Relation.ReflTransGen (Leads f) a p := fun p hp => .head hf hp
      have hrest : ∀ p, Relation.ReflTransGen (Leads f) b p → f p ≠ none → p ∈ values.erase a := by
        intro p hp hnext
        apply Finset.mem_erase.mpr
        refine ⟨?_, hvalues p (hreach p hp) hnext⟩
        rintro rfl
        exact hacyclic p .refl (Relation.TransGen.head' hf hp)
      obtain ⟨n, l, hl⟩ := ih (values.erase a) hrest (fun p hp => hacyclic p (hreach p hp))
        (by rw [Finset.card_erase_of_mem hmem, hcard, Nat.add_sub_cancel])
      exact ⟨n + 1, a :: l, by rw [trail_next hf, hl]; rfl⟩

end ServerlessHarness.Library
