import Mathlib.Init

/-!
# Programs with a bound on their nesting

`ExceptT ε Option α` is a program that returns an `α`, throws an `ε` or comes to the bound that its
recursion was given. `Ends x Q E` says that `x` does not come to its bound, and judges what it
returns or throws. There is one rule for each construct a program is built from.
-/

set_option autoImplicit false

namespace ServerlessHarness.Library

universe u

variable {ε α β : Type u}

/-- `x` does not come to its bound, and what it returns or throws is as said. -/
def Ends (x : ExceptT ε Option α) (Q : α → Prop) (E : ε → Prop) : Prop :=
  match x.run with
  | none => False
  | some (.ok a) => Q a
  | some (.error e) => E e

section Ends

variable {x : ExceptT ε Option α} {Q : α → Prop} {E : ε → Prop}

theorem ends_pure {a : α} : Ends (pure a) Q E ↔ Q a := Iff.rfl

theorem Ends.bind {f : α → ExceptT ε Option β} {Q : β → Prop}
    (h : Ends x (fun a => Ends (f a) Q E) E) : Ends (x >>= f) Q E := by
  unfold Ends at h
  cases hx : x.run with
  | none =>
    rw [hx] at h
    exact h.elim
  | some outcome =>
    rw [hx] at h
    have hrun : (x >>= f).run = ExceptT.bindCont f outcome := by
      show x.run.bind (ExceptT.bindCont f) = _
      rw [hx, Option.bind_some]
    unfold Ends
    rw [hrun]
    cases outcome <;> exact h

theorem Ends.mono {Q' : α → Prop} (h : Ends x Q E) (hq : ∀ a, Q a → Q' a) : Ends x Q' E := by
  unfold Ends at *
  split
  · rename_i hx
    rw [hx] at h
    exact h
  · rename_i a hx
    rw [hx] at h
    exact hq a h
  · rename_i e hx
    rw [hx] at h
    exact h

theorem ends_iff : Ends x Q E ↔
    ∃ outcome, x.run = some outcome ∧ (∀ a, outcome = .ok a → Q a) ∧
      ∀ e, outcome = .error e → E e := by
  unfold Ends
  constructor
  · intro h
    split at h
    · exact h.elim
    · rename_i a hx
      refine ⟨.ok a, hx, ?_, by rintro e ⟨⟩⟩
      rintro a ⟨⟩
      exact h
    · rename_i e hx
      refine ⟨.error e, hx, by rintro a ⟨⟩, ?_⟩
      rintro e ⟨⟩
      exact h
  · rintro ⟨outcome, hx, hok, herror⟩
    rw [hx]
    cases outcome with
    | ok a => exact hok a rfl
    | error e => exact herror e rfl

end Ends

end ServerlessHarness.Library
