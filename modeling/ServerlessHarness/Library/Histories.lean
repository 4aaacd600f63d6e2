
/-!
# Histories

A log that only grows at its end: `Justified ok log` says that each event was `ok` after the events
before it, and `Since log a b` that `a` stands in it after the last `b`.
-/

set_option autoImplicit false

namespace ServerlessHarness.Library

variable {ε : Type} {log : List ε} {a b x : ε}

/-- Each event was right after the events before it. -/
def Justified (ok : List ε → ε → Prop) (log : List ε) : Prop :=
  ∀ before e after, log = before ++ e :: after → ok before e

/-- `a` stands in the log after the last `b`. -/
def Since (log : List ε) (a b : ε) : Prop := ∃ before after, log = before ++ a :: after ∧ b ∉ after

theorem justified_nil (ok : List ε → ε → Prop) : Justified ok [] := by
  intro before e after heq
  cases before <;> cases heq

/-- INTERNAL: **the rule for one more event**. -/
theorem Justified.snoc {ok : List ε → ε → Prop} (h : Justified ok log) (ha : ok log a) :
    Justified ok (log ++ [a]) := by
  intro before e after heq
  rcases List.eq_nil_or_concat after with rfl | ⟨after, x, rfl⟩
  · obtain ⟨rfl, hlast⟩ := List.append_inj' heq rfl
    cases hlast
    exact ha
  · rw [List.concat_eq_append, ← List.cons_append, ← List.append_assoc] at heq
    obtain ⟨hinit, -⟩ := List.append_inj' heq rfl
    exact h before e after hinit

theorem since_snoc_self (log : List ε) (a b : ε) : Since (log ++ [a]) a b :=
  ⟨log, [], rfl, List.not_mem_nil⟩

theorem Since.snoc (h : Since log a b) {e : ε} (he : e ≠ b) : Since (log ++ [e]) a b := by
  obtain ⟨before, after, rfl, hb⟩ := h
  refine ⟨before, after ++ [e], ?_, ?_⟩
  · rw [List.append_assoc, List.cons_append]
  · intro hmem
    rcases List.mem_append.mp hmem with hmem | hmem
    · exact hb hmem
    · exact he (List.eq_of_mem_singleton hmem).symm

end ServerlessHarness.Library
