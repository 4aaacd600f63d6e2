import Mathlib.Data.List.DropRight

/-!
# Scanning a text for the first match

A matcher looks at the beginning of a text. `firstMatch` tries it at every place, from the left, as
a search with a regular expression does. If every match begins with a lead character, the text
before the first lead character is skipped; if every match contains a character, a text without it
has no match.
-/

set_option autoImplicit false

namespace ServerlessHarness.Library

universe u v

variable {α : Type u} {β : Type v}

variable {before p rest text : List α} {a : α}

section Strip

variable [DecidableEq α]

/-- What follows a fixed beginning. -/
def strip : List α → List α → Option (List α)
  | [], text => some text
  | _ :: _, [] => none
  | a :: p, b :: text => if a = b then strip p text else none

theorem strip_append (p text : List α) : strip p (p ++ text) = some text := by
  induction p with
  | nil => rfl
  | cons a p ih =>
    rw [List.cons_append, strip, if_pos rfl]
    exact ih

theorem eq_append_of_strip (h : strip p text = some rest) :
    text = p ++ rest := by
  induction p generalizing text with
  | nil =>
    cases h
    rfl
  | cons a p ih =>
    cases text with
    | nil => cases h
    | cons b text =>
      rw [strip] at h
      split at h
      · rename_i hab
        rw [← hab, ih h, List.cons_append]
      · cases h

/-- A beginning that the text is long enough for. -/
theorem strip_append_of_le (h : p.length ≤ text.length) (more : List α) :
    strip p (text ++ more) = (strip p text).map fun rest => rest ++ more := by
  induction p generalizing text with
  | nil => rfl
  | cons a p ih =>
    cases text with
    | nil => cases h
    | cons b text =>
      rw [List.cons_append, strip, strip]
      by_cases hab : a = b
      · rw [if_pos hab, if_pos hab]
        exact ih (Nat.le_of_succ_le_succ h)
      · rw [if_neg hab, if_neg hab]
        rfl

theorem strip_cons_of_ne {b : α} (p text : List α) (h : a ≠ b) :
    strip (a :: p) (b :: text) = none :=
  if_neg h

end Strip

/-! ## The first match -/

/-- The text before the first match, and the match. -/
def firstMatch (m : List α → Option β) : List α → Option (List α × β)
  | [] => (m []).map fun found => ([], found)
  | a :: text =>
    match m (a :: text) with
    | some found => some ([], found)
    | none => (firstMatch m text).map fun r => (a :: r.1, r.2)

variable {m : List α → Option β}

theorem firstMatch_of_eq_some {found : β} (h : m text = some found) :
    firstMatch m text = some ([], found) := by
  cases text with
  | nil =>
    rw [firstMatch, h]
    rfl
  | cons a text => rw [firstMatch, h]

theorem firstMatch_append {lead : α} (hm : ∀ a text, a ≠ lead → m (a :: text) = none)
    {skipped : List α} (hlead : lead ∉ skipped) (text : List α) :
    firstMatch m (skipped ++ text) = (firstMatch m text).map fun r => (skipped ++ r.1, r.2) := by
  induction skipped with
  | nil =>
    cases hfirst : firstMatch m text with
    | none | some =>
      rw [List.nil_append, hfirst]
      rfl
  | cons a skipped ih =>
    rw [List.mem_cons, not_or] at hlead
    rw [List.cons_append, firstMatch, hm a _ (Ne.symm hlead.1), ih hlead.2, Option.map_map]
    rfl

theorem exists_of_firstMatch {found : β} (h : firstMatch m text = some (before, found)) :
    ∃ rest, text = before ++ rest ∧ m rest = some found := by
  induction text generalizing before with
  | nil =>
    rw [firstMatch] at h
    obtain ⟨f, hf, heq⟩ := Option.map_eq_some_iff.mp h
    cases heq
    exact ⟨[], rfl, hf⟩
  | cons a text ih =>
    rw [firstMatch] at h
    split at h
    · rename_i f hf
      cases h
      exact ⟨a :: text, rfl, hf⟩
    · obtain ⟨r, hr, heq⟩ := Option.map_eq_some_iff.mp h
      cases heq
      obtain ⟨rest, hrest, hfound⟩ := ih hr
      refine ⟨rest, ?_, hfound⟩
      rw [List.cons_append, ← hrest]

/-! ## A fixed text -/

section Fixed

variable [DecidableEq α] {p text : List α}

theorem firstMatch_strip (h : firstMatch (strip p) text = some (before, rest)) :
    text = before ++ (p ++ rest) := by
  obtain ⟨found, rfl, hfound⟩ := exists_of_firstMatch h
  rw [eq_append_of_strip hfound]

/-- There is a match if the text occurs. -/
theorem isSome_firstMatch_strip : (firstMatch (strip p) text).isSome = true ↔ p <:+: text := by
  constructor
  · intro h
    obtain ⟨⟨before, rest⟩, hfound⟩ := Option.isSome_iff_exists.mp h
    exact ⟨before, rest, by rw [firstMatch_strip hfound, List.append_assoc]⟩
  · rintro ⟨before, rest, rfl⟩
    rw [List.append_assoc]
    induction before with
    | nil =>
      rw [List.nil_append, firstMatch_of_eq_some (strip_append p rest)]
      rfl
    | cons a before ih =>
      rw [List.cons_append, firstMatch]
      cases strip p (a :: (before ++ (p ++ rest))) with
      | none => rwa [Option.isSome_map]
      | some found => rfl

/-- What follows the first match does not matter for it. -/
theorem firstMatch_strip_of_rest
    (h : firstMatch (strip p) (before ++ (p ++ rest)) = some (before, rest)) (other : List α) :
    firstMatch (strip p) (before ++ (p ++ other)) = some (before, other) := by
  induction before with
  | nil => exact firstMatch_of_eq_some (strip_append p other)
  | cons a before ih =>
    rw [List.cons_append, firstMatch] at h ⊢
    have hlong : p.length ≤ (a :: (before ++ p)).length := by
      rw [List.length_cons, List.length_append]
      omega
    have hstrip : ∀ more, strip p (a :: (before ++ (p ++ more))) =
        (strip p (a :: (before ++ p))).map fun r => r ++ more := by
      intro more
      rw [← strip_append_of_le hlong, List.cons_append, List.append_assoc]
    rw [hstrip] at h ⊢
    cases hhere : strip p (a :: (before ++ p)) with
    | some r =>
      rw [hhere] at h
      cases h
    | none =>
      rw [hhere] at h
      obtain ⟨r, hr, heq⟩ := Option.map_eq_some_iff.mp h
      cases heq
      rw [Option.map_none]
      simp only [ih hr, Option.map_some]

end Fixed

/-! ## Chunks -/

theorem rtake_rtake_append (n : ℕ) (l m : List α) :
    (l.rtake n ++ m).rtake n = (l ++ m).rtake n := by
  simp only [List.rtake, List.length_append, List.length_drop, List.drop_append, List.drop_drop]
  congr 2 <;> omega

/-- INTERNAL: **the carry**: what did not occur before occurs with the next chunk if it does so in
the last bytes, one fewer than its own length, with that chunk. -/
theorem infix_append_iff {l m : List α} (hp : p ≠ []) (hl : ¬p <:+: l) :
    p <:+: l ++ m ↔ p <:+: l.rtake (p.length - 1) ++ m := by
  constructor
  · rintro ⟨before, rest, heq⟩
    have hpos := List.length_pos_of_ne_nil hp
    have hstart : l.length - (p.length - 1) ≤ before.length := by
      by_contra hlt
      refine hl ⟨before, (l.drop (before ++ p).length), ?_⟩
      have hle : (before ++ p).length ≤ l.length := by
        rw [List.length_append]
        omega
      have htake := congrArg (List.take (before ++ p).length) heq
      rw [List.take_left, List.take_append_of_le_length hle] at htake
      exact (congrArg (· ++ l.drop (before ++ p).length) htake).trans (List.take_append_drop _ l)
    refine ⟨before.drop (l.length - (p.length - 1)), rest, ?_⟩
    have hdrop := congrArg (List.drop (l.length - (p.length - 1))) heq
    rw [List.append_assoc, List.drop_append_of_le_length hstart,
      List.drop_append_of_le_length (Nat.sub_le _ _)] at hdrop
    rw [List.append_assoc]
    exact hdrop
  · intro h
    refine h.trans (List.IsSuffix.isInfix ⟨l.take (l.length - (p.length - 1)), ?_⟩)
    rw [← List.append_assoc, List.rtake, List.take_append_drop]

/-! ## More text -/

/-- On texts that are long `enough` a matcher does not change its mind when more text arrives; what
it matches is long enough, and so is what has a match in it. -/
structure Settles {γ : Type v} (m : List α → Option (γ × List α)) (enough : List α → Prop) :
    Prop where
  of_match : ∀ {text r}, m text = some r → enough text
  of_suffix : ∀ {a text}, enough text → enough (a :: text)
  extend : ∀ {text}, enough text → ∀ more, m (text ++ more) = (m text).map fun r =>
    (r.1, r.2 ++ more)

theorem Settles.of_append {γ : Type v} {m : List α → Option (γ × List α)} {enough : List α → Prop}
    (h : Settles m enough) (htext : enough text) (before : List α) :
    enough (before ++ text) := by
  induction before with
  | nil => exact htext
  | cons a before ih => exact h.of_suffix ih

/-- INTERNAL: **later text does not change the first match.** -/
theorem Settles.firstMatch_append {γ : Type v} {m : List α → Option (γ × List α)}
    {enough : List α → Prop} (h : Settles m enough) {found : γ}
    (hfound : firstMatch m text = some (before, found, rest)) (more : List α) :
    firstMatch m (text ++ more) = some (before, found, rest ++ more) := by
  induction text generalizing before with
  | nil =>
    rw [firstMatch] at hfound
    obtain ⟨f, hf, heq⟩ := Option.map_eq_some_iff.mp hfound
    cases heq
    apply firstMatch_of_eq_some
    rw [h.extend (h.of_match hf), hf]
    rfl
  | cons a text ih =>
    rw [firstMatch] at hfound
    rw [List.cons_append, firstMatch, ← List.cons_append]
    cases hhere : m (a :: text) with
    | some f =>
      rw [hhere] at hfound
      cases hfound
      rw [h.extend (h.of_match hhere), hhere]
      rfl
    | none =>
      rw [hhere] at hfound
      obtain ⟨⟨skipped, r⟩, hr, heq⟩ := Option.map_eq_some_iff.mp hfound
      cases heq
      obtain ⟨s, hs, hmatch⟩ := exists_of_firstMatch hr
      have henough : enough text := by
        rw [hs]
        exact h.of_append (h.of_match hmatch) skipped
      rw [h.extend (h.of_suffix henough), hhere, ih hr]
      rfl

/-! ## A run of characters -/

theorem takeWhile_append_of_mem {p : α → Bool} (ha : a ∈ text) (hp : p a = false) (more : List α) :
    (text ++ more).takeWhile p = text.takeWhile p ∧
      (text ++ more).dropWhile p = text.dropWhile p ++ more := by
  induction text with
  | nil => cases ha
  | cons b text ih =>
    rw [List.cons_append, List.takeWhile_cons, List.takeWhile_cons, List.dropWhile_cons,
      List.dropWhile_cons]
    by_cases hb : p b = true
    · have hmem : a ∈ text := by
        rcases List.mem_cons.mp ha with rfl | hmem
        · rw [hp] at hb
          cases hb
        · exact hmem
      obtain ⟨htake, hdrop⟩ := ih hmem
      rw [if_pos hb, if_pos hb, if_pos hb, if_pos hb, htake, hdrop]
      exact ⟨rfl, rfl⟩
    · rw [if_neg hb, if_neg hb, if_neg hb, if_neg hb]
      exact ⟨rfl, rfl⟩

theorem takeWhile_append_cons {p : α → Bool} {run : List α} (hrun : ∀ b ∈ run, p b = true)
    (ha : p a = false) (text : List α) :
    (run ++ a :: text).takeWhile p = run ∧ (run ++ a :: text).dropWhile p = a :: text := by
  induction run with
  | nil =>
    rw [List.nil_append, List.takeWhile_cons, List.dropWhile_cons, ha]
    exact ⟨rfl, rfl⟩
  | cons b run ih =>
    obtain ⟨htake, hdrop⟩ := ih fun x hx => hrun x (List.mem_cons_of_mem _ hx)
    rw [List.cons_append, List.takeWhile_cons, List.dropWhile_cons, hrun b List.mem_cons_self,
      htake, hdrop]
    exact ⟨rfl, rfl⟩

end ServerlessHarness.Library
