import ServerlessHarness.Library.SlashPath

/-!
# A tree of directories, by inode

The directories a program works with, as a partial map from cleaned paths to inodes.
A directory has one name (there are no hard links to directories) and inodes are not
used twice, so both facts are fields: `unique` and `fresh`. `mkdirAll`, `rename` and
`removeAll` are the operations, each with one lemma that says what it does to a lookup.
-/

set_option autoImplicit false

namespace ServerlessHarness.Library

/-- Directories by path. `next` is the next inode to be allocated. -/
structure DirTree where
  lookup : SlashPath → Option Nat
  next : Nat
  fresh : ∀ p i, lookup p = some i → i < next
  unique : ∀ p q i, lookup p = some i → lookup q = some i → p = q

variable {i : Nat} {p : SlashPath}

namespace DirTree

/-- The tree that holds no directory. -/
def empty : DirTree where
  lookup _ := none
  next := 0
  fresh := by simp
  unique := by simp

/-- Creates a directory unless there is one at `p`. -/
def mkdirAll (t : DirTree) (p : SlashPath) : DirTree :=
  match h : t.lookup p with
  | some _ => t
  | none =>
    { lookup := Function.update t.lookup p (some t.next)
      next := t.next + 1
      fresh := by
        intro q i hq
        by_cases hqp : q = p
        · subst hqp
          simp at hq
          omega
        · rw [Function.update_of_ne hqp] at hq
          have := t.fresh q i hq
          omega
      unique := by
        intro q r i hq hr
        by_cases hqp : q = p <;> by_cases hrp : r = p
        · rw [hqp, hrp]
        · subst hqp
          rw [Function.update_of_ne hrp] at hr
          simp at hq
          have := t.fresh r i hr
          omega
        · subst hrp
          rw [Function.update_of_ne hqp] at hq
          simp at hr
          have := t.fresh q i hq
          omega
        · rw [Function.update_of_ne hqp] at hq
          rw [Function.update_of_ne hrp] at hr
          exact t.unique q r i hq hr }

/-- Moves the directory at `p`, if there is one, to `q`, replacing what is there. -/
def rename (t : DirTree) (p q : SlashPath) : DirTree where
  lookup r := if r = q then t.lookup p else if r = p then none else t.lookup r
  next := t.next
  fresh := by
    intro r i hr
    split_ifs at hr with h1 h2
    · exact t.fresh p i hr
    · exact t.fresh r i hr
  unique := by
    intro r r' i hr hr'
    split_ifs at hr hr' with h1 h2 h3 h4 h5
    · rw [h1, h2]
    · exact absurd (t.unique r' p i hr' hr) h3
    · exact absurd (t.unique r p i hr hr') h4
    · exact t.unique r r' i hr hr'

/-- Removes the directory at `p` and everything below it. -/
def removeAll (t : DirTree) (p : SlashPath) : DirTree where
  lookup r := if p.below r then none else t.lookup r
  next := t.next
  fresh := by
    intro r i hr
    split_ifs at hr
    exact t.fresh r i hr
  unique := by
    intro r r' i hr hr'
    split_ifs at hr hr'
    exact t.unique r r' i hr hr'

variable {t : DirTree}

theorem lookup_mkdirAll {q : SlashPath} (h : (t.mkdirAll p).lookup q = some i) :
    t.lookup q = some i ∨ q = p ∧ t.lookup p = none ∧ i = t.next := by
  unfold mkdirAll at h
  split at h
  · exact Or.inl h
  · rename_i hp
    by_cases hq : q = p
    · subst hq
      simp at h
      exact Or.inr ⟨rfl, hp, h.symm⟩
    · dsimp only at h
      rw [Function.update_of_ne hq] at h
      exact Or.inl h

theorem next_le_mkdirAll (t : DirTree) (p : SlashPath) : t.next ≤ (t.mkdirAll p).next := by
  unfold mkdirAll
  split <;> simp

@[simp] theorem next_rename (p q : SlashPath) : (t.rename p q).next = t.next := rfl

theorem lookup_rename {q r : SlashPath} (h : (t.rename p q).lookup r = some i) :
    r = q ∧ t.lookup p = some i ∨ r ≠ q ∧ r ≠ p ∧ t.lookup r = some i := by
  simp only [rename] at h
  split_ifs at h with h1 h2
  · exact Or.inl ⟨h1, h⟩
  · exact Or.inr ⟨h1, h2, h⟩

theorem lookup_removeAll {r : SlashPath} (h : (t.removeAll p).lookup r = some i) :
    ¬ p.below r ∧ t.lookup r = some i := by
  simp only [removeAll] at h
  split_ifs at h with h1
  exact ⟨h1, h⟩

end DirTree

end ServerlessHarness.Library
