import ServerlessHarness.Model.VmPool.Workspace

/-!
# What the workspace names rule out

An accepted key is an ordinary path element, so it resolves to a child of the workspace
root, and different keys to different children. A tombstone is a child of the same root
whose name starts with a dot, and the probe's directory one whose name starts with an
underscore; no accepted key starts with either.
-/

set_option autoImplicit false

namespace ServerlessHarness.VmPool

open Library

/-- The cleaned workspace root. -/
def workspaceRoot (cfg : Config) : SlashPath := SlashPath.clean cfg.workspaceRoot

variable {k : Key} {cfg : Config} {d : SlashPath}

theorem validKey_of_checkKey (h : checkKey k = .ok ()) : validKey k = true := by
  unfold checkKey at h
  split at h
  · cases h
  · split at h
    · assumption
    · cases h

theorem validKey_head (h : validKey k = true) :
    ∃ c cs, k.toList = c :: cs ∧ isKeyStart c = true := by
  unfold validKey at h
  cases hk : k.toList with
  | nil => simp [hk] at h
  | cons c cs =>
    simp only [hk, Bool.and_eq_true] at h
    exact ⟨c, cs, rfl, h.1.1⟩

theorem validKey_noSlash (h : validKey k = true) : '/' ∉ k.toList := by
  unfold validKey at h
  cases hk : k.toList with
  | nil => simp
  | cons c cs =>
    simp only [hk, Bool.and_eq_true, List.all_eq_true] at h
    obtain ⟨⟨hc, hcs⟩, -⟩ := h
    intro hmem
    rcases List.mem_cons.mp hmem with rfl | hmem
    · exact absurd hc (by decide)
    · exact absurd (hcs '/' hmem) (by decide)

theorem ordinary_of_head {s : String} {c : Char} {cs : List Char} (hs : s.toList = c :: cs)
    (hc : c ≠ '.') (hslash : '/' ∉ s.toList) : SlashPath.Ordinary s := by
  refine ⟨?_, ?_, ?_, hslash⟩
  · rintro rfl
    simp at hs
  · rintro rfl
    simp at hs
    exact hc hs.1.symm
  · rintro rfl
    simp at hs
    exact hc hs.1.symm

theorem validKey_ordinary (h : validKey k = true) : SlashPath.Ordinary k := by
  obtain ⟨c, cs, hk, hc⟩ := validKey_head h
  refine ordinary_of_head hk ?_ (validKey_noSlash h)
  rintro rfl
  exact absurd hc (by decide)

theorem workspaceDir_of_validKey (cfg : Config) (h : validKey k = true) :
    workspaceDir cfg k = .ok ((workspaceRoot cfg).join k) := by
  have ho := validKey_ordinary h
  unfold workspaceDir
  simp only [workspaceRoot]
  rw [if_neg]
  rintro (hd | hd)
  · exact hd (SlashPath.dir_join ho)
  · exact SlashPath.join_ne_self ho hd

theorem noSlash_repr (n : Nat) : '/' ∉ n.repr.toList := by
  intro h
  rw [Nat.toList_repr] at h
  exact absurd (Nat.isDigit_of_mem_toDigits (by decide) (by decide) h) (by decide)

theorem noSlash_toString_int (z : Int) : '/' ∉ (toString z).toList := by
  rw [Int.toString_eq_repr, Int.repr_eq_if]
  split
  · exact noSlash_repr _
  · simpa using noSlash_repr _

/-- The directory is a tombstone under the root, made from the directory of an accepted
key. -/
def IsTombstone (cfg : Config) (d : SlashPath) : Prop :=
  ∃ k nano seq, validKey k = true ∧ d = tombstone ((workspaceRoot cfg).join k) nano seq

theorem IsTombstone.exists_join (h : IsTombstone cfg d) :
    ∃ e cs, d = (workspaceRoot cfg).join e ∧ SlashPath.Ordinary e ∧ e.toList = '.' :: cs := by
  obtain ⟨k, nano, seq, hk, rfl⟩ := h
  have ho := validKey_ordinary hk
  have hlist : (tombstonePrefix ++ k ++ "-" ++ toString nano ++ "-" ++ toString seq).toList =
      '.' :: ("reclaiming-".toList ++ k.toList ++ ['-'] ++ (toString nano).toList ++ ['-'] ++
        (toString seq).toList) := by
    simp [tombstonePrefix]
  refine ⟨_, _, ?_, ?_, hlist⟩
  · unfold tombstone
    rw [SlashPath.dir_join ho, SlashPath.base_join ho]
  · have hslash : '/' ∉ (tombstonePrefix ++ k ++ "-" ++ toString nano ++ "-" ++
        toString seq).toList := by
      rw [hlist]
      have h1 := validKey_noSlash hk
      have h2 := noSlash_toString_int nano
      have h3 : '/' ∉ (toString seq).toList := noSlash_repr seq
      simp only [List.mem_cons, List.mem_append, not_or]
      exact ⟨by decide, ⟨⟨⟨⟨by decide, h1⟩, by decide, by simp⟩, h2⟩, by decide, by simp⟩, h3⟩
    refine ⟨?_, ?_, ?_, hslash⟩ <;>
    · intro h
      rw [h] at hlist
      simp at hlist

theorem IsTombstone.not_below (h : IsTombstone cfg d) (hk : validKey k = true) :
    ¬ d.below ((workspaceRoot cfg).join k) := by
  obtain ⟨e, cs, rfl, he, hcs⟩ := h.exists_join
  rw [SlashPath.below_join he (validKey_ordinary hk)]
  rintro rfl
  obtain ⟨c, cs', hc, hstart⟩ := validKey_head hk
  rw [hcs] at hc
  cases hc
  exact absurd hstart (by decide)

theorem probeKey_ordinary : SlashPath.Ordinary probeKey :=
  ⟨by decide, by decide, by decide, by decide⟩

theorem IsTombstone.not_below_probeDir (h : IsTombstone cfg d) :
    ¬ d.below (probeDir cfg) := by
  obtain ⟨e, cs, rfl, he, hcs⟩ := h.exists_join
  show ¬ SlashPath.below _ ((workspaceRoot cfg).join probeKey)
  rw [SlashPath.below_join he probeKey_ordinary]
  rintro rfl
  simp [probeKey] at hcs

theorem below_join_key {k' : Key} (hk : validKey k = true) (hk' : validKey k' = true) :
    SlashPath.below ((workspaceRoot cfg).join k) ((workspaceRoot cfg).join k') ↔ k = k' :=
  SlashPath.below_join (validKey_ordinary hk) (validKey_ordinary hk')

theorem not_below_probeDir (hk : validKey k = true) :
    ¬ SlashPath.below ((workspaceRoot cfg).join k) (probeDir cfg) := by
  show ¬ SlashPath.below _ ((workspaceRoot cfg).join probeKey)
  rw [SlashPath.below_join (validKey_ordinary hk) probeKey_ordinary]
  rintro rfl
  exact absurd hk (by decide)

end ServerlessHarness.VmPool
