import Mathlib.Order.Bounds.Defs
import Mathlib.Data.List.Infix
import ServerlessHarness.Library.CommonSubsequence
import ServerlessHarness.Model.Mocactl.Diff

/-!
# The diff is a shortest one

Each cell of the table is the length of a longest common subsequence of two suffixes; it is at most
the number of cells, so that 32 bits hold it. The walk spells both lists whatever the table says,
and with the table it loses no line that could be common (`walk_context`).
-/

set_option autoImplicit false

namespace ServerlessHarness.Mocactl

open Library

/-! ## The lines of either side -/

/-- The texts of the lines of some kinds, in order. -/
def texts (p : Kind → Bool) (lines : List DiffLine) : List Units :=
  (lines.filter fun l => p l.kind).map DiffLine.text

/-- The text before the edit: context and removed lines. -/
def oldLines : List DiffLine → List Units := texts fun k => k == .context || k == .remove

/-- The text after the edit: context and added lines. -/
def newLines : List DiffLine → List Units := texts fun k => k == .context || k == .add

def contextLines : List DiffLine → List Units := texts fun k => k == .context

theorem texts_cons (p : Kind → Bool) (l : DiffLine) (lines : List DiffLine) :
    texts p (l :: lines) = if p l.kind then l.text :: texts p lines else texts p lines := by
  unfold texts
  by_cases h : p l.kind <;> simp [h]

theorem texts_append (p : Kind → Bool) (lines more : List DiffLine) :
    texts p (lines ++ more) = texts p lines ++ texts p more := by
  simp [texts]

/-- Lines of one kind. -/
theorem texts_map (p : Kind → Bool) (k : Kind) (l : List Units) :
    texts p (l.map (DiffLine.mk k)) = if p k then l else [] := by
  induction l with
  | nil => cases p k <;> rfl
  | cons x l ih =>
    rw [List.map_cons, texts_cons, ih]
    cases p k <;> rfl

@[simp] theorem contextLines_context (x : Units) (lines : List DiffLine) :
    contextLines (⟨.context, x⟩ :: lines) = x :: contextLines lines := rfl

@[simp] theorem contextLines_remove (x : Units) (lines : List DiffLine) :
    contextLines (⟨.remove, x⟩ :: lines) = contextLines lines := rfl

@[simp] theorem contextLines_add (x : Units) (lines : List DiffLine) :
    contextLines (⟨.add, x⟩ :: lines) = contextLines lines := rfl

theorem texts_sublist {p q : Kind → Bool} (h : ∀ k, p k = true → q k = true)
    (lines : List DiffLine) :
    (texts p lines).Sublist (texts q lines) :=
  (List.monotone_filter_right lines fun l => h l.kind).map DiffLine.text

theorem walk_lines (dp : ℕ → ℕ → ℕ) (i j : ℕ) (a b : List Units) :
    oldLines (walk dp i j a b) = a ∧ newLines (walk dp i j a b) = b := by
  fun_induction walk dp i j a b with
  | case1 i j b => exact ⟨texts_map _ .add b, texts_map _ .add b⟩
  | case2 i j x xs => exact ⟨texts_map _ .remove (x :: xs), texts_map _ .remove (x :: xs)⟩
  | case3 i j xs x ys ih => simp_all [oldLines, newLines, texts_cons]
  | case4 i j x xs y ys hxy hdp ih => simp_all [oldLines, newLines, texts_cons]
  | case5 i j x xs y ys hxy hdp ih => simp_all [oldLines, newLines, texts_cons]

/-- A diff spells both texts. -/
theorem diffLines_lines (a b : List Units) :
    oldLines (diffLines a b) = a ∧ newLines (diffLines a b) = b := by
  unfold diffLines
  split
  · simp [oldLines, newLines, texts_append, texts_map]
  · exact walk_lines _ 0 0 a b

/-! ## The table -/

theorem headD_map_tails (f : List Units → ℕ) (l : List Units) : (l.tails.map f).headD 0 = f l := by
  cases l <;> rfl

theorem fillRow_eq (x : Units) (xs b : List Units) (h : (x :: xs).length * b.length < 2 ^ 32) :
    fillRow x b (b.tails.map (lcsLength xs)) = b.tails.map (lcsLength (x :: xs)) := by
  induction b with
  | nil => simp [fillRow]
  | cons y ys ih =>
    have hright := ih (by
      rw [List.length_cons (a := y), Nat.mul_succ] at h
      omega)
    have hcell := Nat.mod_eq_of_lt (Nat.lt_of_le_of_lt (lcsLength_le_mul (x :: xs) (y :: ys)) h)
    rw [lcsLength] at hcell
    simp only [List.tails_cons, List.map_cons, fillRow, List.tail_cons, List.headD_cons, hright,
      headD_map_tails, toUint32, hcell, lcsLength]

/-- INTERNAL: **the table is that of all pairs of suffixes**. -/
theorem table_eq (a b : List Units) (h : a.length * b.length < 2 ^ 32) :
    table a b = a.tails.map fun xs => b.tails.map (lcsLength xs) := by
  induction a with
  | nil =>
    have hzero : lcsLength ([] : List Units) = fun _ => 0 := by
      funext b
      rw [lcsLength]
    simp [table, hzero]
  | cons x xs ih =>
    have hbelow := ih (by
      rw [List.length_cons, Nat.succ_mul] at h
      omega)
    have hhead : (table xs b).headD [] = b.tails.map (lcsLength xs) := by
      rw [hbelow]
      cases xs <;> rfl
    simp only [table, hhead, fillRow_eq x xs b h, List.tails_cons, List.map_cons]
    rw [hbelow]

theorem getElem?_tails {l : List Units} {i : ℕ} (hi : i ≤ l.length) :
    l.tails[i]? = some (l.drop i) := by
  have hlt : i < l.tails.length := by
    rw [List.length_tails]
    omega
  rw [List.getElem?_eq_getElem hlt, List.getElem_tails]

/-- A cell is the length of a longest common subsequence of two suffixes. -/
theorem cell_table {a b : List Units} (h : a.length * b.length < 2 ^ 32) {i j : ℕ}
    (hi : i ≤ a.length)
    (hj : j ≤ b.length) : cell (table a b) i j = lcsLength (a.drop i) (b.drop j) := by
  rw [cell, table_eq a b h]
  simp [getElem?_tails hi, getElem?_tails hj]

/-! ## The walk -/

/-- INTERNAL: **the walk keeps as many lines as can be kept**, if the table is right from here
on. -/
theorem walk_context (dp : ℕ → ℕ → ℕ) (i j : ℕ) (a b : List Units)
    (h : ∀ k l, k ≤ a.length → l ≤ b.length →
      dp (i + k) (j + l) = lcsLength (a.drop k) (b.drop l)) :
    (contextLines (walk dp i j a b)).length = lcsLength a b := by
  fun_induction walk dp i j a b with
  | case1 i j b => simp [contextLines, texts_map, lcsLength]
  | case2 i j x xs => rw [contextLines, texts_map, lcsLength_nil]; rfl
  | case3 i j xs x ys ih =>
    have hrest := ih fun k l hk hl => by
      have hnext := h (k + 1) (l + 1) (Nat.succ_le_succ hk) (Nat.succ_le_succ hl)
      rwa [← Nat.add_assoc, ← Nat.add_assoc, Nat.add_right_comm i, Nat.add_right_comm j] at hnext
    rw [contextLines_context, List.length_cons, lcsLength, if_pos rfl, hrest]
  | case4 i j x xs y ys hxy hdp ih =>
    have hrest := ih fun k l hk hl => by
      have hnext := h (k + 1) l (Nat.succ_le_succ hk) hl
      rwa [← Nat.add_assoc, Nat.add_right_comm i] at hnext
    have hdown : dp (i + 1) j = lcsLength xs (y :: ys) := h 1 0 (by simp) (by simp)
    have hright : dp i (j + 1) = lcsLength (x :: xs) ys := h 0 1 (by simp) (by simp)
    rw [hdown, hright] at hdp
    rw [contextLines_remove, hrest, lcsLength, if_neg hxy, Nat.max_eq_left hdp]
  | case5 i j x xs y ys hxy hdp ih =>
    have hrest := ih fun k l hk hl => by
      have hnext := h k (l + 1) hk (Nat.succ_le_succ hl)
      rwa [← Nat.add_assoc, Nat.add_right_comm j] at hnext
    have hdown : dp (i + 1) j = lcsLength xs (y :: ys) := h 1 0 (by simp) (by simp)
    have hright : dp i (j + 1) = lcsLength (x :: xs) ys := h 0 1 (by simp) (by simp)
    rw [hdown, hright] at hdp
    rw [contextLines_add, hrest, lcsLength, if_neg hxy, Nat.max_eq_right (Nat.le_of_not_le hdp)]

/-- The context lines are a common subsequence. -/
theorem contextLines_sublist (a b : List Units) :
    (contextLines (diffLines a b)).Sublist a ∧ (contextLines (diffLines a b)).Sublist b := by
  obtain ⟨ha, hb⟩ := diffLines_lines a b
  have hold : (contextLines (diffLines a b)).Sublist (oldLines (diffLines a b)) :=
    texts_sublist (fun k hk => by simp [hk]) _
  have hnew : (contextLines (diffLines a b)).Sublist (newLines (diffLines a b)) :=
    texts_sublist (fun k hk => by simp [hk]) _
  rw [ha] at hold
  rw [hb] at hnew
  exact ⟨hold, hnew⟩

/-- The diff spells both texts, and up to `maxCells` its context lines are as many as any common
subsequence of the two can have. -/
theorem diffLines_longest (a b : List Units) :
    oldLines (diffLines a b) = a ∧ newLines (diffLines a b) = b ∧
      (a.length * b.length ≤ maxCells →
        IsGreatest {n | ∃ s : List Units, s.Sublist a ∧ s.Sublist b ∧ s.length = n}
          (contextLines (diffLines a b)).length) := by
  refine ⟨(diffLines_lines a b).1, (diffLines_lines a b).2, ?_⟩
  intro hcells
  constructor
  · exact ⟨contextLines (diffLines a b), (contextLines_sublist a b).1, (contextLines_sublist a b).2,
      rfl⟩
  · rintro n ⟨s, ha, hb, rfl⟩
    have hsize : a.length * b.length < 2 ^ 32 := Nat.lt_of_le_of_lt hcells (by decide)
    rw [diffLines, if_neg (Nat.not_lt.mpr hcells)]
    rw [walk_context]
    · exact length_le_lcsLength ha hb
    · intro k l hk hl
      rw [Nat.zero_add, Nat.zero_add]
      exact cell_table hsize hk hl

end ServerlessHarness.Mocactl
