import Mathlib.Data.List.Chain
import ServerlessHarness.Model.Mocactl.Diff

/-!
# What a diff shows

`collapse` says what is meant: of lines that are wanted or not, each run of lines that are not
wanted becomes one ellipsis. `trimContext` looks at the text of the line it emitted last to see
whether it is in a run, so it takes a kept line with the text of an ellipsis for the ellipsis of
the run after it.
-/

set_option autoImplicit false

namespace ServerlessHarness.Mocactl

open Library

/-! ## What is meant -/

/-- A changed line stands at most `context` lines away. -/
def NearChange (lines : List DiffLine) (i : ℕ) : Prop :=
  ∃ p ∈ lines.zipIdx, p.1.changed = true ∧ i ≤ p.2 + context ∧ p.2 ≤ i + context

instance (lines : List DiffLine) (i : ℕ) : Decidable (NearChange lines i) :=
  inferInstanceAs (Decidable (∃ p ∈ lines.zipIdx, _))

/-- A line to keep: added or removed, or a context line near such a line. -/
def Wanted (lines : List DiffLine) (p : DiffLine × ℕ) : Prop :=
  p.1.changed = true ∨ p.1.kind = .context ∧ NearChange lines p.2

instance (lines : List DiffLine) (p : DiffLine × ℕ) : Decidable (Wanted lines p) :=
  inferInstanceAs (Decidable (_ ∨ _))

/-- The lines, each with whether it is to be kept. -/
def flagged (lines : List DiffLine) : List (DiffLine × Bool) :=
  lines.zipIdx.map fun p => (p.1, decide (Wanted lines p))

/-- One ellipsis for each run of lines that are not kept. -/
def collapse : List (DiffLine × Bool) → List DiffLine
  | [] => []
  | (l, true) :: rest => l :: collapse rest
  | (_, false) :: rest => ellipsis :: collapse (rest.dropWhile fun p => !p.2)
termination_by lines => lines.length
decreasing_by
  · simp
  · exact Nat.lt_succ_of_le (List.dropWhile_suffix _).length_le

/-! ## What is emitted -/

/-- What the loop adds; `last` is the text of the last line before. -/
def emitted : Option Units → List (DiffLine × Bool) → List DiffLine
  | _, [] => []
  | _, (l, true) :: rest => l :: emitted (some l.text) rest
  | last, (_, false) :: rest =>
    if last ≠ some ellipsis.text then
      ellipsis :: emitted (some ellipsis.text) rest else emitted last rest

theorem foldl_trimStep (flags : List (DiffLine × Bool)) (out : List DiffLine) :
    flags.foldl (fun out p => trimStep out p.1 p.2) out =
      out ++ emitted (out.getLast?.map DiffLine.text) flags := by
  induction flags generalizing out with
  | nil => simp [emitted]
  | cons p flags ih =>
    obtain ⟨l, kept⟩ := p
    rw [List.foldl_cons, ih]
    cases kept with
    | true => simp [trimStep, emitted]
    | false =>
      by_cases h : out.getLast?.map DiffLine.text = some ellipsis.text
      · simp [trimStep, emitted, h]
      · simp [trimStep, emitted, h]

theorem trimContext_eq (lines : List DiffLine) :
    trimContext lines = emitted none (lines.zipIdx.map fun p => (p.1, keep lines p.2)) := by
  have h := foldl_trimStep (lines.zipIdx.map fun p => (p.1, keep lines p.2)) []
  rw [List.foldl_map] at h
  exact h

/-- Inside a run nothing is emitted. -/
theorem emitted_dropWhile (flags : List (DiffLine × Bool)) :
    emitted (some ellipsis.text) flags =
      emitted (some ellipsis.text) (flags.dropWhile fun p => !p.2) := by
  induction flags with
  | nil => rfl
  | cons p flags ih =>
    obtain ⟨l, kept⟩ := p
    cases kept with
    | true => rfl
    | false =>
      rw [emitted, if_neg (by simp), List.dropWhile_cons_of_pos rfl]
      exact ih

theorem length_emitted_le (last : Option Units) (flags : List (DiffLine × Bool)) :
    (emitted last flags).length ≤ (collapse flags).length := by
  fun_induction collapse flags generalizing last with
  | case1 => simp [emitted]
  | case2 l rest ih => simpa [emitted] using ih (some l.text)
  | case3 l rest ih =>
    have hrest := ih (some ellipsis.text)
    rw [← emitted_dropWhile] at hrest
    rw [emitted]
    split
    · simpa using hrest
    · rename_i hlast
      rw [not_not.mp hlast]
      exact Nat.le_succ_of_le hrest

/-- A line that is kept and looks like an ellipsis is not followed by one that is not kept. -/
def Unmistaken (p q : DiffLine × Bool) : Prop :=
  p.2 = true → q.2 = false → p.1.text ≠ ellipsis.text

theorem isChain_dropWhile (flags : List (DiffLine × Bool)) :
    List.IsChain Unmistaken (flags.dropWhile fun p => !p.2) ↔ List.IsChain Unmistaken flags := by
  induction flags with
  | nil => rfl
  | cons p flags ih =>
    obtain ⟨l, kept⟩ := p
    cases kept with
    | true => rfl
    | false =>
      rw [List.dropWhile_cons_of_pos rfl, ih, List.isChain_cons]
      simp [Unmistaken]

/-- INTERNAL: **the two agree where no kept line is mistaken for an ellipsis**. -/
theorem emitted_eq_collapse_iff (last : Option Units) (flags : List (DiffLine × Bool)) :
    emitted last flags = collapse flags ↔
      (∀ q ∈ flags.head?, q.2 = false → last ≠ some ellipsis.text) ∧
        List.IsChain Unmistaken flags := by
  fun_induction collapse flags generalizing last with
  | case1 => simp [emitted]
  | case2 l rest ih =>
    rw [emitted, List.cons_inj_right, ih, List.isChain_cons]
    simp [Unmistaken]
  | case3 l rest ih =>
    have hhead : ∀ q ∈ (rest.dropWhile fun p => !p.2).head?, q.2 = false →
        some ellipsis.text ≠ some ellipsis.text := by
      intro q hq hfalse
      have hnot := List.head?_dropWhile_not (fun p : DiffLine × Bool => !p.2) rest
      rw [Option.mem_def.mp hq] at hnot
      simp [hfalse] at hnot
    have hchain : List.IsChain Unmistaken ((l, false) :: rest) ↔
        List.IsChain Unmistaken (rest.dropWhile fun p => !p.2) := by
      rw [isChain_dropWhile, List.isChain_cons]
      simp [Unmistaken]
    rw [emitted, hchain]
    split
    · next hlast =>
      rw [List.cons_inj_right, emitted_dropWhile, ih]
      exact and_congr_left fun _ => iff_of_true hhead fun q _ _ => hlast
    · next hlast =>
      constructor
      · intro heq
        -- the ellipsis that is missing makes the output shorter
        have hlength := length_emitted_le last (rest.dropWhile fun p => !p.2)
        rw [not_not.mp hlast] at heq hlength
        rw [← emitted_dropWhile, heq, List.length_cons] at hlength
        omega
      · intro h
        exact absurd (not_not.mp hlast) (h.1 (l, false) rfl rfl)

/-! ## The lines that are kept -/

theorem keep_iff (lines : List DiffLine) (i : ℕ) : keep lines i = true ↔ NearChange lines i := by
  simp only [keep, List.any_eq_true, List.mem_range, Bool.and_eq_true, decide_eq_true_eq,
    NearChange]
  constructor
  · rintro ⟨d, hd, hlow, hchanged⟩
    rw [List.getD_eq_getElem?_getD, List.getElem?_map] at hchanged
    cases hline : lines[i + d - context]? with
    | none => simp [hline] at hchanged
    | some l =>
      rw [hline] at hchanged
      exact ⟨(l, i + d - context), List.mk_mem_zipIdx_iff_getElem?.mpr hline, hchanged, by grind,
        by grind⟩
  · rintro ⟨⟨l, j⟩, hmem, hchanged, hlow, hhigh⟩
    have hline := List.mk_mem_zipIdx_iff_getElem?.mp hmem
    refine ⟨j + context - i, by grind, by grind, ?_⟩
    have hplace : i + (j + context - i) - context = j := by grind
    rw [hplace, List.getD_eq_getElem?_getD, List.getElem?_map, hline]
    exact hchanged

variable {l : DiffLine} {lines : List DiffLine}

theorem nearChange_of_changed {p : DiffLine × ℕ} (hp : p ∈ lines.zipIdx) (h : p.1.changed = true) :
    NearChange lines p.2 :=
  ⟨p, hp, h, Nat.le_add_right _ _, Nat.le_add_right _ _⟩

/-- Apart from hunk lines, what the code keeps is wanted. -/
theorem keep_iff_wanted {p : DiffLine × ℕ} (hp : p ∈ lines.zipIdx)
    (h : p.1.kind = .hunk → ¬NearChange lines p.2) : keep lines p.2 = decide (Wanted lines p) := by
  rw [Bool.eq_iff_iff, keep_iff, decide_eq_true_iff]
  constructor
  · intro hnear
    cases hkind : p.1.kind with
    | add | remove => exact .inl (by simp [DiffLine.changed, hkind])
    | context => exact .inr ⟨hkind, hnear⟩
    | hunk => exact absurd hnear (h hkind)
  · rintro (hchanged | ⟨-, hnear⟩)
    · exact nearChange_of_changed hp hchanged
    · exact hnear

theorem mem_emitted {flags : List (DiffLine × Bool)} (h : (l, true) ∈ flags) (last : Option Units) :
    l ∈ emitted last flags := by
  fun_induction emitted last flags with
  | case1 => cases h
  | case2 last l rest ih => grind
  | case3 last l rest hlast ih => grind
  | case4 last l rest hlast ih => grind

theorem mem_collapse {flags : List (DiffLine × Bool)} (h : l ∈ collapse flags) :
    l = ellipsis ∨ (l, true) ∈ flags := by
  fun_induction collapse flags with
  | case1 => cases h
  | case2 l rest ih => grind
  | case3 l rest ih =>
    rcases List.mem_cons.mp h with h | h
    · exact .inl h
    · rcases ih h with h | h
      · exact .inl h
      · exact .inr (List.mem_cons_of_mem _ ((List.dropWhile_suffix _).subset h))

/-- A hunk line is never meant to be shown. -/
theorem kind_of_mem_collapse (h : l ∈ collapse (flagged lines)) :
    l.kind ≠ .hunk := by
  rcases mem_collapse h with rfl | h
  · simp [ellipsis]
  · obtain ⟨p, -, hp⟩ := List.mem_map.mp h
    obtain ⟨rfl, hwanted⟩ := Prod.mk.inj hp
    rcases of_decide_eq_true hwanted with hchanged | ⟨hkind, -⟩
    · intro hkind
      simp [DiffLine.changed, hkind] at hchanged
    · simp [hkind]

/-- The diff shows what is meant if and only if no hunk line stands near a change and no kept line
is mistaken for an ellipsis. -/
theorem trimContext_eq_iff (lines : List DiffLine) :
    trimContext lines = collapse (flagged lines) ↔
      (∀ p ∈ lines.zipIdx, p.1.kind = .hunk → ¬NearChange lines p.2) ∧
        List.IsChain Unmistaken (flagged lines) := by
  have hflags (h : ∀ p ∈ lines.zipIdx, p.1.kind = .hunk → ¬NearChange lines p.2) :
      trimContext lines = emitted none (flagged lines) := by
    rw [trimContext_eq, flagged]
    refine congrArg _ (List.map_congr_left ?_)
    intro p hp
    rw [keep_iff_wanted hp (h p hp)]
  constructor
  · intro heq
    have hhunk : ∀ p ∈ lines.zipIdx, p.1.kind = .hunk → ¬NearChange lines p.2 := by
      intro p hp hkind hnear
      have hmem : p.1 ∈ trimContext lines := by
        rw [trimContext_eq]
        exact mem_emitted (List.mem_map.mpr ⟨p, hp, by rw [(keep_iff lines p.2).mpr hnear]⟩) none
      rw [heq] at hmem
      exact kind_of_mem_collapse hmem hkind
    rw [hflags hhunk, emitted_eq_collapse_iff] at heq
    exact ⟨hhunk, heq.2⟩
  · rintro ⟨hhunk, hchain⟩
    rw [hflags hhunk, emitted_eq_collapse_iff]
    exact ⟨fun q _ _ => nofun, hchain⟩

/-- A line of the file that is an ellipsis hides the run after it. -/
theorem trimContext_mistakes_ellipsis :
    trimContext [⟨.remove, units "x"⟩, ⟨.context, units "a"⟩, ⟨.context, units "…"⟩,
      ⟨.context, units "b"⟩] =
        [⟨.remove, units "x"⟩, ⟨.context, units "a"⟩, ⟨.context, units "…"⟩] ∧
      collapse (flagged [⟨.remove, units "x"⟩, ⟨.context, units "a"⟩, ⟨.context, units "…"⟩,
        ⟨.context, units "b"⟩]) =
        [⟨.remove, units "x"⟩, ⟨.context, units "a"⟩, ⟨.context, units "…"⟩, ellipsis] := by
  constructor
  · decide
  · have h : flagged [⟨.remove, units "x"⟩, ⟨.context, units "a"⟩, ⟨.context, units "…"⟩,
        ⟨.context, units "b"⟩] = [(⟨.remove, units "x"⟩, true), (⟨.context, units "a"⟩, true),
          (⟨.context, units "…"⟩, true), (⟨.context, units "b"⟩, false)] := by decide
    rw [h]
    simp [collapse]

end ServerlessHarness.Mocactl
