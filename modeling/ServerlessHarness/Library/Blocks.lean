import ServerlessHarness.Library.Utf16

/-!
# Blocks of a text

Blocks are ended by an empty line. A reader that takes complete blocks from the front of a buffer,
and then adds to what is left, gets the blocks of the whole text (`blocks_append`). Line ends are
made newlines before; this may be done piece by piece unless a carriage return is parted from its
newline (`normalize_append`).
-/

set_option autoImplicit false

namespace ServerlessHarness.Library

/-- A carriage return, with the newline after it if there is one, becomes a newline. -/
def normalize : Units → Units
  | [] => []
  | [u] => if u = 13 then [10] else [u]
  | u :: v :: rest =>
    if u = 13 then if v = 10 then 10 :: normalize rest else 10 :: normalize (v :: rest)
    else u :: normalize (v :: rest)

/-- What stands before the first two newlines in a row, and what stands after them. -/
def firstBlock : Units → Option (Units × Units)
  | u :: v :: rest =>
    if u = 10 ∧ v = 10 then some ([], rest)
    else (firstBlock (v :: rest)).map fun r => (u :: r.1, r.2)
  | _ => none

variable {block rest text : Units}

theorem length_firstBlock (h : firstBlock text = some (block, rest)) :
    rest.length < text.length := by
  fun_induction firstBlock text generalizing block with
  | case1 u v text huv =>
    cases h
    simp only [List.length_cons]
    omega
  | case2 u v text huv ih =>
    obtain ⟨⟨b, r⟩, hr, heq⟩ := Option.map_eq_some_iff.mp h
    cases heq
    exact Nat.lt_succ_of_lt (ih hr)
  | case3 => cases h

/-- All complete blocks, and what is left. -/
def blocks (text : Units) : List Units × Units :=
  match h : firstBlock text with
  | none => ([], text)
  | some (block, rest) =>
    have := length_firstBlock h
    (block :: (blocks rest).1, (blocks rest).2)
termination_by text.length

theorem blocks_of_firstBlock (h : firstBlock text = some (block, rest)) :
    blocks text = (block :: (blocks rest).1, (blocks rest).2) := by
  rw [blocks]
  split
  · next hnone =>
    rw [h] at hnone
    cases hnone
  · next hsome =>
    rw [h] at hsome
    cases hsome
    rfl

theorem firstBlock_append (h : firstBlock text = some (block, rest)) (more : Units) :
    firstBlock (text ++ more) = some (block, rest ++ more) := by
  fun_induction firstBlock text generalizing block with
  | case1 u v text huv =>
    cases h
    simp [firstBlock, huv]
  | case2 u v text huv ih =>
    obtain ⟨⟨b, r⟩, hr, heq⟩ := Option.map_eq_some_iff.mp h
    cases heq
    have hrest := ih hr
    rw [List.cons_append] at hrest
    rw [List.cons_append, List.cons_append, firstBlock, if_neg huv, hrest]
    rfl
  | case3 => cases h

/-- INTERNAL: **blocks may be taken as soon as they are there**. -/
theorem blocks_append (text more : Units) :
    blocks (text ++ more) =
      ((blocks text).1 ++ (blocks ((blocks text).2 ++ more)).1,
        (blocks ((blocks text).2 ++ more)).2) := by
  fun_induction blocks text with
  | case1 text hnone => rfl
  | case2 text block rest hsome hlt ih =>
    rw [blocks_of_firstBlock (firstBlock_append hsome more), ih]
    rfl

theorem normalize_cons {u : UInt16} (h : u ≠ 13) (text : Units) :
    normalize (u :: text) = u :: normalize text := by
  cases text <;> simp [normalize, h]

theorem normalize_return (h : text.head? ≠ some 10) :
    normalize (13 :: text) = 10 :: normalize text := by
  cases text with
  | nil => rfl
  | cons v text =>
    have hv : v ≠ 10 := fun hv => h (by rw [hv]; rfl)
    simp [normalize, hv]

theorem normalize_append {more : Units} (h : text.getLast? = some 13 → more.head? ≠ some 10) :
    normalize (text ++ more) = normalize text ++ normalize more := by
  fun_induction normalize text with
  | case1 => rfl
  | case2 => exact normalize_return (h rfl)
  | case3 u hu => exact normalize_cons hu more
  | case4 rest ih =>
    have hrest : rest.getLast? = some 13 → more.head? ≠ some 10 := by
      intro hlast
      exact h (by simp [List.getLast?_cons, hlast])
    simp [normalize, ih hrest]
  | case5 v rest hv ih =>
    have hrest := ih h
    rw [List.cons_append] at hrest
    simp [normalize, hv, hrest]
  | case6 u v rest hu ih =>
    have hrest := ih h
    rw [List.cons_append] at hrest
    simp [normalize, hu, hrest]

theorem normalize_of_no_return (h : (13 : UInt16) ∉ text) : normalize text = text := by
  induction text with
  | nil => rfl
  | cons u text ih =>
    rw [List.mem_cons, not_or] at h
    rw [normalize_cons (Ne.symm h.1), ih h.2]

theorem firstBlock_line {line : Units} (h : (10 : UInt16) ∉ line) (rest : Units) :
    firstBlock (line ++ rest) = (firstBlock rest).map fun r => (line ++ r.1, r.2) := by
  induction line with
  | nil => simp
  | cons u line ih =>
    rw [List.mem_cons, not_or] at h
    have hcons (text : Units) : firstBlock (u :: text) = (firstBlock text).map fun r =>
      (u :: r.1, r.2) := by
      cases text with
      | nil => rfl
      | cons v text => rw [firstBlock, if_neg fun huv => h.1 huv.1.symm]
    rw [List.cons_append, hcons, ih h.2, Option.map_map]
    rfl

/-- Lines, none of them empty, and two newlines. -/
theorem firstBlock_lines {lines : List Units} (hne : lines ≠ [])
    (hline : ∀ l ∈ lines, l ≠ [] ∧ (10 : UInt16) ∉ l) (rest : Units) :
    firstBlock ([10].intercalate lines ++ 10 :: 10 :: rest) =
      some ([10].intercalate lines, rest) := by
  induction lines with
  | nil => exact absurd rfl hne
  | cons l lines ih =>
    have hl := (hline l List.mem_cons_self).2
    cases lines with
    | nil => simp [firstBlock_line hl, firstBlock]
    | cons l' lines =>
      have hrest := ih (List.cons_ne_nil _ _) fun k hk => hline k (List.mem_cons_of_mem l hk)
      obtain ⟨v, text, htext, hv⟩ :
          ∃ v text, [10].intercalate (l' :: lines) ++ 10 :: 10 :: rest = v :: text ∧ v ≠ 10 := by
        obtain ⟨hl'ne, hl'⟩ := hline l' (List.mem_cons_of_mem l List.mem_cons_self)
        obtain ⟨v, l', rfl⟩ := List.exists_cons_of_ne_nil hl'ne
        have hv : v ≠ 10 := fun hv => hl' (by simp [hv])
        cases lines <;> exact ⟨v, _, rfl, hv⟩
      rw [List.intercalate_cons_cons, List.append_assoc, List.append_assoc, firstBlock_line hl,
        List.singleton_append, htext, firstBlock, if_neg fun huv => hv huv.2, ← htext, hrest]
      simp

end ServerlessHarness.Library
