import ServerlessHarness.Model.Leaf.Keys

/-!
# The session id of a leaf

`toSessionId` replaces characters one by one and trims both ends, so the text of an id is a trimmed
list (`idText`, `toSessionId_eq`). Every id is a name that the session backend accepts
(`toSessionId_valid`).
-/

set_option autoImplicit false

namespace ServerlessHarness.Leaf

open Library LeafJob

/-! ## Characters -/

/-- `[A-Za-z0-9._-]`. -/
def idChar (c : Char) : Bool := c.isAlphanum || c = '.' || c = '_' || c = '-'

/-- What is trimmed from both ends. -/
def punctuation (c : Char) : Bool := !c.isAlphanum

def clean (text : List Char) : List Char := text.flatMap cleanChar

theorem cleanChar_of_idChar {c : Char} (h : idChar c = true) : cleanChar c = [c] := by
  rw [idChar] at h
  simp only [cleanChar, h, if_true]

theorem idChar_of_mem_cleanChar {c d : Char} (h : d ∈ cleanChar c) : idChar d = true := by
  unfold cleanChar at h
  split at h
  · next hc =>
    rw [List.mem_singleton.mp h]
    exact hc
  · split at h
    · simp only [List.mem_cons, List.not_mem_nil, or_false, or_self] at h
      rw [h]
      decide
    · rw [List.mem_singleton.mp h]
      decide

theorem idChar_of_mem_clean {text : List Char} {d : Char} (h : d ∈ clean text) :
    idChar d = true := by
  obtain ⟨c, _, hd⟩ := List.mem_flatMap.mp h
  exact idChar_of_mem_cleanChar hd

theorem clean_append (a b : List Char) : clean (a ++ b) = clean a ++ clean b :=
  List.flatMap_append

theorem clean_eq_self {text : List Char} (h : ∀ c ∈ text, idChar c = true) : clean text = text := by
  induction text with
  | nil => rfl
  | cons c text ih =>
    have hc : idChar c = true := h c List.mem_cons_self
    have htail : clean text = text := ih fun d hd => h d (List.mem_cons_of_mem c hd)
    show cleanChar c ++ clean text = c :: text
    rw [cleanChar_of_idChar hc, htail]
    rfl

/-! ## Ids -/

/-- The text of an id; nothing left is called `leaf`. -/
def idText (trimmed : List Char) : String :=
  if trimmed.isEmpty then "leaf" else String.ofList trimmed

theorem toSessionId_eq (s : String) :
    toSessionId s = idText (trimEnds punctuation (clean s.toList)) := rfl

variable {l : List Char}

theorem idText_toList (h : l ≠ []) : (idText l).toList = l := by
  have hempty : l.isEmpty = false := by simpa using h
  simp [idText, hempty]

theorem idText_injective {m : List Char} (hl : l ≠ []) (hm : m ≠ []) (h : idText l = idText m) :
    l = m := by
  rw [← idText_toList hl, ← idText_toList hm, h]

/-- What the session backend requires of an id: only `[A-Za-z0-9._-]`, alphanumeric at both ends.
SRCLINE: run-leaf.ts:73-78 -/
structure ValidId (id : String) : Prop where
  chars : ∀ c ∈ id.toList, idChar c = true
  ends : Trimmed punctuation id.toList

theorem leaf_valid : ValidId "leaf" where
  chars := List.all_eq_true.mp (by decide)
  ends := ⟨by decide, by decide, by decide⟩

theorem idText_valid (hchars : ∀ c ∈ l, idChar c = true) (hends : l ≠ [] → Trimmed punctuation l) :
    ValidId (idText l) := by
  by_cases hl : l = []
  · rw [hl]
    exact leaf_valid
  · constructor
    · rw [idText_toList hl]
      exact hchars
    · rw [idText_toList hl]
      exact hends hl

theorem toSessionId_valid (s : String) : ValidId (toSessionId s) := by
  rw [toSessionId_eq]
  apply idText_valid
  · intro c hc
    exact idChar_of_mem_clean (mem_of_mem_trimEnds hc)
  · intro h
    exact trimmed_trimEnds h

end ServerlessHarness.Leaf
