import Mathlib.Data.List.Nodup

/-!
# Maps that remember the order of insertion

An `OrderedMap` has at most one entry for each key. `set` keeps the place of a key that is there and
appends one that is not; `erase` removes it. What a reader needs is which entry `get` finds after
each operation.
-/

set_option autoImplicit false

namespace ServerlessHarness.Library

universe u v

/-- The entries in the order of their insertion, with distinct keys. -/
structure OrderedMap (κ : Type u) (ν : Type v) where
  entries : List (κ × ν)
  nodup : (entries.map Prod.fst).Nodup

namespace OrderedMap

variable {κ : Type u} {ν : Type v}

def empty : OrderedMap κ ν := ⟨[], List.nodup_nil⟩

def keys (m : OrderedMap κ ν) : List κ := m.entries.map Prod.fst

variable [DecidableEq κ]

def get (m : OrderedMap κ ν) (k : κ) : Option ν :=
  (m.entries.find? fun e => e.1 = k).map Prod.snd

def has (m : OrderedMap κ ν) (k : κ) : Bool := (m.get k).isSome

def erase (m : OrderedMap κ ν) (k : κ) : OrderedMap κ ν :=
  ⟨m.entries.filter fun e => e.1 ≠ k, m.nodup.sublist (List.filter_sublist.map Prod.fst)⟩

def filter (m : OrderedMap κ ν) (p : κ → ν → Bool) : OrderedMap κ ν :=
  ⟨m.entries.filter fun e => p e.1 e.2, m.nodup.sublist (List.filter_sublist.map Prod.fst)⟩

theorem get_eq_none {m : OrderedMap κ ν} {k : κ} : m.get k = none ↔ k ∉ m.keys := by
  unfold get keys
  rw [Option.map_eq_none_iff, List.find?_eq_none]
  constructor
  · intro h hk
    obtain ⟨e, he, rfl⟩ := List.mem_map.mp hk
    exact h e he (decide_eq_true rfl)
  · intro h e he hk
    exact h (List.mem_map.mpr ⟨e, he, of_decide_eq_true hk⟩)

theorem keys_map_set (m : OrderedMap κ ν) (k : κ) (v : ν) :
    (m.entries.map fun e => if e.1 = k then (k, v) else e).map Prod.fst = m.keys := by
  rw [List.map_map]
  refine List.map_congr_left ?_
  intro e _
  by_cases he : e.1 = k
  · simp [he]
  · simp [he]

def set (m : OrderedMap κ ν) (k : κ) (v : ν) : OrderedMap κ ν :=
  if h : k ∈ m.keys then
    ⟨m.entries.map fun e => if e.1 = k then (k, v) else e, by
      rw [keys_map_set]
      exact m.nodup⟩
  else
    ⟨m.entries ++ [(k, v)], by
      rw [List.map_append, List.map_singleton]
      exact m.nodup.append (List.nodup_singleton k) (List.disjoint_singleton.mpr h)⟩

variable {m : OrderedMap κ ν} {k j : κ} {v w : ν}

theorem get_eq_some : m.get k = some v ↔ (k, v) ∈ m.entries := by
  unfold get
  rw [Option.map_eq_some_iff]
  constructor
  · rintro ⟨e, he, rfl⟩
    have hk : e.1 = k := by simpa using List.find?_some he
    rw [← hk]
    exact List.mem_of_find?_eq_some he
  · intro hmem
    cases hfind : m.entries.find? fun e => e.1 = k with
    | none =>
      have h := List.find?_eq_none.mp hfind (k, v) hmem
      exact absurd (decide_eq_true rfl) h
    | some e =>
      have hk : e.1 = k := by simpa using List.find?_some hfind
      have he := List.mem_of_find?_eq_some hfind
      exact ⟨e, rfl, congrArg Prod.snd (List.inj_on_of_nodup_map m.nodup he hmem hk)⟩

theorem filter_eq_self {p : κ → ν → Bool} (h : ∀ k v, m.get k = some v → p k v = true) :
    m.filter p = m := by
  have hentries : (m.entries.filter fun e => p e.1 e.2) = m.entries := by
    rw [List.filter_eq_self]
    intro e he
    exact h e.1 e.2 (get_eq_some.mpr he)
  cases m
  unfold filter
  congr

@[simp] theorem get_erase_self : (m.erase k).get k = none := by
  rw [get_eq_none]
  intro hk
  obtain ⟨e, he, hek⟩ := List.mem_map.mp hk
  exact of_decide_eq_true (List.mem_filter.mp he).2 hek

theorem get_erase_ne (h : j ≠ k) : (m.erase k).get j = m.get j := by
  ext v
  rw [get_eq_some, get_eq_some, erase, List.mem_filter]
  simp [h]

theorem get_erase_eq_some (h : (m.erase k).get j = some v) : j ≠ k ∧ m.get j = some v := by
  have hne : j ≠ k := by
    rintro rfl
    rw [get_erase_self] at h
    cases h
  exact ⟨hne, (get_erase_ne hne) ▸ h⟩

@[simp] theorem get_set_self : (m.set k v).get k = some v := by
  rw [get_eq_some]
  unfold set
  split
  · rename_i hk
    obtain ⟨e, he, hek⟩ := List.mem_map.mp hk
    exact List.mem_map.mpr ⟨e, he, if_pos hek⟩
  · exact List.mem_append_right _ (List.mem_singleton_self _)

theorem get_set_ne (h : j ≠ k) : (m.set k v).get j = m.get j := by
  ext w
  rw [get_eq_some, get_eq_some]
  unfold set
  split
  · dsimp only
    rw [List.mem_map]
    constructor
    · rintro ⟨e, he, heq⟩
      by_cases hek : e.1 = k
      · rw [if_pos hek] at heq
        exact absurd (congrArg Prod.fst heq).symm h
      · rw [if_neg hek] at heq
        rwa [← heq]
    · intro hmem
      exact ⟨(j, w), hmem, if_neg h⟩
  · simp [h]

/-- A key that is deleted before it is set becomes the newest. -/
theorem entries_set_erase (m : OrderedMap κ ν) (k : κ) (v : ν) :
    ((m.erase k).set k v).entries = (m.entries.filter fun e => e.1 ≠ k) ++ [(k, v)] := by
  have hk : k ∉ (m.erase k).keys := get_eq_none.mp get_erase_self
  rw [set, dif_neg hk]
  rfl

/-- Deleting the oldest keys one by one. -/
theorem entries_foldl_erase (m : OrderedMap κ ν) (n : ℕ) :
    ((m.keys.take n).foldl erase m).entries = m.entries.drop n := by
  induction n generalizing m with
  | zero => rfl
  | succ n ih =>
    cases m with
    | mk entries nodup =>
      cases entries with
      | nil => rfl
      | cons e rest =>
        have hrest : (rest.map Prod.fst).Nodup := (List.nodup_cons.mp nodup).2
        have herase : erase ⟨e :: rest, nodup⟩ e.1 = ⟨rest, hrest⟩ := by
          have hfilter : ((e :: rest).filter fun x => x.1 ≠ e.1) = rest := by
            rw [List.filter_cons_of_neg (by simp), List.filter_eq_self]
            intro x hx
            have hne : x.1 ≠ e.1 := by
              intro heq
              exact (List.nodup_cons.mp nodup).1 (heq ▸ List.mem_map_of_mem hx)
            simpa using hne
          simp only [erase, hfilter]
        show ((⟨rest, hrest⟩ : OrderedMap κ ν).keys.take n |>.foldl erase
          (erase ⟨e :: rest, nodup⟩ e.1)).entries = rest.drop n
        rw [herase]
        exact ih ⟨rest, hrest⟩

end OrderedMap

end ServerlessHarness.Library
