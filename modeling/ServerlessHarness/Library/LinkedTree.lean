import ServerlessHarness.Library.OrderedMap
import ServerlessHarness.Library.SlashPath

/-!
# File trees with symbolic links

A tree holds files, directories and links at their canonical paths. A path is resolved from left to
right; a link stands for the path that it holds, seen from its own directory, and links may lead to
links as deep as the tree's `nesting` says. A loop of links is deeper than any bound.

Where a path leads depends on its directory through the directory's canonical path only
(`canonical_concat`).
-/

set_option autoImplicit false

namespace ServerlessHarness.Library

inductive Node where
  | file
  | directory
  | link (target : String)
  | other
deriving DecidableEq, Repr

/-- The nodes but the root, which is a directory. -/
structure LinkedTree where
  nodes : OrderedMap (List String) Node
  nesting : ℕ
  ordinary : ∀ path ∈ nodes.keys, path ≠ [] ∧ ∀ name ∈ path, SlashPath.Ordinary name
  parents : ∀ path ∈ nodes.keys,
    path.dropLast = [] ∨ nodes.get path.dropLast = some .directory
  targets : ∀ path target, nodes.get path = some (.link target) → target ≠ ""

variable {path : List String}

namespace LinkedTree

variable (t : LinkedTree)

def kindAt (path : List String) : Option Node :=
  if path = [] then some .directory else t.nodes.get path

/-- The names in a directory. -/
def names (path : List String) : List String :=
  (t.nodes.keys.filter fun p => p.dropLast = path).filterMap List.getLast?

def dirs : List (List String) :=
  [] :: (t.nodes.entries.filter fun e => e.2 = .directory).map Prod.fst

/-- The elements of a path from a directory on; `inner` resolves what links hold. -/
def follow (inner : List String → List String → Option (List String)) :
    List String → List String → Option (List String)
  | cur, [] => some cur
  | cur, e :: es =>
    if e = "" ∨ e = "." then follow inner cur es
    else if e = ".." then follow inner cur.dropLast es
    else
      match t.kindAt (cur ++ [e]) with
      | none => none
      | some .directory => follow inner (cur ++ [e]) es
      | some (.link target) =>
        match inner (if target.toList.head? = some '/' then [] else cur)
            (SlashPath.splitSlash [] target.toList) with
        | none => none
        | some c => if es = [] ∨ t.kindAt c = some .directory then follow inner c es else none
      | some .file => if es = [] then some (cur ++ [e]) else none
      | some .other => if es = [] then some (cur ++ [e]) else none

/-- A path seen from a directory, through links of at most some nesting. -/
def resolve : ℕ → List String → List String → Option (List String)
  | 0 => t.follow fun _ _ => none
  | n + 1 => t.follow (resolve n)

/-- The canonical path of a path from the root. -/
def canonical (path : List String) : Option (List String) := t.resolve t.nesting [] path

variable {t} {cur es : List String} {inner : List String → List String → Option (List String)}

theorem mem_keys_of_kindAt {node : Node} (h : t.kindAt path = some node) (hne : path ≠ []) :
    path ∈ t.nodes.keys := by
  rw [kindAt, if_neg hne] at h
  by_contra hkey
  rw [OrderedMap.get_eq_none.mpr hkey] at h
  cases h

/-- The parent of a directory is a directory. -/
theorem kindAt_dropLast (h : t.kindAt cur = some .directory) :
    t.kindAt cur.dropLast = some .directory := by
  by_cases hne : cur = []
  · rw [hne]
    rfl
  · unfold kindAt
    split
    · rfl
    · rename_i hup
      exact (t.parents cur (mem_keys_of_kindAt h hne)).resolve_left hup

theorem kindAt_eq_directory_iff :
    t.kindAt path = some .directory ↔ path ∈ t.dirs := by
  unfold kindAt dirs
  by_cases hne : path = []
  · simp [hne]
  · rw [if_neg hne, OrderedMap.get_eq_some, List.mem_cons, List.mem_map]
    constructor
    · intro h
      exact Or.inr ⟨_, List.mem_filter.mpr ⟨h, by simp⟩, rfl⟩
    · rintro (h | ⟨e, he, rfl⟩)
      · exact absurd h hne
      · obtain ⟨he, hdir⟩ := List.mem_filter.mp he
        rw [decide_eq_true_eq] at hdir
        rw [← hdir]
        exact he

theorem follow_concat (name : String) (hcur : t.kindAt cur = some .directory) :
    t.follow inner cur (es ++ [name]) = (t.follow inner cur es).bind fun c =>
      if t.kindAt c = some .directory then t.follow inner c [name] else none := by
  induction es generalizing cur with
  | nil =>
    show t.follow inner cur [name] = if t.kindAt cur = some .directory then _ else none
    rw [if_pos hcur]
  | cons e es ih =>
    rw [List.cons_append, follow, follow]
    split
    · exact ih hcur
    · split
      · exact ih (kindAt_dropLast hcur)
      · cases hkind : t.kindAt (cur ++ [e]) with
        | none => rfl
        | some node =>
          cases node with
          | directory => exact ih hkind
          | link target =>
            dsimp only
            cases inner (if target.toList.head? = some '/' then [] else cur)
              (SlashPath.splitSlash [] target.toList) with
            | none => rfl
            | some c =>
              dsimp only
              by_cases hdir : t.kindAt c = some .directory
              · rw [if_pos (Or.inr hdir), if_pos (Or.inr hdir)]
                exact ih hdir
              · rw [if_neg (by simp [hdir])]
                by_cases hes : es = []
                · rw [if_pos (Or.inl hes), hes]
                  show none = if t.kindAt c = some .directory then _ else none
                  rw [if_neg hdir]
                · rw [if_neg (by simp [hes, hdir])]
                  rfl
          | file | other =>
            dsimp only
            rw [if_neg (by simp)]
            by_cases hes : es = []
            · rw [if_pos hes]
              show none = if t.kindAt (cur ++ [e]) = some .directory then _ else none
              rw [hkind, if_neg (by simp)]
            · rw [if_neg hes]
              rfl

theorem resolve_concat (n : ℕ) (name : String) (hcur : t.kindAt cur = some .directory) :
    t.resolve n cur (es ++ [name]) = (t.resolve n cur es).bind fun c =>
      if t.kindAt c = some .directory then t.resolve n c [name] else none := by
  cases n <;> exact follow_concat name hcur

/-- INTERNAL: **an entry of a directory**, under any path of the directory. -/
theorem canonical_concat {c : List String} (name : String) (hpath : t.canonical path = some c)
    (hc : t.kindAt c = some .directory) :
    t.canonical (path ++ [name]) = t.resolve t.nesting c [name] := by
  unfold canonical at *
  rw [resolve_concat t.nesting name rfl, hpath, Option.bind_some, if_pos hc]

end LinkedTree

end ServerlessHarness.Library
