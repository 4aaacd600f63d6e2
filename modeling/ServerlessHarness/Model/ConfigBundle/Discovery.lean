import ServerlessHarness.Model.ConfigBundle.Walk

/-!
# Finding skills

The roots are searched one after another, the project's before the user's before the plugins'. A
directory that holds `SKILL.md` is a skill and is not searched further; others are entered once, by
their canonical path. Each skill is loaded as it is found, and a skill that cannot be read ends the
search.

The tree is at rest. Paths are lists of elements from the root of the file system, as `join` makes
them.
-/

set_option autoImplicit false

namespace ServerlessHarness.ConfigBundle

open Library

/-- A tree of files with their texts, and what a bundle reads of a listed file later on. -/
structure Disk where
  tree : LinkedTree
  text : List String → String
  packed : List String → List String → SkillFile

/-- `readFileSync(path, 'utf8')`. -/
def Disk.read (d : Disk) (path : List String) : Except String String :=
  match d.tree.canonical path with
  | none => .error "ENOENT"
  | some c => if d.tree.kindAt c = some .file then .ok (d.text c) else .error "EISDIR"

/-- A canonical path as a string. -/
def pathText (path : List String) : String := "/" ++ relText path

/-! ## The search -/

/-- An entry of a directory, if it leads to a directory.
SRCLINE: resolve.ts:119-132 -/
def enterable (t : LinkedTree) (path : List String) :
    Option (Found (List String) (List String) (List String)) :=
  match t.canonical path with
  | none => none
  | some c => if t.kindAt c = some .directory then some (.enter c path) else none

/-- What a directory is searched for.
SRCLINE: resolve.ts:114-137 -/
def searched (t : LinkedTree) (path : List String) :
    List (Found (List String) (List String) (List String)) :=
  match t.canonical path with
  | none => []
  | some c =>
    if (t.canonical (path ++ ["SKILL.md"])).isSome then [.emit path]
    else (sortPaths ((t.names c).map fun name => [name])).filterMap fun name =>
      enterable t (path ++ name)

/-- The search with at most `n` nested calls.
SRCLINE: resolve.ts:95-139 -/
def findSkillDirs (t : LinkedTree) (n : ℕ) (root : List String) : Option (List (List String)) :=
  match t.canonical root with
  | none => some []
  | some c =>
    if t.kindAt c = some .directory then
      (DepthFirst.dfs (searched t) n ⟨[c], []⟩ root).map DepthFirst.State.emitted
    else some []

/-! ## Loading -/

/-- SRCLINE: resolve.ts:141-154, 184-189 -/
def load (d : Disk) (n : ℕ) (scope : SkillScope) (dir : List String) :
    ExceptT String Option FoundSkill := do
  let skillMd ← ExceptT.mk (some (d.read (dir ++ ["SKILL.md"])))
  let listed ← ExceptT.mk (filesUnder d.tree n dir)
  return {
    base := ((dir.filter (· ≠ "")).getLast?).getD "skill"
    canonical := pathText ((d.tree.canonical dir).getD dir)
    scope
    skillMd
    files := listed.files.map (d.packed dir) }

def loadAll (d : Disk) (n : ℕ) (scope : SkillScope) :
    List (List String) → ExceptT String Option (List FoundSkill)
  | [] => return []
  | dir :: dirs => do
    let skill ← load d n scope dir
    let skills ← loadAll d n scope dirs
    return skill :: skills

/-- SRCLINE: config-bundle/types.ts:24-31 -/
structure SkillRoots where
  projectDir : Option (List String)
  userDir : Option (List String)
  pluginDirs : List (List String)

/-- Where skills are searched, in order. -/
def SkillRoots.places (roots : SkillRoots) : List (SkillScope × List String) :=
  (roots.projectDir.toList.map fun base => (.project, base ++ ["skills"])) ++
    (roots.userDir.toList.map fun base => (.user, base ++ ["skills"])) ++
    roots.pluginDirs.map fun dir => (.plugin, dir)

def searchAll (d : Disk) (n : ℕ) :
    List (SkillScope × List String) → ExceptT String Option (List FoundSkill)
  | [] => return []
  | place :: places => do
    let dirs ← ExceptT.lift (findSkillDirs d.tree n place.2)
    let skills ← loadAll d n place.1 dirs
    let others ← searchAll d n places
    return skills ++ others

/-- The skills that are found; `resolveSkills` deduplicates them.
SRCLINE: resolve.ts:169-178 -/
def foundSkills (d : Disk) (n : ℕ) (roots : SkillRoots) : ExceptT String Option (List FoundSkill) :=
  searchAll d n roots.places

end ServerlessHarness.ConfigBundle
