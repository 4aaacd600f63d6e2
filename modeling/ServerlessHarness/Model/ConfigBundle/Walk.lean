import ServerlessHarness.Library.DepthFirst
import ServerlessHarness.Library.LinkedTree
import ServerlessHarness.Model.ConfigBundle.Skills

/-!
# The files of a skill

`filesUnder` walks through the directory of a skill, follows links, and lists the files.
Directories are entered if their canonical path is in that of the skill and was not visited before;
files are listed as they are met. The runtime's `statSync`, `realpathSync` and `readdirSync` are
those of a `LinkedTree`.
-/

set_option autoImplicit false

namespace ServerlessHarness.ConfigBundle

open Library

/-! ## Canonical paths -/

/-- `relative(from, to)` of two canonical paths, as its elements. -/
def relativeTo : List String → List String → List String
  | a :: as, b :: bs =>
    if a = b then relativeTo as bs else (a :: as).map (fun _ => "..") ++ b :: bs
  | as, bs => as.map (fun _ => "..") ++ bs

/-- SRCLINE: resolve.ts:9-13 -/
def isWithin (root path : List String) : Bool :=
  root = path || (relativeTo root path ≠ [] && (relativeTo root path).head? ≠ some "..")

/-! ## Texts in their order -/

/-- `relative(dir, p).split(sep).join('/')`. -/
def relText (rel : List String) : String := "/".intercalate rel

/-- `sort()` of texts that stand for paths. -/
def sortPaths (paths : List (List String)) : List (List String) :=
  paths.insertionSort fun a b => codeUnits (relText a) ≤ codeUnits (relText b)

/-! ## The walk -/

/-- What is noted on the way. -/
inductive Seen where
  | file (rel : List String)
  | escaped (rel : List String)
deriving DecidableEq, Repr

/-- The entry of a directory at `rel` below `dir`.
SRCLINE: resolve.ts:55-84 -/
def inspect (t : LinkedTree) (dir root rel : List String) :
    Option (Found (List String) (List String) Seen) :=
  match t.canonical (dir ++ rel) with
  | none => none
  | some path =>
    match t.kindAt path with
    | some .directory =>
      if isWithin root path then some (.enter path rel) else some (.emit (.escaped rel))
    | some .file => some (.emit (.file rel))
    | some (.link _) => none
    | some .other => none
    | none => none

/-- The entries of the directory at `rel`, in order. It was found to be a directory before it is
read. -/
def children (t : LinkedTree) (dir root rel : List String) :
    List (Found (List String) (List String) Seen) :=
  match t.canonical (dir ++ rel) with
  | none => []
  | some path =>
    (sortPaths ((t.names path).map fun name => [name])).filterMap fun name =>
      inspect t dir root (rel ++ name)

structure Finding where
  severity : String
  code : String
  message : String
  path : List String
deriving DecidableEq, Repr

structure Listing where
  files : List (List String)
  findings : List Finding
deriving DecidableEq, Repr

def escapedFinding (dir rel : List String) : Finding where
  severity := "warn"
  code := "skill_symlink_escaped"
  message := "symlink '" ++ relText rel ++ "' resolves outside its skill directory and was skipped"
  path := dir

def listing (dir : List String) (seen : List Seen) : Listing where
  files := sortPaths (seen.filterMap fun s => match s with
    | .file rel => some rel
    | .escaped _ => none)
  findings := seen.filterMap fun s => match s with
    | .file _ => none
    | .escaped rel => some (escapedFinding dir rel)

/-- The walk with at most `n` nested calls; a directory that is none cannot be read.
SRCLINE: resolve.ts:33-88 -/
def filesUnder (t : LinkedTree) (n : ℕ) (dir : List String) : Option (Except String Listing) :=
  match t.canonical dir with
  | none => some (.ok ⟨[], []⟩)
  | some root =>
    if t.kindAt root = some .directory then
      (DepthFirst.dfs (children t dir root) n ⟨[root], []⟩ []).map fun s =>
        .ok (listing dir s.emitted)
    else some (.error "ENOTDIR")

end ServerlessHarness.ConfigBundle
