import ServerlessHarness.Library.OrderedMap
import ServerlessHarness.Library.SlashPath
import ServerlessHarness.Model.ConfigBundle.Tar

/-!
# Skills

How a skill gets its name, and which of the skills that were found are kept. A name is the text
after `name:` in the head of `SKILL.md`, as it stands there, or that of the directory. Skills are
deduplicated by name and by canonical path, with the project's before the user's before the
plugins'.
-/

set_option autoImplicit false

namespace ServerlessHarness.ConfigBundle

open Library

/-! ## What the file system holds -/

/-- A buffer of the runtime, which reads no file of 2³³ bytes. -/
structure Content where
  bytes : List UInt8
  fits : bytes.length < 8589934592

/-- The name of a directory's entry. -/
structure EntryName where
  text : String
  ordinary : SlashPath.Ordinary text
  noNul : '\x00' ∉ text.toList

/-- A file of a skill under its path relative to the skill's directory. -/
structure SkillFile where
  path : List EntryName
  nonempty : path ≠ []
  content : Content

/-- SRCLINE: config-bundle/types.ts:11, resolve.ts:156 -/
inductive SkillScope where
  | project
  | user
  | plugin
deriving DecidableEq, Repr

def SkillScope.rank : SkillScope → ℕ
  | .project => 0
  | .user => 1
  | .plugin => 2

/-- A skill directory that was found; `base` is the last element of its path. -/
structure FoundSkill where
  base : String
  canonical : String
  scope : SkillScope
  skillMd : String
  files : List SkillFile

/-! ## Names -/

/-- What `.` in a pattern does not match. -/
def isLineEnd (c : Char) : Bool := c = '\n' || c = '\r' || c = '\u2028' || c = '\u2029'

/-- What stands before the first `\n---`. -/
def beforeFence : List Char → Option (List Char)
  | [] => none
  | c :: cs =>
    if ['\n', '-', '-', '-'].isPrefixOf (c :: cs) then some []
    else (beforeFence cs).map (c :: ·)

/-- `\s*(.+)$`: the rest of the line of the first character that is no white space. Where there is
none, the match ends in white space, which is trimmed off.
SRCLINE: resolve.ts:20-21 -/
def matchName (cs : List Char) : Option (List Char) :=
  let text := cs.dropWhile (isWhiteSpace ·.toNat)
  if text ≠ [] then some (text.takeWhile fun c => !isLineEnd c)
  else if cs.any fun c => !isLineEnd c then some []
  else none

/-- `/^name:\s*(.+)$/m`, from a position that is at the start of a line or not. -/
def findName : Bool → List Char → Option (List Char)
  | _, [] => none
  | atStart, c :: cs =>
    let found :=
      if atStart && ['n', 'a', 'm', 'e', ':'].isPrefixOf (c :: cs) then
        matchName (cs.drop 4) else none
    match found with
    | some name => some name
    | none => findName (isLineEnd c) cs

def isQuoted (quote : Char) (cs : List Char) : Bool :=
  cs.head? = some quote && cs.getLast? = some quote

/-- SRCLINE: resolve.ts:16-31 -/
def readSkillFrontmatterName (skillMd : List Char) : Option (List Char) :=
  if ['-', '-', '-'].isPrefixOf skillMd then
    (((beforeFence (skillMd.drop 3)).bind (findName true)).map
      (trimEnds (isWhiteSpace ·.toNat))).map fun name =>
      if isQuoted '"' name || isQuoted '\'' name then name.tail.dropLast else name
  else none

/-- SRCLINE: resolve.ts:141-154 -/
def FoundSkill.name (skill : FoundSkill) : String :=
  ((readSkillFrontmatterName skill.skillMd.toList).map String.ofList).getD skill.base

/-! ## Which skills travel -/

/-- The skills by name, and by canonical path. -/
structure Best where
  byName : OrderedMap String FoundSkill
  byCanonical : OrderedMap String FoundSkill

/-- SRCLINE: resolve.ts:183-211 -/
def Best.add (best : Best) (skill : FoundSkill) : Best :=
  let won : Best → Best := fun best =>
    ⟨best.byName.set skill.name skill, best.byCanonical.set skill.canonical skill⟩
  match best.byCanonical.get skill.canonical with
  | some prev =>
    if skill.scope.rank < prev.scope.rank then
      won { best with byName := best.byName.erase prev.name }
    else best
  | none =>
    match best.byName.get skill.name with
    | none => won best
    | some prev => if skill.scope.rank < prev.scope.rank then won best else best

/-- The code units by which strings are compared. -/
def codeUnits (s : String) : List ℕ :=
  s.toList.flatMap fun c =>
    if c.toNat < 0x10000 then [c.toNat]
    else [0xD800 + (c.toNat - 0x10000) / 0x400, 0xDC00 + (c.toNat - 0x10000) % 0x400]

/-- The skills found in the roots, deduplicated.
SRCLINE: resolve.ts:168-213 -/
def resolveSkills (found : List FoundSkill) : List FoundSkill :=
  ((found.foldl Best.add ⟨OrderedMap.empty, OrderedMap.empty⟩).byName.entries.map
    Prod.snd).insertionSort
    fun a b => codeUnits a.name ≤ codeUnits b.name

end ServerlessHarness.ConfigBundle
