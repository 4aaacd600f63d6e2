import ServerlessHarness.Library.Shell

/-!
# The command lines of the pod operations

Each operation on a pod's files is a command line that a shell in the pod reads. A line is written
as the template literal of the source has it: texts, and values that `shQuote` quotes.
-/

set_option autoImplicit false

namespace ServerlessHarness.K8sSandbox

open Library Library.Shell

/-- SRCLINE: paths.ts:2-4 -/
def shQuote (s : Units) : Units :=
  [39] ++ (s.flatMap fun u => if u = 39 then [39, 92, 39, 39] else [u]) ++ [39]

/-- SRCLINE: paths.ts:11-15 -/
def mapPath (p headCwd podCwd : Units) : Units :=
  if p = headCwd then podCwd
  else if (headCwd ++ [47]).isPrefixOf p then podCwd ++ p.drop headCwd.length
  else p

structure PodConfig where
  headCwd : Units
  podCwd : Units

/-- A part of a template literal: text, or a value between `shQuote` and the text around it. -/
inductive Part where
  | text (t : Units)
  | quoted (t : Units)

def Part.units : Part → Units
  | text t => t
  | quoted t => shQuote t

def lineText (parts : List Part) : Units := parts.flatMap Part.units

/-- The text of a number. -/
structure NumberText where
  text : Units
  ne_nil : text ≠ []
  ordinary : text.all isOrdinary = true

/-- The decimal digits of a natural number. -/
def NumberText.ofNat (n : ℕ) : NumberText where
  text := (Nat.toDigits 10 n).map fun c => c.toNat.toUInt16
  ne_nil := by simp
  ordinary := by
    have hdigit : ∀ k < 58, 48 ≤ k → isOrdinary (Nat.toUInt16 k) = true := by decide
    rw [List.all_map, List.all_eq_true]
    intro c hc
    have hrange : 48 ≤ c.toNat ∧ c.toNat ≤ 57 :=
      Char.isDigit_iff_toNat.mp (Nat.isDigit_of_mem_toDigits (by decide) (by decide) hc)
    exact hdigit c.toNat (by omega) hrange.1

/-- SRCLINE: sandbox-env.ts:13 -/
def sandboxEnvAllow : List Units := [units "LANG", units "LC_ALL", units "LC_CTYPE", units "TZ"]

/-- The variables that cross to the pod; the names of the list are POSIX names, which the filter on
them lets through.
SRCLINE: sandbox-env.ts:15-23, operations.ts:99-100 -/
def sandboxEnv (env : Units → Option Units) : List (Units × Units) :=
  sandboxEnvAllow.filterMap fun name => (env name).map fun value => (name, value)

/-- What the pod is asked. -/
inductive Operation where
  | readFile (p : Units)
  | readSize (p : Units)
  | access (p : Units)
  | detectImageMimeType (p : Units)
  | writeFile (p : Units)
  | mkdir (dir : Units)
  | editAccess (p : Units)
  | bash (command cwd : Units) (env : Units → Option Units)
  | exists (p : Units)
  | stat (p : Units)
  | readdir (p : Units)
  | glob (pattern cwd : Units) (ignore : List Units) (limit : NumberText)

/-- SRCLINE: operations.ts:17-19 -/
def PodConfig.q (cfg : PodConfig) (p : Units) : Part := .quoted (mapPath p cfg.headCwd cfg.podCwd)

def literal (s : String) : Part := .text (units s)

/-- `parts.join(' ')`. -/
def joined (parts : List (List Part)) : List Part := List.intercalate [literal " "] parts

/-- SRCLINE: operations.ts:99-104 -/
def wrapped (cfg : PodConfig) (command cwd : Units) (env : Units → Option Units) : List Part :=
  let pairs := (sandboxEnv env).map fun e => [.text (e.1 ++ units "="), .quoted e.2]
  if pairs.isEmpty then [literal "cd ", cfg.q cwd, literal " && ", .text command]
  else [literal "cd ", cfg.q cwd, literal " && env "] ++ joined pairs ++
    [literal " ", literal "bash -c ", .quoted command]

/-- SRCLINE: operations.ts:166-170 -/
def globLine (cfg : PodConfig) (pattern cwd : Units) (ignore : List Units) (limit : NumberText) :
    List Part :=
  let globs := [literal "-g ", .quoted pattern] ::
    ignore.map fun ig => [literal "-g ", .quoted (units "!" ++ ig)]
  [literal "cd ", cfg.q cwd, literal " && rg --files --hidden "] ++ joined globs ++
    [literal " ", literal "| head -n ", .text limit.text, literal "; ",
      literal "rc=$\x7bPIPESTATUS[0]\x7d; ",
      literal "[ \"$rc\" = 0 ] || [ \"$rc\" = 1 ] || [ \"$rc\" = 141 ] || exit \"$rc\""]

/-- SRCLINE: operations.ts:21-202 -/
def commandLine (cfg : PodConfig) : Operation → List Part
  | .readFile p => [literal "cat ", cfg.q p]
  | .readSize p => [literal "stat -c %s ", cfg.q p]
  | .access p => [literal "test -r ", cfg.q p]
  | .detectImageMimeType p => [literal "file --mime-type -b ", cfg.q p]
  | .writeFile p => [literal "base64 -d > ", cfg.q p]
  | .mkdir dir => [literal "mkdir -p ", cfg.q dir]
  | .editAccess p => [literal "test -r ", cfg.q p, literal " && test -w ", cfg.q p]
  | .bash command cwd env => wrapped cfg command cwd env
  | .exists p => [literal "test -e ", cfg.q p]
  | .stat p =>
    [literal "test -e ", cfg.q p, literal " && (test -d ", cfg.q p,
      literal " && echo DIR || echo FILE)"]
  | .readdir p => [literal "ls -1A ", cfg.q p]
  | .glob pattern cwd ignore limit => globLine cfg pattern cwd ignore limit

end ServerlessHarness.K8sSandbox
