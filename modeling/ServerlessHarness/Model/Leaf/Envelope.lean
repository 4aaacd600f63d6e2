import ServerlessHarness.Library.Trim
import ServerlessHarness.Model.LeafJob.Leaf

/-!
# The envelope of a leaf

What `runLeaf` is given, with the item of a verdict leaf (`validateItem`) and the tests on optional
strings that its three runners share.
-/

set_option autoImplicit false

namespace ServerlessHarness.Leaf

open Library LeafJob

/-! ## Strings -/

def trim (s : String) : String := String.ofList (trimEnds (isWhiteSpace ·.toNat) s.toList)

/-- A string that is there and not empty. -/
def given (s : Option String) : Bool := s.any fun t => !t.isEmpty

/-! ## The item -/

/-- A property that is a string. -/
def strField (data : Json) (key : String) : Option String :=
  (data.get key).bind fun
    | .str s => some s
    | .null | .bool _ | .num _ _ | .arr _ | .obj _ => none

/-- SRCLINE: run-leaf.ts:92-97 -/
structure LeafItem where
  itemId : String
  file : String
  pattern : String
  requireApproval : Bool
deriving DecidableEq, Repr

/-- SRCLINE: run-leaf.ts:269-285 -/
def validateItem (o : Json) : Option LeafItem :=
  (strField o "item_id").bind fun itemId =>
    (strField o "file").bind fun file =>
      (strField o "pattern").map fun pattern =>
        ⟨itemId, file, pattern, (o.get "require_approval").any fun
          | .bool b => b
          | .null | .num _ _ | .str _ | .arr _ | .obj _ => false⟩

/-! ## The envelope -/

/-- SRCLINE: run-leaf.ts:119 -/
inductive LeafKind where
  | converge
  | solve
  | prompt
deriving DecidableEq, Repr

/-- What `runLeaf` reads of the envelope; the item and the decision are unchecked.
SRCLINE: run-leaf.ts:99-123 -/
structure LeafEnvelope where
  kind : LeafKind
  sandboxPoolSelector : Option String
  item : Json
  decision : Option Json
  workspaceRef : Option String
  repoUrl : Option String
  ref : Option String
  maxTurns : Option Int
  configRef : Option String
  problemStatement : Option String
  prompt : Option String
  envKey : Option String

/-- SRCLINE: run-leaf.ts:163-166 -/
def isSwebenchEnvelope (env : LeafEnvelope) : Bool := env.kind = .solve && given env.envKey

/-- An envelope of the given kind with all that the kind requires. -/
def sampleEnvelope (kind : LeafKind) : LeafEnvelope where
  kind := kind
  sandboxPoolSelector := none
  item := .obj [("item_id", .str "i"), ("file", .str "f"), ("pattern", .str "p")]
  decision := none
  workspaceRef := none
  repoUrl := some "r"
  ref := some "main"
  maxTurns := none
  configRef := none
  problemStatement := some "fix"
  prompt := some "hello"
  envKey := none

end ServerlessHarness.Leaf
