import ServerlessHarness.Model.Leaf.Envelope

/-!
# What a leaf run keeps, and under which names

A leaf run reads and writes state that outlives it: the session log, the result record, its lease,
the workspace of its sandbox. Each runner derives the session id of the envelope for itself and
passes it on. `runAccesses` lists the names under which a run can touch such state, in the order of
the source; a run that fails on the way touches some of them.
-/

set_option autoImplicit false

namespace ServerlessHarness.Leaf

open Library LeafJob

/-! ## The envelope's identity -/

/-- SRCLINE: run-leaf.ts:158-161 -/
def leafSessionIdOf (tenant : Option String) (sessionId : String) : String :=
  match tenant with
  | some t => if t = "" then toSessionId sessionId else toSessionId (t ++ "/" ++ sessionId)
  | none => toSessionId sessionId

/-- An envelope with the two fields that name it.
SRCLINE: run-leaf.ts:99-123 -/
structure NamedEnvelope extends LeafEnvelope where
  tenant : Option String
  sessionId : String

def NamedEnvelope.leafSessionId (env : NamedEnvelope) : String :=
  leafSessionIdOf env.tenant env.sessionId

/-! ## Names -/

/-- SRCLINE: redis-backend.ts:7 -/
def streamKey (sid : String) : String := "session:" ++ sid

/-- SRCLINE: redis-backend.ts:8 -/
def seqKey (sid : String) : String := "session:" ++ sid ++ ":seq"

/-- SRCLINE: converge.ts:9-11 -/
def leafWorkspaceRef (sessionId : String) : String := "/workspace/leaves/" ++ sessionId

/-- SRCLINE: swebench-setup.ts:11-13 -/
def swebenchCheckoutDir (sessionId : String) : String := "/workspace/co-" ++ sessionId

/-- SRCLINE: swebench-setup.ts:14-16 -/
def swebenchVenvDir (sessionId : String) : String := "/workspace/venv-" ++ sessionId

/-- SRCLINE: config-overlay.ts:31-33 -/
def leafConfigDir (sessionId : String) : String :=
  "/workspace/leaves/" ++ sessionId ++ "/.sh-config"

/-- A name under which a run touches durable state. -/
inductive Access where
  | log (stream seq : String)
  | result (key : String)
  | lease (member : String)
  | workspace (key : String)
  | worktree (path : String)
  | checkout (path : String)
  | venv (path : String)
  | configLink (path : String)
deriving DecidableEq, Repr

def sessionLog (sid : String) : Access := .log (streamKey sid) (seqKey sid)

/-- Every name that belongs to a session id. -/
def accessesOf (sid : String) : List Access :=
  [sessionLog sid, .result (resultKey sid), .lease sid, .workspace sid,
    .worktree (leafWorkspaceRef sid), .checkout (swebenchCheckoutDir sid),
    .venv (swebenchVenvDir sid), .configLink (leafConfigDir sid)]

/-! ## The runners -/

/-- The lease's member is the holder, which defaults to the session id; the workspace is the
session's.
SRCLINE: select-sandbox.ts:390-465 -/
def selectAccesses (sessionId : String) (holderId : Option String) : List Access :=
  [.lease (holderId.getD sessionId), .workspace sessionId]

/-- SRCLINE: run-leaf.ts:706-860 -/
def realProduceVerdictAccesses (env : NamedEnvelope) : List Access :=
  let sid := env.leafSessionId
  sessionLog sid :: selectAccesses sid none ++
    (if given env.repoUrl && given env.ref then [.worktree (leafWorkspaceRef sid)] else [])

/-- SRCLINE: run-leaf.ts:287-336 -/
def runVerdictLeafAccesses (env : NamedEnvelope) : List Access :=
  match validateItem env.item with
  | some _ => realProduceVerdictAccesses env
  | none => []

/-- SRCLINE: run-leaf.ts:583-700 -/
def realProduceSolveAccesses (env : NamedEnvelope) : List Access :=
  let sid := env.leafSessionId
  selectAccesses sid none ++ sessionLog sid ::
    (if isSwebenchEnvelope env.toLeafEnvelope then
      [.checkout (swebenchCheckoutDir sid), .venv (swebenchVenvDir sid)]
    else [.worktree (leafWorkspaceRef sid)])

/-- SRCLINE: run-leaf.ts:338-359 -/
def runSolveLeafAccesses (env : NamedEnvelope) : List Access :=
  if given env.problemStatement && given env.repoUrl && given env.ref then
    realProduceSolveAccesses env
  else []

/-- The session that a turn opens; `fresh` is the id of a session that is created without one.
SRCLINE: run-turn.ts:778-811 -/
def openTurnSession (fresh sessionId : String) : String :=
  if sessionId = "" then fresh else sessionId

/-- The configuration reference is present and names no bundle.
SRCLINE: run-leaf.ts:469-478 -/
def emptyConfigRef (env : LeafEnvelope) : Bool := env.configRef.any fun ref => (trim ref).isEmpty

/-- The overlay is keyed by `sid`; the turn is given the envelope's own session id, and a sandbox,
so that it leases none.
SRCLINE: run-leaf.ts:361-578 -/
def runPromptLeafAccesses (fresh : String) (env : NamedEnvelope) : List Access :=
  let sid := env.leafSessionId
  if given env.prompt then
    selectAccesses sid none ++
      (if emptyConfigRef env.toLeafEnvelope then []
      else (if env.configRef.isSome then [.configLink (leafConfigDir sid)] else []) ++
        [sessionLog (openTurnSession fresh env.sessionId)])
  else []

/-- SRCLINE: run-leaf.ts:287-336 -/
def runLeafAccesses (fresh : String) (env : NamedEnvelope) : List Access :=
  match env.kind with
  | .solve => runSolveLeafAccesses env
  | .prompt => runPromptLeafAccesses fresh env
  | .converge => runVerdictLeafAccesses env

/-- A run with the record that the queue worker or the request handler stores for it.
SRCLINE: leaf-job-runner.ts:56-94, knative-server/server.ts:661-666 -/
def runAccesses (fresh : String) (env : NamedEnvelope) : List Access :=
  runLeafAccesses fresh env ++ [.result (resultKey env.leafSessionId)]

end ServerlessHarness.Leaf
