import ServerlessHarness.Library.Json

/-!
# Leaf envelopes, results and result records

What a queue worker reads and writes: the session id of an envelope (`leafSessionId`), the
results of a leaf run, which of them are retried (`classifyOutcome`), and the record stored for
a result (`toResultRecord`). An envelope is any JSON value: the worker casts what it parsed.
-/

set_option autoImplicit false

namespace ServerlessHarness.LeafJob

open Library

/-! ## Session ids -/

/-- One character under `replace(/[^A-Za-z0-9._-]/g, '-')`; the expression sees a character
outside the basic plane as two code units.
SRCLINE: run-leaf.ts:80 -/
def cleanChar (c : Char) : List Char :=
  if c.isAlphanum || c = '.' || c = '_' || c = '-' then [c]
  else if 0xFFFF < c.toNat then ['-', '-']
  else ['-']

/-- SRCLINE: run-leaf.ts:79-90 -/
def toSessionId (sessionId : String) : String :=
  let cleaned := sessionId.toList.flatMap cleanChar
  let trimmed :=
    ((cleaned.dropWhile fun c => !c.isAlphanum).reverse.dropWhile fun c => !c.isAlphanum).reverse
  if trimmed.isEmpty then "leaf" else String.ofList trimmed

example : toSessionId "/a b/" = "a-b" := by decide +kernel

/-- The session id of an envelope; `none` is a `TypeError`: `null` has no properties, and
without a tenant only a string has `replace`.
SRCLINE: run-leaf.ts:158-161 -/
def leafSessionId (host : Host) (env : Json) : Option String :=
  match env with
  | .null => none
  | env =>
    match env.get "tenant", env.get "sessionId" with
    | some tenant, sessionId =>
      if tenant.truthy then
        (host.template (some tenant)).bind fun t =>
          (host.template sessionId).map fun s => toSessionId (t ++ "/" ++ s)
      else plain sessionId
    | none, sessionId => plain sessionId
where
  plain : Option Json → Option String
    | some (.str s) => some (toSessionId s)
    | _ => none

/-! ## Results -/

/-- SRCLINE: verdict.ts:1-7 -/
inductive VerdictLabel where
  | flagged
  | clear
deriving DecidableEq, Repr

/-- SRCLINE: verdict.ts:3-7 -/
structure Verdict where
  itemId : String
  verdict : VerdictLabel
  reason : String
deriving DecidableEq, Repr

/-- SRCLINE: run-leaf.ts:168-175 -/
structure LeafUsage where
  input : Nat
  output : Nat
  cacheRead : Nat
  cacheWrite : Nat
  total : Nat
deriving DecidableEq, Repr

/-- SRCLINE: run-leaf.ts:185 -/
inductive FailReason where
  | noVerdict
  | invalidVerdict
  | badInputs
  | error
  | saturated
deriving DecidableEq, Repr

/-- SRCLINE: run-leaf.ts:177-187 -/
inductive LeafResult where
  | done (verdict : Verdict)
  | paused (gateId : Nat) (summary proposedAction : String)
  | aborted
  | solved (patch : String) (usage : Option LeafUsage)
  | responded (text : String) (usage : Option LeafUsage)
  | failed (reason : FailReason) (message : Option String)
deriving DecidableEq, Repr

/-- SRCLINE: classify-outcome.ts:3-6 -/
structure Outcome where
  ack : Bool
  retryable : Bool
deriving DecidableEq, Repr

/-- SRCLINE: classify-outcome.ts:15-20 -/
def classifyOutcome : LeafResult → Outcome
  | .failed .error _ => ⟨false, true⟩
  | .failed .saturated _ => ⟨false, true⟩
  | _ => ⟨true, false⟩

/-! ## Result records -/

/-- SRCLINE: leaf-result-store.ts:7 -/
inductive Status where
  | done
  | failed
  | aborted
  | paused
  | solved
  | responded
deriving DecidableEq, Repr

/-- SRCLINE: leaf-result-store.ts:9 -/
structure Gate where
  gateId : Nat
  summary : String
  proposedAction : String
deriving DecidableEq, Repr

/-- `sessionId` is the envelope's own, unchecked.
SRCLINE: leaf-result-store.ts:6-16 -/
structure LeafResultRecord where
  status : Status
  verdict : Option Verdict
  gate : Option Gate
  reason : Option FailReason
  patch : Option String
  text : Option String
  usage : Option LeafUsage
  sessionId : Option Json
  ts : String
deriving Repr

/-- SRCLINE: leaf-result-store.ts:24-26 -/
def resultKey (leafSessionId : String) : String := "leaf:result:" ++ leafSessionId

/-- SRCLINE: leaf-result-store.ts:29-63 -/
def toResultRecord (result : LeafResult) (rawSessionId : Option Json) (ts : String) :
    LeafResultRecord :=
  let base : LeafResultRecord := ⟨.failed, none, none, none, none, none, none, rawSessionId, ts⟩
  match result with
  | .done verdict => { base with status := .done, verdict := some verdict }
  | .solved patch usage => { base with status := .solved, patch := some patch, usage := usage }
  | .responded text usage => { base with status := .responded, text := some text, usage := usage }
  | .paused gateId summary proposedAction =>
    { base with status := .paused, gate := some ⟨gateId, summary, proposedAction⟩ }
  | .aborted => { base with status := .aborted }
  | .failed reason _ => { base with status := .failed, reason := some reason }

end ServerlessHarness.LeafJob
