import ServerlessHarness.Library.Transition
import ServerlessHarness.Model.ControlPlane.Exchange

/-!
# The control plane under any requests

A request is a task that runs from one awaited command to the next: each step below is one command
on Redis or on the credential store, with what the handler computes from its answer, and the tasks
interleave. The credential store is a map from subjects and names; it and Redis take one command at
a time. `Choice.fail` is a command that was not carried out. New session ids are ones that were
never given out before.

`log` records the writes and the releases for the statements only: no modelled function reads it.
-/

set_option autoImplicit false

namespace ServerlessHarness.ControlPlane

open Library

/-! ## Requests and tasks -/

/-- A request of the API, with the token it presents, or of the data plane, with its shared
bearer. -/
inductive Request where
  | putCredential (token : Nat) (name : String) (body : Json)
  | deleteCredential (token : Nat) (name : String)
  | createSession (token : Nat) (body : Json)
  | getSession (token : Nat) (id : String)
  | mintSessionToken (token : Nat) (id : String)
  | deleteSession (token : Nat) (id : String)
  | exchangeCredential (bearer : Option String) (token : Nat)

/-- What a session-scoped request does with the record of its owner. -/
inductive SessionOp where
  | view
  | mint
  | delete
deriving DecidableEq, Repr

/-- What a request is answered with. -/
inductive Answer where
  | noContent
  | session (sid : String) (token : Nat)
  | token (token : Nat) (claims : TokenClaims)
  | view (rec : SessionRecord) (runtime : List (String × String))
  | deleted (status : Nat)
  | credential (claims : TokenClaims) (resp : ExchangeResponse) (source : Source)
deriving DecidableEq, Repr

/-- How far a request got; each form but the first and the last two waits for one command. -/
inductive Task where
  | received (req : Request)
  | storing (sub : String) (cred : StoredCredential)
  | dropping (sub name : String)
  | auditingWrite (entry : AuditEntry)
  | listing (p : TokenClaims) (requested : Option String)
  | creating (p : TokenClaims) (rec : SessionRecord)
  | indexing (p : TokenClaims) (rec : SessionRecord)
  | auditingCreate (p : TokenClaims) (rec : SessionRecord)
  | finding (p : TokenClaims) (id : String) (op : SessionOp)
  | viewing (rec : SessionRecord)
  | minting (p : TokenClaims) (rec : SessionRecord)
  | askingRuntime (rec : SessionRecord)
  | tombstoning (rec : SessionRecord) (inFlight : Bool)
  | deletingData (rec : SessionRecord) (inFlight : Bool)
  | unlisting (rec : SessionRecord) (inFlight : Bool)
  | deletingRecord (rec : SessionRecord) (inFlight : Bool)
  | auditingDelete (rec : SessionRecord) (inFlight : Bool)
  | looking (claims : TokenClaims) (sid : String)
  | fetching (claims : TokenClaims) (rec : SessionRecord)
  | auditingExchange (claims : TokenClaims) (entry : AuditEntry) (resp : ExchangeResponse)
      (source : Source)
  | answered (a : Answer)
  | failed (e : CpError)

/-- What happened, in order: a credential stored or dropped, a session recorded, a tombstone
written, what `index.get` returned to a request, and the credential an exchange settled on. -/
inductive Event where
  | stored (sub : String) (cred : StoredCredential)
  | dropped (sub name : String)
  | created (rec : SessionRecord)
  | tombstoned (sid : String)
  | read (sid : String) (found : Option SessionRecord)
  | released (claims : TokenClaims) (resp : ExchangeResponse) (source : Source)
deriving DecidableEq, Repr

/-- The stores, the tokens minted so far, the session ids given out, the clock in milliseconds, and
the requests. -/
structure World where
  redis : Redis
  credentials : OrderedMap (String × String) StoredCredential
  issued : List TokenClaims
  ids : List String
  now : Int
  tasks : List Task
  log : List Event

/-- What a step leaves open: an error of the command, and the id that `newId` returns. -/
inductive Choice where
  | go
  | fail
  | id (sid : String)
deriving DecidableEq, Repr

/-! ## Steps -/

/-- The descriptors of one subject's credentials. -/
def World.list (w : World) (sub : String) : List CredentialDescriptor :=
  (w.credentials.entries.filter fun e => e.1.1 = sub).map fun e => e.2.descriptor

/-- SRCLINE: handlers.ts:116 -/
def World.seconds (w : World) : Int := w.now / 1000

/-- Appends to the log. -/
def World.note (w : World) (e : Event) : World := { w with log := w.log ++ [e] }

/-- `asRecord(asRecord(body).credentials).inference`. -/
def requestedInference (body : Json) : Option Json :=
  (body.get "credentials").bind fun c => c.get "inference"

/-- A handler up to its first command. The router has verified the token of an API request.
SRCLINE: control-plane/server.ts:56-72, handlers.ts:219-225, 354-362, 393-395, exchange.ts:101-110
-/
def startRequest (d : CpDeps) (w : World) : Request → Except CpError Task
  | .putCredential token name body => do
    let p ← verifyToken w.issued token w.seconds "api"
    let name ← validateCredentialName name
    if name = operatorFallbackName then invalid ("credential name '" ++ name ++ "' is reserved")
    else do
      let cred ← parseCredentialBody d.rt name body
      return .storing p.sub cred
  | .deleteCredential token name => do
    let p ← verifyToken w.issued token w.seconds "api"
    let name ← validateCredentialName name
    return .dropping p.sub name
  | .createSession token body => do
    let p ← verifyToken w.issued token w.seconds "api"
    match requestedInference body with
    | none => return .listing p none
    | some (.str name) => return .listing p (some name)
    | some _ => invalid "credentials.inference must be a string"
  | .getSession token id => do
    let p ← verifyToken w.issued token w.seconds "api"
    return .finding p id .view
  | .mintSessionToken token id => do
    let p ← verifyToken w.issued token w.seconds "api"
    return .finding p id .mint
  | .deleteSession token id => do
    let p ← verifyToken w.issued token w.seconds "api"
    return .finding p id .delete
  | .exchangeCredential bearer token =>
    if !checkExchangeAuth bearer d.config.exchangeToken then
      .error (.of .unauthorized "exchange authentication failed")
    else do
      let claims ← verifyToken w.issued token w.seconds "turn:write"
      match claims.sid with
      | none => .error (.of .tokenInvalid "token names no session")
      | some sid => return .looking claims sid

/-- Which credential a new session records; the empty name is the operator fallback.
SRCLINE: handlers.ts:236-241 -/
def sessionCredential (d : CpDeps) (descriptors : List CredentialDescriptor)
    (requested : Option String) : Except CpError String :=
  if requested = none ∧ d.config.allowOperatorFallback ∧
      d.config.operatorInferenceToken.any (· ≠ "") ∧
      ¬ descriptors.any (fun c => c.consumer = .inference) then .ok ""
  else resolveInferenceName descriptors requested

/-- The record of a new session.
SRCLINE: handlers.ts:243-253 -/
def newRecord (p : TokenClaims) (sid credentialName : String) (now : Int) : SessionRecord where
  sessionId := sid
  owner := p.sub
  tenant := p.tenant
  createdAt := now
  deleting := false
  poolSelector := none
  credentialName := credentialName
  tombstone := false

/-- SRCLINE: handlers.ts:97, exchange.ts:116 -/
def sessionNotFound (sid : String) : CpError := ⟨.sessionNotFound, none, some sid⟩

/-- `assertOwner` on the record that was read.
SRCLINE: handlers.ts:89-100 -/
def ownedBy (sub sid : String) : Option SessionRecord → Except CpError SessionRecord
  | none => .error (sessionNotFound sid)
  | some rec => if rec.owner ≠ sub then .error (sessionNotFound sid) else .ok rec

/-- The record of a session that may run a turn: its owner's, and not tombstoned.
SRCLINE: exchange.ts:112-119, handlers.ts:311-314 -/
def liveRecord (sub sid : String) (found : Option SessionRecord) : Except CpError SessionRecord :=
  (ownedBy sub sid found).bind fun rec =>
    if rec.tombstone then .error (sessionNotFound sid) else .ok rec

/-- SRCLINE: handlers.ts:118-123 -/
def turnInFlight (runtime : List (String × String)) : Bool :=
  let started := ((runtime.lookup "turnStartedAt").map numberOf).getD 0
  let ended := ((runtime.lookup "turnEndedAt").map numberOf).getD 0
  started > 0 && started > ended

/-- What follows the read of the record of a session-scoped request. -/
def foundTask (p : TokenClaims) (id : String) (op : SessionOp) (found : Option SessionRecord) :
    Task :=
  match if op = .mint then liveRecord p.sub id found else ownedBy p.sub id found with
  | .error e => .failed e
  | .ok rec =>
    match op with
    | .view => .viewing rec
    | .mint => .minting p rec
    | .delete => .askingRuntime rec

/-- What follows the list of the credentials of a subject: the record of the new session. -/
def listedTask (d : CpDeps) (w : World) (p : TokenClaims) (requested : Option String)
    (sid : String) :
    World × Task :=
  match sessionCredential d (w.list p.sub) requested with
  | .error e => (w, .failed e)
  | .ok name => ({ w with ids := w.ids ++ [sid] }, .creating p (newRecord p sid name w.now))

/-- The exchange once it has read the record and the credential. -/
def World.settle (d : CpDeps) (w : World) (claims : TokenClaims) (rec : SessionRecord)
    (stored : Option StoredCredential) : World × Task :=
  match exchangeResult d rec stored with
  | .error e => (w, .failed e)
  | .ok (entry, resp, source) =>
    (w.note (.released claims resp source), .auditingExchange claims entry resp source)

/-- What follows the read of the record of an exchange. -/
def lookedTask (d : CpDeps) (w : World) (claims : TokenClaims) (sid : String)
    (found : Option SessionRecord) : World × Task :=
  match liveRecord claims.sub sid found with
  | .error e => (w, .failed e)
  | .ok rec =>
    if rec.credentialName = "" then w.settle d claims rec none else (w, .fetching claims rec)

/-- The error of a Redis command that failed. -/
def redisUnavailable : CpError := .of .redisUnavailable "redis is not answering"

/-- The error of a credential store that failed. -/
def storeUnavailable : CpError := .of .credentialUnavailable "the credential store is not answering"

/-- What a failed command does to a task: a failed audit of a credential write is only logged.
SRCLINE: handlers.ts:142-156, ownership.ts:95-103 -/
def failTask : Task → Option Task
  | .storing _ _ | .dropping _ _ | .listing _ _ | .fetching _ _ => some (.failed storeUnavailable)
  | .auditingWrite _ => some (.answered .noContent)
  | .creating _ _ | .indexing _ _ | .auditingCreate _ _ | .finding _ _ _ | .viewing _
  | .askingRuntime _ | .tombstoning _ _ | .deletingData _ _ | .unlisting _ _ | .deletingRecord _ _
  | .auditingDelete _ _ | .looking _ _ | .auditingExchange _ _ _ _ =>
    some (.failed redisUnavailable)
  | _ => none

/-- One command of a request, and what its handler makes of the answer. -/
def taskStep (d : CpDeps) (w : World) : Task → Choice → Option (World × Task)
  | .received req, .go =>
    match startRequest d w req with
    | .error e => some (w, .failed e)
    | .ok t => some (w, t)
  -- PUT and DELETE of a credential
  | .storing sub cred, .go =>
    some ({ w.note (.stored sub cred) with
        credentials := w.credentials.set (sub, cred.descriptor.name) cred },
      .auditingWrite ⟨sub, none, some cred.descriptor.name, "credential_written"⟩)
  | .dropping sub name, .go =>
    some ({ w.note (.dropped sub name) with credentials := w.credentials.erase (sub, name) },
      .auditingWrite ⟨sub, none, some name, "credential_deleted"⟩)
  | .auditingWrite entry, .go => some ({ w with redis := w.redis.xAdd entry }, .answered .noContent)
  -- a new session
  | .listing p requested, .id sid =>
    if sid ∈ w.ids then none else some (listedTask d w p requested sid)
  | .creating p rec, .go =>
    some ({ w.note (.created rec) with redis := w.redis.createRecord rec }, .indexing p rec)
  | .indexing p rec, .go =>
    some ({ w with redis :=
        w.redis.zAdd (ownerKey d.subjectHash rec.owner) rec.createdAt rec.sessionId },
      .auditingCreate p rec)
  | .auditingCreate p rec, .go =>
    let entry : AuditEntry := ⟨p.sub, some rec.sessionId,
      some (if rec.credentialName = "" then operatorFallbackName else rec.credentialName),
      "session_created"⟩
    let claims := mint p.sub rec.tenant p.roles ["turn:write"] d.config.sessionTokenTtlSeconds
      (some rec.sessionId) w.seconds
    some ({ w with redis := w.redis.xAdd entry, issued := w.issued ++ [claims] },
      .answered (.session rec.sessionId w.issued.length))
  -- requests on one session
  | .finding p id op, .go =>
    some (w.note (.read id (w.redis.getSession id)), foundTask p id op (w.redis.getSession id))
  | .viewing rec, .go => some (w, .answered (.view rec (w.redis.getRuntime rec.sessionId)))
  | .minting p rec, .go =>
    let claims := mint rec.owner rec.tenant p.roles ["turn:write"] d.config.sessionTokenTtlSeconds
      (some rec.sessionId) w.seconds
    some ({ w with issued := w.issued ++ [claims] }, .answered (.token w.issued.length claims))
  -- the cascade
  | .askingRuntime rec, .go =>
    some (w, .tombstoning rec (turnInFlight (w.redis.getRuntime rec.sessionId)))
  | .tombstoning rec inFlight, .go =>
    some ({ w.note (.tombstoned rec.sessionId) with redis := w.redis.tombstone rec.sessionId },
      .deletingData rec inFlight)
  | .deletingData rec inFlight, .go =>
    some ({ w with redis := w.redis.deleteData rec.sessionId }, .unlisting rec inFlight)
  | .unlisting rec inFlight, .go =>
    some ({ w with redis := w.redis.zRem (ownerKey d.subjectHash rec.owner) rec.sessionId },
      .deletingRecord rec inFlight)
  | .deletingRecord rec inFlight, .go =>
    some ({ w with redis := w.redis.deleteRecord rec.sessionId }, .auditingDelete rec inFlight)
  | .auditingDelete rec inFlight, .go =>
    let entry : AuditEntry := ⟨rec.owner, some rec.sessionId, none,
      if inFlight then "session_deleted_in_flight" else "session_deleted"⟩
    some ({ w with redis := w.redis.xAdd entry },
      .answered (.deleted (if inFlight then 202 else 204)))
  -- the exchange
  | .looking claims sid, .go =>
    let found := w.redis.getSession sid
    some (lookedTask d (w.note (.read sid found)) claims sid found)
  | .fetching claims rec, .go =>
    some (w.settle d claims rec (w.credentials.get (rec.owner, rec.credentialName)))
  | .auditingExchange claims entry resp source, .go =>
    some ({ w with redis := w.redis.xAdd entry }, .answered (.credential claims resp source))
  | t, .fail => (failTask t).map fun t' => (w, t')
  | _, _ => none

/-! ## Runs -/

/-- What can happen next: a completed login, a request, a runtime report of the data plane, the
clock, or the next step of a request.
SRCLINE: turn-auth.ts:383 -/
inductive Action where
  | login (subject : String) (roles : List String)
  | request (req : Request)
  | report (sid : String) (fields : List (String × String))
  | tick (d : Nat)
  | run (i : Nat) (c : Choice)

/-- SRCLINE: handlers.ts:187-212 -/
def World.login (d : CpDeps) (w : World) (subject : String) (roles : List String) : World :=
  let claims := mint subject subject roles ["api"] d.config.apiTokenTtlSeconds none w.seconds
  { w with issued := w.issued ++ [claims] }

/-- One step of the control plane and its callers. -/
def step (d : CpDeps) (w : World) : Action → Option World
  | .login subject roles => some (w.login d subject roles)
  | .request req => some { w with tasks := w.tasks ++ [.received req] }
  | .report sid fields => some { w with redis := w.redis.putRuntime sid fields }
  | .tick ms => some { w with now := w.now + ms }
  | .run i c =>
    match w.tasks[i]? with
    | none => none
    | some t => (taskStep d w t c).map fun r => { r.1 with tasks := r.1.tasks.set i r.2 }

/-- No token, no credential, no session and no request yet. -/
def World.start (now : Int) : World :=
  ⟨.empty, .empty, [], [], now, [], []⟩

/-- A control plane starts at any time. -/
def World.initial (w : World) : Prop := ∃ now, w = .start now

/-- Every run of a control plane. -/
def controlPlane (d : CpDeps) : TransitionSystem World := .ofStep World.initial (step d)

end ServerlessHarness.ControlPlane
