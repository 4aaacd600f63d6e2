import ServerlessHarness.Library.OrderedMap
import ServerlessHarness.Model.ControlPlane.Credentials

/-!
# The session index

The session records of the control plane, in Redis. Each command below is atomic; `create` and
`cascadeDelete` are several commands, and which of them have run is part of the state of a request
(`Model.ControlPlane.Requests`).
-/

set_option autoImplicit false

namespace ServerlessHarness.ControlPlane

open Library

/-! ## Redis -/

abbrev Hash := OrderedMap String String

/-- An entry of the audit stream.
SRCLINE: ownership.ts:216-233 -/
structure AuditEntry where
  subject : String
  sessionId : Option String
  credential : Option String
  decision : String
deriving DecidableEq, Repr

/-- The hashes, the sorted sets and the audit stream. -/
structure Redis where
  hashes : OrderedMap String Hash
  zsets : OrderedMap String (OrderedMap String Int)
  audit : List AuditEntry

def Redis.empty : Redis := ⟨.empty, .empty, []⟩

/-- Writes fields over what a hash has. -/
def hSetFields (h : Hash) (values : List (String × String)) : Hash :=
  values.foldl (fun h e => h.set e.1 e.2) h

def Redis.hGetAll (r : Redis) (key : String) : Hash := (r.hashes.get key).getD .empty

def Redis.hSet (r : Redis) (key : String) (values : List (String × String)) : Redis :=
  { r with hashes := r.hashes.set key (hSetFields (r.hGetAll key) values) }

def Redis.del (r : Redis) (keys : List String) : Redis :=
  { r with hashes := keys.foldl (fun m key => m.erase key) r.hashes }

def Redis.zAdd (r : Redis) (key : String) (score : Int) (member : String) : Redis :=
  { r with zsets := r.zsets.set key (((r.zsets.get key).getD .empty).set member score) }

def Redis.zRem (r : Redis) (key member : String) : Redis :=
  { r with zsets := r.zsets.set key (((r.zsets.get key).getD .empty).erase member) }

def Redis.xAdd (r : Redis) (entry : AuditEntry) : Redis := { r with audit := r.audit ++ [entry] }

/-! ## Keys and records -/

/-- SRCLINE: ownership.ts:54 -/
def sessionKey (sid : String) : String := "sh:cp:session:" ++ sid

/-- SRCLINE: ownership.ts:55 -/
def runtimeKey (sid : String) : String := "sh:cp:session:" ++ sid ++ ":runtime"

/-- SRCLINE: ownership.ts:57 -/
def ownerKey (subjectHash : String → String) (subject : String) : String :=
  "sh:cp:owner:" ++ subjectHash subject ++ ":sessions"

/-- SRCLINE: ownership.ts:60-64 -/
def dataKeys (sid : String) : List String :=
  ["session:" ++ sid, "session:" ++ sid ++ ":seq", "leaf:result:" ++ sid]

/-- SRCLINE: ownership.ts:67-79 -/
def runtimeFields : List String :=
  ["harnessPod", "revision", "sandboxPod", "sandboxSelector", "leaseKey", "lastTurnAt", "turns",
    "turnStartedAt", "turnEndedAt"]

/-- SRCLINE: ownership.ts:38-48 -/
structure SessionRecord where
  sessionId : String
  owner : String
  tenant : String
  createdAt : Int
  deleting : Bool
  poolSelector : Option String
  credentialName : String
  tombstone : Bool
deriving DecidableEq, Repr

/-- `Number(text)` of a text that `create` wrote. -/
def numberOf (text : String) : Int := text.toInt?.getD 0

/-! ## The commands -/

/-- The fields `create` writes.
SRCLINE: ownership.ts:105-116 -/
def SessionRecord.fields (rec : SessionRecord) : List (String × String) :=
  [("owner", rec.owner), ("tenant", rec.tenant), ("createdAt", toString rec.createdAt),
    ("state", if rec.deleting then "deleting" else "active"),
    ("poolSelector", rec.poolSelector.getD ""), ("credentialName", rec.credentialName),
    ("tombstone", if rec.tombstone then "1" else "0")]

/-- The first command of `create`. -/
def Redis.createRecord (r : Redis) (rec : SessionRecord) : Redis :=
  r.hSet (sessionKey rec.sessionId) rec.fields

/-- The record a hash stands for; a hash without an owner stands for none.
SRCLINE: ownership.ts:122-137 -/
def recordOf (sid : String) (h : Hash) : Option SessionRecord :=
  match h.get "owner" with
  | none => none
  | some owner =>
    if owner = "" then none
    else
      some
        { sessionId := sid
          owner := owner
          tenant := (h.get "tenant").getD owner
          createdAt := ((h.get "createdAt").map numberOf).getD 0
          deleting := h.get "state" = some "deleting"
          poolSelector := (h.get "poolSelector").filter (· ≠ "")
          credentialName := (h.get "credentialName").getD ""
          tombstone := h.get "tombstone" = some "1" }

/-- `index.get`. -/
def Redis.getSession (r : Redis) (sid : String) : Option SessionRecord :=
  recordOf sid (r.hGetAll (sessionKey sid))

/-- SRCLINE: ownership.ts:188-191 -/
def Redis.tombstone (r : Redis) (sid : String) : Redis :=
  r.hSet (sessionKey sid) [("tombstone", "1"), ("state", "deleting")]

/-- The fields of a report that are kept.
SRCLINE: ownership.ts:200-204 -/
def allowedFields (fields : List (String × String)) : List (String × String) :=
  runtimeFields.filterMap fun f => (fields.lookup f).map fun v => (f, v)

/-- SRCLINE: ownership.ts:200-207 -/
def Redis.putRuntime (r : Redis) (sid : String) (fields : List (String × String)) : Redis :=
  if allowedFields fields = [] then r else r.hSet (runtimeKey sid) (allowedFields fields)

/-- SRCLINE: ownership.ts:209-214 -/
def Redis.getRuntime (r : Redis) (sid : String) : List (String × String) :=
  runtimeFields.filterMap fun f => ((r.hGetAll (runtimeKey sid)).get f).map fun v => (f, v)

/-- The second command of `cascadeDelete`.
SRCLINE: ownership.ts:242 -/
def Redis.deleteData (r : Redis) (sid : String) : Redis := r.del (dataKeys sid ++ [runtimeKey sid])

/-- The last command of `cascadeDelete`.
SRCLINE: ownership.ts:244 -/
def Redis.deleteRecord (r : Redis) (sid : String) : Redis := r.del [sessionKey sid]

end ServerlessHarness.ControlPlane
