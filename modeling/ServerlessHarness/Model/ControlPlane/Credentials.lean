import ServerlessHarness.Library.Json

/-!
# Credentials

What a credential is, how a request body becomes one, and which of a subject's credentials a
session runs on. `Host` stands for what the runtime supplies: the URL parser, case folding, and the
text of a JSON value in a message.
-/

set_option autoImplicit false

namespace ServerlessHarness.ControlPlane

open Library

/-! ## Errors -/

/-- SRCLINE: control-plane/errors.ts:15-35 -/
inductive CpErrorCode where
  | invalidRequest
  | tokenRequired
  | tokenInvalid
  | tokenExpired
  | unauthorized
  | sessionNotFound
  | credentialRequired
  | credentialAmbiguous
  | credentialNotFound
  | credentialUnavailable
  | endpointUnresolved
  | redisUnavailable
deriving DecidableEq, Repr

/-- SRCLINE: control-plane/errors.ts:72-81 -/
structure CpError where
  code : CpErrorCode
  message : Option String
  sessionId : Option String
deriving DecidableEq, Repr

/-- `new CpError(code, message)`. -/
def CpError.of (code : CpErrorCode) (message : String) : CpError := ⟨code, some message, none⟩

/-- SRCLINE: credential-store.ts:226-228 -/
def invalid {α : Type} (why : String) : Except CpError α := .error (.of .invalidRequest why)

/-! ## The runtime -/

/-- What `new URL` returns of an absolute URL. -/
structure Url where
  protocol : String
  hostname : String
  pathname : String
  search : String
deriving DecidableEq, Repr

/-- What the runtime supplies: `URL.parse`, `String.prototype.toLowerCase`, and the text of a
value. -/
structure Runtime where
  parseUrl : String → Option Url
  toLowerCase : String → String
  toText : Json → String

/-! ## The model of credentials -/

/-- SRCLINE: credential-store.ts:13-15 -/
inductive Consumer where
  | inference
  | sandboxEgress
  | controlPlane
deriving DecidableEq, Repr

/-- The consumers under their names. -/
def consumers : List (String × Consumer) :=
  [("inference", .inference), ("sandbox-egress", .sandboxEgress), ("control-plane", .controlPlane)]

def Consumer.text : Consumer → String
  | .inference => "inference"
  | .sandboxEgress => "sandbox-egress"
  | .controlPlane => "control-plane"

/-- SRCLINE: credential-store.ts:17-20 -/
structure CredentialBinding where
  header : String
  format : String
deriving DecidableEq, Repr

/-- SRCLINE: credential-store.ts:27 -/
inductive InferenceAuthHeader where
  | authorization
  | xApiKey
deriving DecidableEq, Repr

/-- The text between braces. -/
def inBraces (field : String) : String := "\x7b" ++ field ++ "\x7d"

/-- Which of the two headers a binding describes.
SRCLINE: credential-store.ts:37-45 -/
def inferenceAuthHeader (rt : Runtime) (binding : CredentialBinding) (field : String) :
    Option InferenceAuthHeader :=
  let header := rt.toLowerCase binding.header
  if header = "authorization" ∧ binding.format = "Bearer " ++ inBraces field then
    some .authorization
  else if header = "x-api-key" ∧ binding.format = inBraces field then some .xApiKey
  else none

/-- SRCLINE: credential-store.ts:101-110 -/
structure CredentialDescriptor where
  name : String
  kind : String
  consumer : Consumer
  hosts : List String
  binding : CredentialBinding
  endpoint : Option String
deriving DecidableEq, Repr

/-- The fields of `secret` stand in the order in which they were inserted.
SRCLINE: credential-store.ts:112-116 -/
structure StoredCredential where
  descriptor : CredentialDescriptor
  secret : List (String × String)
deriving DecidableEq, Repr

/-! ## Names and kinds -/

/-- A character of `[a-z0-9]`. -/
def isNameEnd (c : Char) : Bool := ('a' ≤ c && c ≤ 'z') || ('0' ≤ c && c ≤ '9')

/-- `CREDENTIAL_NAME_RE`: at most forty characters of `[a-z0-9-]`, the first and the last of
`[a-z0-9]`.
SRCLINE: credential-store.ts:140 -/
def credentialNameRe (name : String) : Bool :=
  let cs := name.toList
  cs.length ≤ 40 && cs.all (fun c => isNameEnd c || c == '-') && cs.head?.any isNameEnd &&
    cs.getLast?.any isNameEnd

/-- SRCLINE: credential-store.ts:142-147 -/
def validateCredentialName (name : String) : Except CpError String :=
  if credentialNameRe name then .ok name
  else invalid "credential name must match ^[a-z0-9]([a-z0-9-]\x7b0,38\x7d[a-z0-9])?$"

/-- SRCLINE: credential-store.ts:149-153 -/
structure KindSpec where
  secretFields : List String
  defaultBinding : CredentialBinding
deriving DecidableEq, Repr

/-- SRCLINE: credential-store.ts:159-182 -/
def kinds : List (String × KindSpec) :=
  [("bearer", ⟨["token"], ⟨"Authorization", "Bearer \x7btoken\x7d"⟩⟩),
    ("basic", ⟨["username", "password"],
      ⟨"Authorization", "Basic \x7bbase64(username:password)\x7d"⟩⟩),
    ("api-key", ⟨["key"], ⟨"X-API-Key", "\x7bkey\x7d"⟩⟩),
    ("oauth2-token", ⟨["accessToken"], ⟨"Authorization", "Bearer \x7baccessToken\x7d"⟩⟩)]

/-- `texts.join(', ')`. -/
def joinComma (texts : List String) : String := ", ".intercalate texts

/-- SRCLINE: credential-store.ts:198-207 -/
def kindSpec (kind : String) : Except CpError KindSpec :=
  match kinds.lookup kind with
  | some spec => .ok spec
  | none =>
    invalid ("unknown credential kind '" ++ kind ++ "' (known: " ++
      joinComma (kinds.map Prod.fst) ++ ")")

/-! ## The body of a PUT -/

/-- SRCLINE: credential-store.ts:231-236 -/
def validateHost (rt : Runtime) : Json → Except CpError String
  | .str h =>
    if h = "" ∨ h.toList.any (fun c => c ∈ [':', '/', '?', '#']) then
      invalid ("destination.hosts entries must be bare hostnames, got '" ++ h ++ "'")
    else .ok h
  | v => invalid ("destination.hosts entries must be bare hostnames, got '" ++ rt.toText v ++ "'")

/-- SRCLINE: credential-store.ts:242-243 -/
def parseKind (body : Json) : Except CpError (String × KindSpec) :=
  match body.get "kind" with
  | some (.str kind) => (kindSpec kind).map fun spec => (kind, spec)
  | _ => invalid "kind is required"

/-- SRCLINE: credential-store.ts:245-248 -/
def parseConsumer (body : Json) : Except CpError Consumer :=
  match body.get "consumer" with
  | some (.str text) =>
    match consumers.lookup text with
    | some consumer => .ok consumer
    | none => invalid ("consumer must be one of " ++ joinComma (consumers.map Prod.fst))
  | _ => invalid ("consumer must be one of " ++ joinComma (consumers.map Prod.fst))

/-- SRCLINE: credential-store.ts:255-260 -/
def checkSingleField (kind : String) (spec : KindSpec) (consumer : Consumer) :
    Except CpError Unit :=
  if consumer = .inference ∧ spec.secretFields.length ≠ 1 then
    invalid ("consumer 'inference' needs a single-secret-field kind; '" ++ kind ++ "' declares " ++
      toString spec.secretFields.length ++ " (" ++ joinComma spec.secretFields ++ ")")
  else .ok ()

/-- SRCLINE: credential-store.ts:262-266 -/
def parseHosts (rt : Runtime) (body : Json) : Except CpError (List String) :=
  match (body.get "destination").bind fun dest => dest.get "hosts" with
  | some (.arr (h :: hs)) => (h :: hs).mapM (validateHost rt)
  | _ => invalid "destination.hosts must be a non-empty array"

/-- SRCLINE: credential-store.ts:268-272 -/
def parseBinding (spec : KindSpec) (body : Json) : Except CpError CredentialBinding :=
  match body.get "binding" with
  | none => .ok spec.defaultBinding
  | some binding =>
    match binding.get "header", binding.get "format" with
    | some (.str header), some (.str format) => .ok ⟨header, format⟩
    | _, _ => invalid "binding must be \x7b header, format \x7d"

/-- SRCLINE: credential-store.ts:276-291 -/
def parseEndpoint (rt : Runtime) (consumer : Consumer) (body : Json) :
    Except CpError (Option String) :=
  match body.get "endpoint" with
  | none => .ok none
  | some .null => .ok none
  | some v =>
    if consumer ≠ .inference then invalid "endpoint is only valid for consumer: inference"
    else
      match v with
      | .str endpoint =>
        match rt.parseUrl endpoint with
        | none => invalid "endpoint must be an absolute URL, e.g. https://litellm.internal/v1"
        | some url =>
          if url.protocol ≠ "https:" ∧ url.protocol ≠ "http:" then
            invalid "endpoint must be http(s)"
          else .ok (some endpoint)
      | _ => invalid "endpoint must be a string"

/-- One field of the secret.
SRCLINE: credential-store.ts:303-308 -/
def parseSecretField (secret : List (String × Json)) (field : String) :
    Except CpError (String × String) :=
  match secret.lookup field with
  | some (.str v) =>
    if v = "" then invalid ("secret." ++ field ++ " must be a non-empty string") else .ok (field, v)
  | _ => invalid ("secret." ++ field ++ " must be a non-empty string")

/-- The keys of the secret are those of the kind, in any order.
SRCLINE: credential-store.ts:293-308 -/
def parseSecret (kind : String) (spec : KindSpec) (body : Json) :
    Except CpError (List (String × String)) :=
  match body.get "secret" with
  | some (.obj secret) =>
    if !(secret.map Prod.fst).isPerm spec.secretFields then
      invalid ("kind '" ++ kind ++ "' requires secret fields: " ++
        joinComma (spec.secretFields.mergeSort fun a b => a ≤ b))
    else spec.secretFields.mapM (parseSecretField secret)
  | _ => invalid "secret must be an object"

/-- `value.startsWith(start)`. -/
def startsWith (start value : String) : Bool := start.toList.isPrefixOf value.toList

/-- SRCLINE: credential-store.ts:47 -/
def anthropicApiHost : String := "api.anthropic.com"

/-- SRCLINE: credential-store.ts:54-99 -/
def checkInferenceShape (rt : Runtime) (field : String) (binding : CredentialBinding)
    (endpoint : Option String) (value : String) : Except CpError Unit :=
  match inferenceAuthHeader rt binding field with
  | none =>
    invalid ("an inference credential is sent as 'Authorization: Bearer " ++ inBraces field ++
      "' or " ++ "'x-api-key: " ++ inBraces field ++ "'; binding '" ++ binding.header ++ ": " ++
        binding.format ++ "' is neither")
  | some header =>
    if startsWith "sk-ant-oat" value then
      invalid ("Anthropic OAuth tokens (sk-ant-oat…) are not supported as inference credentials; " ++
        "store an API key (sk-ant-api…) with kind 'api-key'")
    else if startsWith "sk-ant-api" value ∧ header = .authorization then
      invalid ("an Anthropic API key (sk-ant-api…) is read from x-api-key, not Authorization: " ++
        "store it with kind 'api-key'")
    else
      match (endpoint.filter (· ≠ "")).bind rt.parseUrl with
      | none => .ok ()
      | some url =>
        if url.hostname ≠ anthropicApiHost then .ok ()
        else if header = .authorization then
          invalid (anthropicApiHost ++ " reads API keys from x-api-key, not Authorization: " ++
            "store the key with kind 'api-key'")
        else if url.pathname ≠ "/" ∨ url.search ≠ "" then
          invalid ("the endpoint for " ++ anthropicApiHost ++ " is the bare origin https://" ++
            anthropicApiHost ++ " (no /v1): the client adds /v1/messages itself")
        else .ok ()

/-- The last check of a body: an inference credential has one secret field.
SRCLINE: credential-store.ts:310-314 -/
def checkInference (rt : Runtime) (consumer : Consumer) (binding : CredentialBinding)
    (endpoint : Option String) (secret : List (String × String)) : Except CpError Unit :=
  match consumer, secret with
  | .inference, (field, value) :: _ => checkInferenceShape rt field binding endpoint value
  | _, _ => .ok ()

/-- SRCLINE: credential-store.ts:238-327 -/
def parseCredentialBody (rt : Runtime) (name : String) (body : Json) :
    Except CpError StoredCredential := do
  let name ← validateCredentialName name
  match body with
  | .obj _ =>
    let (kind, spec) ← parseKind body
    let consumer ← parseConsumer body
    checkSingleField kind spec consumer
    let hosts ← parseHosts rt body
    let binding ← parseBinding spec body
    let endpoint ← parseEndpoint rt consumer body
    let secret ← parseSecret kind spec body
    checkInference rt consumer binding endpoint secret
    return ⟨⟨name, kind, consumer, hosts, binding, endpoint⟩, secret⟩
  | _ => invalid "credential body must be a JSON object"

/-! ## Which credential a session runs on -/

/-- SRCLINE: credential-store.ts:334-362 -/
def resolveInferenceName (descriptors : List CredentialDescriptor) (requested : Option String) :
    Except CpError String :=
  match requested with
  | some name =>
    match descriptors.find? fun d => d.name = name with
    | none => .error (.of .credentialNotFound ("no credential named '" ++ name ++ "'"))
    | some found =>
      if found.consumer ≠ .inference then
        invalid ("credential '" ++ name ++ "' has consumer '" ++ found.consumer.text ++
          "', not 'inference'")
      else .ok name
  | none =>
    match descriptors.filter fun d => d.consumer = .inference with
    | [] => .error (.of .credentialRequired "no credential with consumer: inference")
    | [d] => .ok d.name
    | ds => .error (.of .credentialAmbiguous ("several inference credentials (" ++
        joinComma (ds.map CredentialDescriptor.name) ++ "); name one"))

end ServerlessHarness.ControlPlane
