import ServerlessHarness.Model.ControlPlane.Ownership

/-!
# Tokens and the credential exchange

A token stands for its claims: signatures are ideal, so the text of a token is a number, and it
verifies when the signer has minted a token with that number. The exchange is given as what it
answers from the record and the credential that it has read; the reads are steps of
`Model.ControlPlane.Requests`.
-/

set_option autoImplicit false

namespace ServerlessHarness.ControlPlane

/-! ## Tokens -/

/-- SRCLINE: token.ts:25-26 -/
def tokenAudience : String := "harness"
def defaultIssuer : String := "sh-control-plane"

/-- SRCLINE: token.ts:28-40 -/
structure TokenClaims where
  iss : String
  aud : String
  sub : String
  tenant : String
  roles : List String
  scope : List String
  iat : Int
  exp : Int
  sid : Option String
deriving DecidableEq, Repr

/-- SRCLINE: token.ts:168-184 -/
def mint (sub tenant : String) (roles scope : List String) (ttlSeconds : Int) (sid : Option String)
    (iat : Int) : TokenClaims where
  iss := defaultIssuer
  aud := tokenAudience
  sub := sub
  tenant := tenant
  roles := roles
  scope := scope
  iat := iat
  exp := iat + ttlSeconds
  sid := sid.filter (· ≠ "")

/-- What `verifyToken` checks once the signature is good.
SRCLINE: token.ts:241-255 -/
def checkClaims (claims : TokenClaims) (now : Int) (requiredScope : String) :
    Except CpError TokenClaims :=
  if claims.aud ≠ tokenAudience then .error (.of .tokenInvalid "wrong token audience")
  else if claims.iss ≠ defaultIssuer then .error (.of .tokenInvalid "wrong token issuer")
  else if claims.sub = "" then .error (.of .tokenInvalid "token has no subject")
  else if now > claims.exp then .error (.of .tokenExpired "token expired")
  else if requiredScope ∉ claims.scope then
    .error (.of .tokenInvalid ("token scope does not include " ++ requiredScope))
  else .ok claims

/-- SRCLINE: token.ts:207-256 -/
def verifyToken (issued : List TokenClaims) (token : Nat) (now : Int) (requiredScope : String) :
    Except CpError TokenClaims :=
  match issued[token]? with
  | none => .error (.of .tokenInvalid "bad token signature")
  | some claims => checkClaims claims now requiredScope

/-! ## Configuration -/

/-- SRCLINE: handlers.ts:17-40 -/
structure CpConfig where
  apiTokenTtlSeconds : Int
  sessionTokenTtlSeconds : Int
  exchangeToken : Option String
  defaultInferenceEndpoint : Option String
  operatorInferenceToken : Option String
  operatorInferenceHeader : Option InferenceAuthHeader
  allowOperatorFallback : Bool
  injectorConfigured : Bool

/-- What a handler is given: the configuration, the hash of subjects and the runtime. -/
structure CpDeps where
  config : CpConfig
  subjectHash : String → String
  rt : Runtime

/-! ## The exchange -/

/-- SRCLINE: exchange.ts:19-35 -/
structure ExchangeResponse where
  placeholder : Bool
  anthropicAuthToken : String
  anthropicBaseUrl : String
  sessionId : String
  subject : String
  xApiKey : Bool
deriving DecidableEq, Repr

/-- SRCLINE: exchange.ts:43-45 -/
def placeholderFor (subject : String) : String := "sh-placeholder-" ++ subject

/-- SRCLINE: exchange.ts:58-72 -/
def checkExchangeAuth (presented configured : Option String) : Bool :=
  match presented, configured with
  | some a, some b => a ≠ "" && b ≠ "" && a == b
  | _, _ => false

/-- SRCLINE: exchange.ts:78 -/
def operatorFallbackName : String := "operator-fallback"

/-- SRCLINE: exchange.ts:81 -/
inductive DirectModeMismatch where
  | bearerToAnthropic
  | rawKeyElsewhere
deriving DecidableEq, Repr

/-- SRCLINE: exchange.ts:88-99 -/
def directModeMismatch (rt : Runtime) (header : InferenceAuthHeader) (secret baseUrl : String) :
    Option DirectModeMismatch :=
  let host := (rt.parseUrl baseUrl).map Url.hostname
  if header = .authorization ∧ host = some "api.anthropic.com" then some .bearerToAnthropic
  else if startsWith "sk-ant-api" secret ∧ host ≠ some "api.anthropic.com" then
    some .rawKeyElsewhere
  else none

/-- Where the secret of an answer comes from. -/
inductive Source where
  | stored (cred : StoredCredential)
  | operator
deriving DecidableEq, Repr

/-- What the exchange has settled before it looks for an endpoint. -/
structure Chosen where
  secretValue : Option String
  credentialName : String
  endpoint : Option String
  authHeader : InferenceAuthHeader
  source : Source
deriving DecidableEq, Repr

/-- The refusal of a credential that is not there any more.
SRCLINE: exchange.ts:168-182 -/
def unusableCredential (rec : SessionRecord) : CpError :=
  ⟨.credentialRequired,
    if rec.credentialName ≠ "" then
      some ("subject has no usable inference credential '" ++ rec.credentialName ++
        "': store it again, or start a new session")
    else
      some ("this session was started on the operator fallback, which is now off: store an " ++
        "inference credential and start a new session"),
    some rec.sessionId⟩

/-- The secret, its header and its source. The value is that of the first field of the secret.
SRCLINE: exchange.ts:125-182 -/
def chooseSecret (d : CpDeps) (rec : SessionRecord) (stored : Option StoredCredential) :
    Except CpError Chosen :=
  match stored with
  | some cred =>
    match (cred.secret.head?.filter fun e => e.1 ≠ "").bind fun e =>
        inferenceAuthHeader d.rt cred.descriptor.binding e.1 with
    | none =>
      .error ⟨.credentialRequired,
        some ("credential '" ++ rec.credentialName ++
          "' has a binding the inference path cannot send; " ++
          "store it again as kind 'bearer' (gateway token) or 'api-key' (Anthropic API key)"),
        some rec.sessionId⟩
    | some header =>
      .ok ⟨cred.secret.head?.map Prod.snd, rec.credentialName, cred.descriptor.endpoint, header,
        .stored cred⟩
  | none =>
    if rec.credentialName = "" ∧ d.config.allowOperatorFallback ∧
        d.config.operatorInferenceToken.any (· ≠ "") then
      .ok ⟨d.config.operatorInferenceToken, operatorFallbackName, none,
        d.config.operatorInferenceHeader.getD .authorization, .operator⟩
    else .error (unusableCredential rec)

/-- The refusals of direct mode.
SRCLINE: exchange.ts:207-246 -/
def checkDirect (d : CpDeps) (rec : SessionRecord) (c : Chosen) (secret baseUrl : String) :
    Except CpError Unit :=
  let host := ((d.rt.parseUrl baseUrl).map Url.hostname).getD "an unparseable URL"
  match directModeMismatch d.rt c.authHeader secret baseUrl with
  | none => .ok ()
  | some mismatch =>
    match c.source, mismatch with
    | .operator, .bearerToAnthropic =>
      .error ⟨.credentialUnavailable,
        some ("the operator fallback token (SH_OPERATOR_INFERENCE_TOKEN) is sent as Bearer, but " ++
          "SH_DEFAULT_INFERENCE_ENDPOINT is api.anthropic.com, which reads API keys from " ++
          "x-api-key; the deployment operator must set SH_OPERATOR_INFERENCE_HEADER=x-api-key or " ++
          "point SH_DEFAULT_INFERENCE_ENDPOINT at a gateway"), some rec.sessionId⟩
    | .operator, .rawKeyElsewhere =>
      .error ⟨.credentialUnavailable,
        some ("the operator fallback token (SH_OPERATOR_INFERENCE_TOKEN) is an Anthropic API key, but " ++
          "SH_DEFAULT_INFERENCE_ENDPOINT resolves to " ++ host ++ "; the " ++
          "deployment operator must fix the pair, or you can store your own inference credential"),
        some rec.sessionId⟩
    | .stored _, .bearerToAnthropic =>
      .error ⟨.credentialRequired,
        some ("credential '" ++ c.credentialName ++
          "' is a Bearer token, but its endpoint resolves to " ++
          "api.anthropic.com, which reads API keys from x-api-key: store the key with kind 'api-key'"),
        some rec.sessionId⟩
    | .stored _, .rawKeyElsewhere =>
      .error ⟨.credentialRequired,
        some ("credential '" ++ c.credentialName ++
          "' is an Anthropic API key, but its endpoint " ++
          "resolves to " ++ host ++ ": set its endpoint to https://api.anthropic.com"),
        some rec.sessionId⟩

/-- What the exchange audits and answers, with the source of the secret.
SRCLINE: exchange.ts:184-265 -/
def finishExchange (d : CpDeps) (rec : SessionRecord) (c : Chosen) :
    Except CpError (AuditEntry × ExchangeResponse × Source) :=
  match c.secretValue with
  | none => .error (unusableCredential rec)
  | some secret =>
    if secret = "" then .error (unusableCredential rec)
    else
      match (c.endpoint.orElse fun _ => d.config.defaultInferenceEndpoint).filter (· ≠ "") with
      | none =>
        .error ⟨.endpointUnresolved,
          some ("credential '" ++ c.credentialName ++
            "' has no endpoint and no deployment default is set"),
          some rec.sessionId⟩
      | some baseUrl =>
        let placeholder := d.config.injectorConfigured
        match if placeholder then .ok () else checkDirect d rec c secret baseUrl with
        | .error e => .error e
        | .ok () =>
          .ok
            (⟨rec.owner, some rec.sessionId, some c.credentialName,
                if c.source = .operator then "operator_fallback_used" else "credential_issued"⟩,
              { placeholder := placeholder
                anthropicAuthToken := if placeholder then placeholderFor rec.owner else secret
                anthropicBaseUrl := baseUrl
                sessionId := rec.sessionId
                subject := rec.owner
                xApiKey := !placeholder && decide (c.authHeader = .xApiKey) },
              c.source)

/-- What the exchange answers from the record and the credential it has read. -/
def exchangeResult (d : CpDeps) (rec : SessionRecord) (stored : Option StoredCredential) :
    Except CpError (AuditEntry × ExchangeResponse × Source) :=
  (chooseSecret d rec stored).bind (finishExchange d rec)

end ServerlessHarness.ControlPlane
