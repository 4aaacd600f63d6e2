import ServerlessHarness.Model.ControlPlane.Requests

/-!
# What a step of the control plane can do

`Move` lists the steps of one request with the world each of them leaves, and `Change` what else
can happen; every invariant of the runs is read off these two. `Started`, `Found` and `Turns` say
which form a request can take next where the step is a computation only. `exchangeResult_ok` says
once and for all what a successful exchange answers.
-/

set_option autoImplicit false

namespace ServerlessHarness.ControlPlane

open Library

variable {d : CpDeps} {w w' : World} {t t' : Task}

/-! ## Results -/

theorem bind_eq_ok {ε α β : Type} {x : Except ε α} {f : α → Except ε β} {b : β} :
    x.bind f = .ok b ↔ ∃ a, x = .ok a ∧ f a = .ok b := by
  cases x with
  | error e => exact ⟨fun h => (nomatch h), fun ⟨_, h, _⟩ => (nomatch h)⟩
  | ok a => exact ⟨fun h => ⟨a, rfl, h⟩, fun ⟨_, h, hf⟩ => by cases h; exact hf⟩

theorem checkSingleField_ok {kind : String} {spec : KindSpec} {consumer : Consumer}
    (h : checkSingleField kind spec consumer = .ok ()) (hc : consumer = .inference) :
    spec.secretFields.length = 1 := by
  unfold checkSingleField at h
  split at h
  · cases h
  · rename_i hnot
    exact not_not.mp fun hne => hnot ⟨hc, hne⟩

/-- A kind that declares exactly one secret field. -/
def singleFieldKind (kind : String) : Bool :=
  (kinds.lookup kind).any fun spec => spec.secretFields.length = 1

/-- What the checks of a body leave true of the credential it becomes. -/
structure StoredCredential.Accepted (cred : StoredCredential) : Prop where
  named : cred.descriptor.name ≠ ""
  single : cred.descriptor.consumer = .inference → singleFieldKind cred.descriptor.kind = true

theorem validateCredentialName_ok {name name' : String}
    (h : validateCredentialName name = .ok name') :
    name' = name ∧ name ≠ "" := by
  unfold validateCredentialName at h
  split at h
  · rename_i hre
    refine ⟨(Except.ok.inj h).symm, ?_⟩
    rintro rfl
    revert hre
    decide
  · cases h

theorem parseKind_ok {body : Json} {kind : String} {spec : KindSpec}
    (h : parseKind body = .ok (kind, spec)) : kinds.lookup kind = some spec := by
  unfold parseKind at h
  split at h
  · rename_i text _
    unfold kindSpec at h
    cases hfound : kinds.lookup text with
    | none =>
      rw [hfound] at h
      cases h
    | some found =>
      rw [hfound] at h
      cases h
      exact hfound
  · cases h

/-- INTERNAL: **what a stored body satisfies**: a credential for inference is of a kind with one
secret field. -/
theorem parseCredentialBody_ok {rt : Runtime} {name : String} {body : Json}
    {cred : StoredCredential}
    (h : parseCredentialBody rt name body = .ok cred) : cred.Accepted := by
  unfold parseCredentialBody at h
  obtain ⟨name', hname, h⟩ := bind_eq_ok.mp h
  obtain ⟨hsame, hnamed⟩ := validateCredentialName_ok hname
  rw [← hsame] at hnamed
  cases body with
  | null | bool | num | str | arr => cases h
  | obj fields =>
    obtain ⟨⟨kind, spec⟩, hkind, h⟩ := bind_eq_ok.mp h
    obtain ⟨consumer, -, h⟩ := bind_eq_ok.mp h
    obtain ⟨⟨⟩, hsingle, h⟩ := bind_eq_ok.mp h
    obtain ⟨hosts, -, h⟩ := bind_eq_ok.mp h
    obtain ⟨binding, -, h⟩ := bind_eq_ok.mp h
    obtain ⟨endpoint, -, h⟩ := bind_eq_ok.mp h
    obtain ⟨secret, -, h⟩ := bind_eq_ok.mp h
    obtain ⟨-, -, h⟩ := bind_eq_ok.mp h
    cases h
    refine ⟨hnamed, fun hc => ?_⟩
    unfold singleFieldKind
    rw [parseKind_ok hkind]
    exact decide_eq_true (checkSingleField_ok hsingle hc)

variable {rec : SessionRecord} {sid : String}

theorem ownedBy_ok {sub : String} {found : Option SessionRecord}
    (h : ownedBy sub sid found = .ok rec) : found = some rec ∧ rec.owner = sub := by
  cases found with
  | none => cases h
  | some r =>
    simp only [ownedBy] at h
    split at h
    · cases h
    · rename_i howner
      cases h
      exact ⟨rfl, not_not.mp howner⟩

theorem liveRecord_ok {sub : String} {found : Option SessionRecord}
    (h : liveRecord sub sid found = .ok rec) :
    found = some rec ∧ rec.owner = sub ∧ rec.tombstone = false := by
  unfold liveRecord at h
  obtain ⟨r, hr, h⟩ := bind_eq_ok.mp h
  obtain ⟨hfound, howner⟩ := ownedBy_ok hr
  split at h
  · cases h
  · rename_i htomb
    cases h
    exact ⟨hfound, howner, Bool.eq_false_iff.mpr htomb⟩

/-- What the answer of an exchange releases: the placeholder of the subject, the first field of the
stored secret, or the operator's token when the session records no credential. -/
def Releases (d : CpDeps) (rec : SessionRecord) (stored : Option StoredCredential)
    (resp : ExchangeResponse) (source : Source) : Prop :=
  (∀ cred, source = .stored cred → stored = some cred) ∧
    (source = .operator → rec.credentialName = "") ∧
    if d.config.injectorConfigured then
      resp.placeholder = true ∧ resp.anthropicAuthToken = placeholderFor rec.owner
    else
      resp.placeholder = false ∧
        match source with
        | .stored cred => cred.secret.head?.map Prod.snd = some resp.anthropicAuthToken
        | .operator => d.config.operatorInferenceToken = some resp.anthropicAuthToken

theorem chooseSecret_ok {stored : Option StoredCredential} {c : Chosen}
    (h : chooseSecret d rec stored = .ok c) :
    (∃ cred, stored = some cred ∧ c.source = .stored cred ∧
      c.secretValue = cred.secret.head?.map Prod.snd) ∨
    (stored = none ∧ rec.credentialName = "" ∧ c.source = .operator ∧
      c.secretValue = d.config.operatorInferenceToken) := by
  cases stored with
  | some cred =>
    left
    simp only [chooseSecret] at h
    split at h
    · cases h
    · cases h
      exact ⟨cred, rfl, rfl, rfl⟩
  | none =>
    right
    simp only [chooseSecret] at h
    split at h
    · rename_i hcond
      cases h
      exact ⟨rfl, hcond.1, rfl, rfl⟩
    · cases h

theorem finishExchange_ok {c : Chosen} {entry : AuditEntry} {resp : ExchangeResponse}
    {source : Source} (h : finishExchange d rec c = .ok (entry, resp, source)) :
    source = c.source ∧ resp.sessionId = rec.sessionId ∧ resp.subject = rec.owner ∧
      resp.placeholder = d.config.injectorConfigured ∧
      ∃ secret, c.secretValue = some secret ∧
        resp.anthropicAuthToken =
          if d.config.injectorConfigured then placeholderFor rec.owner else secret := by
  unfold finishExchange at h
  cases hsecret : c.secretValue with
  | none =>
    rw [hsecret] at h
    cases h
  | some secret =>
    rw [hsecret] at h
    dsimp only at h
    split at h
    · cases h
    · split at h
      · cases h
      · split at h
        · cases h
        · cases h
          exact ⟨rfl, rfl, rfl, rfl, secret, rfl, rfl⟩

/-- INTERNAL: **what a successful exchange answers**. -/
theorem exchangeResult_ok {stored : Option StoredCredential} {entry : AuditEntry}
    {resp : ExchangeResponse} {source : Source}
    (h : exchangeResult d rec stored = .ok (entry, resp, source)) :
    resp.sessionId = rec.sessionId ∧ resp.subject = rec.owner ∧
      Releases d rec stored resp source := by
  unfold exchangeResult at h
  obtain ⟨c, hc, h⟩ := bind_eq_ok.mp h
  obtain ⟨hsource, hsid, hsub, hmode, secret, hvalue, htoken⟩ := finishExchange_ok h
  refine ⟨hsid, hsub, ?_⟩
  unfold Releases
  rw [hmode]
  rcases chooseSecret_ok hc with ⟨cred, hstored, hcred, hfirst⟩ | ⟨hnone, hname, hop, hconf⟩
  · rw [hcred] at hsource
    subst hsource
    refine ⟨fun cred' h' => (Source.stored.inj h') ▸ hstored, fun h' => (nomatch h'), ?_⟩
    split
    · rename_i hinj
      exact ⟨hinj, by rw [htoken, if_pos hinj]⟩
    · rename_i hinj
      refine ⟨Bool.eq_false_iff.mpr hinj, ?_⟩
      dsimp only
      rw [← hfirst, hvalue, htoken, if_neg hinj]
  · rw [hop] at hsource
    subst hsource
    refine ⟨fun cred' h' => (nomatch h'), fun _ => hname, ?_⟩
    split
    · rename_i hinj
      exact ⟨hinj, by rw [htoken, if_pos hinj]⟩
    · rename_i hinj
      refine ⟨Bool.eq_false_iff.mpr hinj, ?_⟩
      dsimp only
      rw [← hconf, hvalue, htoken, if_neg hinj]

/-! ## Moves of one request -/

/-- What a request is once its handler has read its arguments. -/
inductive Started : Task → Prop where
  | storing {sub : String} {cred : StoredCredential} (accepted : cred.Accepted) :
      Started (.storing sub cred)
  | dropping {sub name : String} : Started (.dropping sub name)
  | listing {p : TokenClaims} {requested : Option String} : Started (.listing p requested)
  | finding {p : TokenClaims} {id : String} {op : SessionOp} : Started (.finding p id op)
  | looking {claims : TokenClaims} {sid : String} (sid_eq : claims.sid = some sid) :
      Started (.looking claims sid)

/-- A request that passes its checks has started. -/
theorem startRequest_ok {req : Request} (h : startRequest d w req = .ok t) : Started t := by
  cases req with
  | putCredential token name body =>
    unfold startRequest at h
    obtain ⟨p, -, h⟩ := bind_eq_ok.mp h
    obtain ⟨name, -, h⟩ := bind_eq_ok.mp h
    split at h
    · cases h
    · obtain ⟨cred, hcred, h⟩ := bind_eq_ok.mp h
      cases h
      exact .storing (parseCredentialBody_ok hcred)
  | deleteCredential token name =>
    unfold startRequest at h
    obtain ⟨p, -, h⟩ := bind_eq_ok.mp h
    obtain ⟨name, -, h⟩ := bind_eq_ok.mp h
    cases h
    exact .dropping
  | createSession token body =>
    unfold startRequest at h
    obtain ⟨p, -, h⟩ := bind_eq_ok.mp h
    split at h
    · cases h
      exact .listing
    · cases h
      exact .listing
    · cases h
  | getSession | mintSessionToken | deleteSession =>
    unfold startRequest at h
    obtain ⟨p, -, h⟩ := bind_eq_ok.mp h
    cases h
    exact .finding
  | exchangeCredential bearer token =>
    simp only [startRequest] at h
    split at h
    · cases h
    · obtain ⟨claims, -, h⟩ := bind_eq_ok.mp h
      split at h
      · cases h
      · rename_i sid hsid
        cases h
        exact .looking hsid

/-- What a session-scoped request becomes on the record it found. -/
inductive Found (p : TokenClaims) (found : Option SessionRecord) : Task → Prop where
  | failed {e : CpError} : Found p found (.failed e)
  | viewing {rec : SessionRecord} (isFound : found = some rec) : Found p found (.viewing rec)
  | minting {rec : SessionRecord} (isFound : found = some rec) (live : rec.tombstone = false) :
      Found p found (.minting p rec)
  | asking {rec : SessionRecord} (isFound : found = some rec) : Found p found (.askingRuntime rec)

theorem foundTask_found (p : TokenClaims) (id : String) (op : SessionOp)
    (found : Option SessionRecord) :
    Found p found (foundTask p id op found) := by
  unfold foundTask
  cases op with
  | view =>
    rw [if_neg (by decide)]
    cases h : ownedBy p.sub id found with
    | error e => exact .failed
    | ok rec => exact .viewing (ownedBy_ok h).1
  | mint =>
    rw [if_pos rfl]
    cases h : liveRecord p.sub id found with
    | error e => exact .failed
    | ok rec => exact .minting (liveRecord_ok h).1 (liveRecord_ok h).2.2
  | delete =>
    rw [if_neg (by decide)]
    cases h : ownedBy p.sub id found with
    | error e => exact .failed
    | ok rec => exact .asking (ownedBy_ok h).1

/-- The steps that neither read nor write a record or a credential. -/
inductive Turns : Task → Task → Prop where
  | fails {t : Task} {e : CpError} : Turns t (.failed e)
  | starts {req : Request} {t : Task} (started : Started t) : Turns (.received req) t
  | written {entry : AuditEntry} : Turns (.auditingWrite entry) (.answered .noContent)
  | indexed {p : TokenClaims} {rec : SessionRecord} : Turns (.indexing p rec)
    (.auditingCreate p rec)
  | opened {p : TokenClaims} {rec : SessionRecord} {token : Nat} :
      Turns (.auditingCreate p rec) (.answered (.session rec.sessionId token))
  | viewed {rec : SessionRecord} {runtime : List (String × String)} :
      Turns (.viewing rec) (.answered (.view rec runtime))
  | minted {p : TokenClaims} {rec : SessionRecord} {token : Nat} {claims : TokenClaims}
      (sid : claims.sid = (some rec.sessionId).filter (· ≠ "")) :
      Turns (.minting p rec) (.answered (.token token claims))
  | asked {rec : SessionRecord} {inFlight : Bool} : Turns (.askingRuntime rec)
    (.tombstoning rec inFlight)
  | unlisted {rec : SessionRecord} {inFlight : Bool} :
      Turns (.unlisting rec inFlight) (.deletingRecord rec inFlight)
  | deleted {rec : SessionRecord} {inFlight : Bool} {status : Nat} :
      Turns (.auditingDelete rec inFlight) (.answered (.deleted status))
  | released {claims : TokenClaims} {entry : AuditEntry} {resp : ExchangeResponse}
    {source : Source} :
      Turns (.auditingExchange claims entry resp source)
        (.answered (.credential claims resp source))

/-- **The steps of one request**, with the world each of them leaves. -/
inductive Move (d : CpDeps) (w : World) : Task → World → Task → Prop where
  | turn {t t' : Task} (r : Redis) (issued : List TokenClaims) (hashes : r.hashes = w.redis.hashes)
      (turns : Turns t t') : Move d w t { w with redis := r, issued := issued } t'
  | store {sub : String} {cred : StoredCredential} {entry : AuditEntry} :
      Move d w (.storing sub cred)
        { w.note (.stored sub cred) with
          credentials := w.credentials.set (sub, cred.descriptor.name) cred } (.auditingWrite entry)
  | drop {sub name : String} {entry : AuditEntry} :
      Move d w (.dropping sub name)
        { w.note (.dropped sub name) with credentials := w.credentials.erase (sub, name) }
        (.auditingWrite entry)
  | list {p : TokenClaims} {requested : Option String} {sid name : String} (fresh : sid ∉ w.ids)
      (chosen : sessionCredential d (w.list p.sub) requested = .ok name) :
      Move d w (.listing p requested) { w with ids := w.ids ++ [sid] }
        (.creating p (newRecord p sid name w.now))
  | create {p : TokenClaims} {rec : SessionRecord} :
      Move d w (.creating p rec) { w.note (.created rec) with redis := w.redis.createRecord rec }
        (.indexing p rec)
  | find {p : TokenClaims} {id : String} {op : SessionOp} {t' : Task}
      (found : Found p (w.redis.getSession id) t') :
      Move d w (.finding p id op) (w.note (.read id (w.redis.getSession id))) t'
  | bury {rec : SessionRecord} {inFlight : Bool} :
      Move d w (.tombstoning rec inFlight)
        { w.note (.tombstoned rec.sessionId) with redis := w.redis.tombstone rec.sessionId }
        (.deletingData rec inFlight)
  | deleteData {rec : SessionRecord} {inFlight : Bool} (keys : List String) :
      Move d w (.deletingData rec inFlight) { w with redis := w.redis.del keys }
        (.unlisting rec inFlight)
  | deleteRecord {rec : SessionRecord} {inFlight : Bool} (keys : List String) :
      Move d w (.deletingRecord rec inFlight) { w with redis := w.redis.del keys }
        (.auditingDelete rec inFlight)
  | refuse {claims : TokenClaims} {sid : String} {e : CpError} :
      Move d w (.looking claims sid) (w.note (.read sid (w.redis.getSession sid))) (.failed e)
  | admitted {claims : TokenClaims} {sid : String} {rec : SessionRecord}
      (found : w.redis.getSession sid = some rec) (owner : rec.owner = claims.sub)
      (live : rec.tombstone = false) (named : rec.credentialName ≠ "") :
      Move d w (.looking claims sid) (w.note (.read sid (some rec))) (.fetching claims rec)
  | fallBack {claims : TokenClaims} {sid : String} {rec : SessionRecord} {entry : AuditEntry}
      {resp : ExchangeResponse} {source : Source} (found : w.redis.getSession sid = some rec)
      (owner : rec.owner = claims.sub) (live : rec.tombstone = false)
      (result : exchangeResult d rec none = .ok (entry, resp, source)) :
      Move d w (.looking claims sid)
        ((w.note (.read sid (some rec))).note (.released claims resp source))
        (.auditingExchange claims entry resp source)
  | fetch {claims : TokenClaims} {rec : SessionRecord} {entry : AuditEntry}
    {resp : ExchangeResponse}
      {source : Source}
      (result : exchangeResult d rec (w.credentials.get (rec.owner, rec.credentialName)) =
        .ok (entry, resp, source)) :
      Move d w (.fetching claims rec) (w.note (.released claims resp source))
        (.auditingExchange claims entry resp source)

theorem Move.still (h : Turns t t') : Move d w t w t' := .turn w.redis w.issued rfl h

theorem settle_fetch (claims : TokenClaims) (rec : SessionRecord) :
    Move d w (.fetching claims rec)
      (w.settle d claims rec (w.credentials.get (rec.owner, rec.credentialName))).1
      (w.settle d claims rec (w.credentials.get (rec.owner, rec.credentialName))).2 := by
  unfold World.settle
  cases h : exchangeResult d rec (w.credentials.get (rec.owner, rec.credentialName)) with
  | error e => exact .still .fails
  | ok r => exact .fetch h

theorem lookedTask_moves (claims : TokenClaims) (sid : String) :
    Move d w (.looking claims sid)
      (lookedTask d (w.note (.read sid (w.redis.getSession sid))) claims sid
        (w.redis.getSession sid)).1
      (lookedTask d (w.note (.read sid (w.redis.getSession sid))) claims sid
        (w.redis.getSession sid)).2 := by
  unfold lookedTask
  cases h : liveRecord claims.sub sid (w.redis.getSession sid) with
  | error e => exact .refuse
  | ok rec =>
    obtain ⟨hfound, howner, hlive⟩ := liveRecord_ok h
    dsimp only
    split
    · unfold World.settle
      cases hres : exchangeResult d rec none with
      | error e => exact .refuse
      | ok r =>
        rw [hfound]
        exact .fallBack hfound howner hlive hres
    · rename_i hnamed
      rw [hfound]
      exact .admitted hfound howner hlive hnamed

theorem failTask_turns (h : failTask t = some t') : Turns t t' := by
  cases t <;> cases h
  case auditingWrite => exact .written
  all_goals exact .fails

/-- Every step of a request is a move. -/
theorem taskStep_go (h : taskStep d w t .go = some (w', t')) : Move d w t w' t' := by
  cases t with
  | received req =>
    simp only [taskStep] at h
    split at h
    · cases h
      exact .still .fails
    · rename_i hstart
      cases h
      exact .still (.starts (startRequest_ok hstart))
  | storing sub cred => cases h; exact .store
  | dropping sub name => cases h; exact .drop
  | auditingWrite entry => cases h; exact .turn _ _ rfl .written
  | listing p requested => cases h
  | creating p rec => cases h; exact .create
  | indexing p rec => cases h; exact .turn _ _ rfl .indexed
  | auditingCreate p rec => cases h; exact .turn _ _ rfl .opened
  | finding p id op => cases h; exact .find (foundTask_found p id op _)
  | viewing rec => cases h; exact .still .viewed
  | minting p rec => cases h; exact .turn _ _ rfl (.minted rfl)
  | askingRuntime rec => cases h; exact .still .asked
  | tombstoning rec inFlight => cases h; exact .bury
  | deletingData rec inFlight => cases h; exact .deleteData _
  | unlisting rec inFlight => cases h; exact .turn _ _ rfl .unlisted
  | deletingRecord rec inFlight => cases h; exact .deleteRecord _
  | auditingDelete rec inFlight => cases h; exact .turn _ _ rfl .deleted
  | looking claims sid =>
    have heq : lookedTask d (w.note (.read sid (w.redis.getSession sid))) claims sid
        (w.redis.getSession sid) = (w', t') := Option.some.inj h
    have hmove := lookedTask_moves (d := d) (w := w) claims sid
    rw [heq] at hmove
    exact hmove
  | fetching claims rec =>
    have heq : w.settle d claims rec (w.credentials.get (rec.owner, rec.credentialName)) =
        (w', t') :=
      Option.some.inj h
    have hmove := settle_fetch (d := d) (w := w) claims rec
    rw [heq] at hmove
    exact hmove
  | auditingExchange claims entry resp source => cases h; exact .turn _ _ rfl .released
  | answered | failed => cases h

theorem taskStep_id (h : taskStep d w t (.id sid) = some (w', t')) : Move d w t w' t' := by
  cases t with
  | listing p requested =>
    simp only [taskStep] at h
    split at h
    · cases h
    · rename_i hfresh
      simp only [listedTask, Option.some.injEq] at h
      split at h
      · cases h
        exact .still .fails
      · rename_i hname
        cases h
        exact .list hfresh hname
  | _ => cases h

/-- INTERNAL: **every step of a request is one of the moves**. -/
theorem taskStep_moves {c : Choice} (h : taskStep d w t c = some (w', t')) : Move d w t w' t' := by
  cases c with
  | go => exact taskStep_go h
  | id sid => exact taskStep_id h
  | fail =>
    have hfail : (failTask t).map (fun t' => (w, t')) = some (w', t') := by
      cases t <;> exact h
    obtain ⟨_, hturns, heq⟩ := Option.map_eq_some_iff.mp hfail
    cases heq
    exact .still (failTask_turns hturns)

/-! ## Steps of the world -/

/-- **What can happen next**: the clock, a login, a new request, a runtime report, or the move of a
request. -/
inductive Change (d : CpDeps) (w : World) : World → Prop where
  | outside (issued : List TokenClaims) (now : Int) :
    Change d w { w with issued := issued, now := now }
  | request (req : Request) : Change d w { w with tasks := w.tasks ++ [.received req] }
  | report (sid : String) (fields : List (String × String)) :
      Change d w { w with redis := w.redis.putRuntime sid fields }
  | move {i : Nat} {t t' : Task} {w₁ : World} (slot : w.tasks[i]? = some t)
    (moves : Move d w t w₁ t') :
      Change d w { w₁ with tasks := w₁.tasks.set i t' }

theorem step_run {i : Nat} {c : Choice} (h : step d w (.run i c) = some w') :
    ∃ t t' w₁, w.tasks[i]? = some t ∧ Move d w t w₁ t' ∧
      w' = { w₁ with tasks := w₁.tasks.set i t' } := by
  simp only [step] at h
  split at h
  · cases h
  · rename_i t hslot
    obtain ⟨⟨w₁, t'⟩, hstep, heq⟩ := Option.map_eq_some_iff.mp h
    exact ⟨t, t', w₁, hslot, taskStep_moves hstep, heq.symm⟩

/-- INTERNAL: **every step of a run is one of the changes**. -/
theorem step_change {a : Action} (h : step d w a = some w') : Change d w w' := by
  cases a with
  | login | tick => cases h; exact .outside _ _
  | request req => cases h; exact .request req
  | report sid fields => cases h; exact .report sid fields
  | run i c =>
    obtain ⟨t, t', w₁, hslot, hmove, rfl⟩ := step_run h
    exact .move hslot hmove

theorem Move.tasks_eq {w₁ : World} (h : Move d w t w₁ t') : w₁.tasks = w.tasks := by
  cases h <;> rfl

end ServerlessHarness.ControlPlane
