import ServerlessHarness.Interface.ControlPlane.Records

/-!
# Whose secret an exchange releases

`storedUnder` reads the credential that a subject has stored under a name off the log: the
credential store agrees with it in every run (`stored_logged`). Every release in the log is then
justified by what stands before it (`Justified`): the record of the token's session was read live
and names the token's subject, and the secret is that subject's own, under the name with which the
session was recorded.

Which consumer that credential is for is not checked again at the exchange. It is the one for
inference as long as no other credential is stored under a name that a session records
(`keepsInference`).
-/

set_option autoImplicit false

namespace ServerlessHarness.ControlPlane

open Library

variable {d : CpDeps} {w w' w₁ : World} {t t' : Task}

/-! ## The credential store as a history -/

/-- What one event does to the credential of a subject under a name. -/
def storeEvent (sub name : String) (found : Option StoredCredential) : Event →
    Option StoredCredential
  | .stored sub' cred => if (sub', cred.descriptor.name) = (sub, name) then some cred else found
  | .dropped sub' name' => if (sub', name') = (sub, name) then none else found
  | _ => found

/-- The credential most recently stored by a subject under a name, unless it was deleted since. -/
def storedUnder (log : List Event) (sub name : String) : Option StoredCredential :=
  log.foldl (storeEvent sub name) none

@[simp] theorem storedUnder_append (log : List Event) (e : Event) (sub name : String) :
    storedUnder (log ++ [e]) sub name = storeEvent sub name (storedUnder log sub name) e := by
  unfold storedUnder
  rw [List.foldl_append]
  rfl

/-- The store holds what the log says. -/
def StoreLogged (w : World) : Prop :=
  ∀ sub name, w.credentials.get (sub, name) = storedUnder w.log sub name

variable {name sub : String} {e : Event} {log : List Event}

theorem StoreLogged.note (h : StoreLogged w) (he : ∀ sub name f, storeEvent sub name f e = f) :
    StoreLogged (w.note e) := by
  intro sub name
  show w.credentials.get (sub, name) = storedUnder (w.log ++ [e]) sub name
  rw [storedUnder_append, he, h]

theorem StoreLogged.store (h : StoreLogged w) (sub : String) (cred : StoredCredential) :
    StoreLogged { w.note (.stored sub cred) with
      credentials := w.credentials.set (sub, cred.descriptor.name) cred } := by
  intro sub' name
  show (w.credentials.set (sub, cred.descriptor.name) cred).get (sub', name) =
    storedUnder (w.log ++ [.stored sub cred]) sub' name
  rw [storedUnder_append]
  simp only [storeEvent]
  by_cases hkey : (sub, cred.descriptor.name) = (sub', name)
  · rw [if_pos hkey, ← hkey, OrderedMap.get_set_self]
  · rw [if_neg hkey, OrderedMap.get_set_ne (Ne.symm hkey), h]

theorem StoreLogged.drop (h : StoreLogged w) (sub name : String) :
    StoreLogged { w.note (.dropped sub name) with
      credentials := w.credentials.erase (sub, name) } := by
  intro sub' name'
  show (w.credentials.erase (sub, name)).get (sub', name') =
    storedUnder (w.log ++ [.dropped sub name]) sub' name'
  rw [storedUnder_append]
  simp only [storeEvent]
  by_cases hkey : (sub, name) = (sub', name')
  · rw [if_pos hkey, ← hkey, OrderedMap.get_erase_self]
  · rw [if_neg hkey, OrderedMap.get_erase_ne (Ne.symm hkey), h]

theorem StoreLogged.move (h : StoreLogged w) (hm : Move d w t w₁ t') : StoreLogged w₁ := by
  cases hm with
  | turn | list | deleteData | deleteRecord => exact h
  | store => exact h.store _ _
  | drop => exact h.drop _ _
  | @create p rec =>
    have hnote := h.note (e := .created rec) fun _ _ _ => rfl
    exact hnote
  | @bury rec inFlight =>
    have hnote := h.note (e := .tombstoned rec.sessionId) fun _ _ _ => rfl
    exact hnote
  | fallBack => exact (h.note fun _ _ _ => rfl).note fun _ _ _ => rfl
  | find | refuse | admitted | fetch => exact h.note fun _ _ _ => rfl

theorem StoreLogged.change (h : StoreLogged w) (hc : Change d w w') : StoreLogged w' := by
  cases hc with
  | outside | request | report => exact h
  | move slot moves =>
    have hmoved := h.move moves
    exact hmoved

/-- INTERNAL: **the store is the history of its writes** in every run. -/
theorem stored_logged (h : Reachable (controlPlane d) w) : StoreLogged w := by
  apply Reachable.invariant (P := StoreLogged) ?_ ?_ h
  · rintro w ⟨now, rfl⟩ sub name
    rfl
  · rintro w w' - hw ⟨a, ha⟩
    exact hw.change (step_change ha)

/-! ## Releases -/

/-- What stands in the log before a release: the read of the live record, which is as it was
recorded, and the credential that the answer is made of. -/
def Justified (d : CpDeps) (before : List Event) (claims : TokenClaims) (resp : ExchangeResponse)
    (source : Source) : Prop :=
  ∃ rec, Admitted before claims rec ∧ resp.sessionId = rec.sessionId ∧ resp.subject = rec.owner ∧
    Releases d rec (storedUnder before rec.owner rec.credentialName) resp source

/-- Every release in the log is justified where it stands. -/
def ReleasesJustified (d : CpDeps) (log : List Event) : Prop :=
  ∀ before claims resp source after, log = before ++ .released claims resp source :: after →
    Justified d before claims resp source

theorem Releases.of_none {rec : SessionRecord} {stored : Option StoredCredential}
    {resp : ExchangeResponse} {source : Source} (h : Releases d rec none resp source) :
    Releases d rec stored resp source := by
  obtain ⟨hstored, hrest⟩ := h
  refine ⟨fun cred hcred => ?_, hrest⟩
  cases hstored cred hcred

theorem ReleasesJustified.append (h : ReleasesJustified d log)
    (he : ∀ claims resp source, e = .released claims resp source →
      Justified d log claims resp source) : ReleasesJustified d (log ++ [e]) := by
  intro before claims resp source after hsplit
  rcases split_append_singleton hsplit with ⟨rfl, rfl, -⟩ | ⟨rest, -, hlog⟩
  · exact he claims resp source rfl
  · exact h before claims resp source rest hlog

theorem ReleasesJustified.other (h : ReleasesJustified d log)
    (he : ∀ claims resp source, e ≠ .released claims resp source) :
    ReleasesJustified d (log ++ [e]) :=
  h.append fun claims resp source heq => absurd heq (he claims resp source)

theorem ReleasesJustified.move (h : ReleasesJustified d w.log) (hw : Orderly w)
    (hstore : StoreLogged w)
    (ht : t.Filed w.log) (hm : Move d w t w₁ t') : ReleasesJustified d w₁.log := by
  cases hm with
  | turn | list | deleteData | deleteRecord => exact h
  | store | drop | create | find | bury | refuse | admitted =>
    exact h.other (fun _ _ _ heq => by cases heq)
  | fetch result =>
    apply h.append
    rintro claims resp source ⟨⟩
    obtain ⟨hsid, hsub, hreleases⟩ := exchangeResult_ok result
    rw [hstore] at hreleases
    exact ⟨_, ht, hsid, hsub, hreleases⟩
  | fallBack found owner live result =>
    apply ReleasesJustified.append (h.other (fun _ _ _ heq => by cases heq))
    rintro claims resp source ⟨⟩
    obtain ⟨hsid, hsub, hreleases⟩ := exchangeResult_ok result
    exact ⟨_, hw.recorded.admitted ht found owner live, hsid, hsub, hreleases.of_none⟩

/-- INTERNAL: **every release is justified** in every run. -/
theorem releases_justified (h : Reachable (controlPlane d) w) : ReleasesJustified d w.log := by
  apply Reachable.invariant (P := fun w => ReleasesJustified d w.log) ?_ ?_ h
  · rintro w ⟨now, rfl⟩ before claims resp source after hsplit
    cases before <;> cases hsplit
  · rintro w w' hreach hw ⟨a, ha⟩
    have hord := orderly hreach
    cases step_change ha with
    | outside | request | report => exact hw
    | move slot moves =>
      have hfiled := hord.filed _ (List.mem_of_getElem? slot)
      have hmoved := hw.move hord (stored_logged hreach) hfiled moves
      exact hmoved

/-- **An exchange releases the subject's own secret**: of a token with subject `u` and session `s`,
the record of `s` was read live and names `u`; the answer is the placeholder of `u` in placeholder
mode, and otherwise the secret that `u` had most recently stored under the name recorded when `s`
was created, or the operator's token, and that only if the name was empty. The value is that of the
first field of the secret. -/
theorem exchange_releases_own_secret {claims : TokenClaims} {resp : ExchangeResponse}
    {source : Source}
    (h : Reachable (controlPlane d) w)
      (hanswer : .answered (.credential claims resp source) ∈ w.tasks) :
    ∃ before after rec made, w.log = before ++ .released claims resp source :: after ∧
      claims.sid = some rec.sessionId ∧ .read rec.sessionId (some rec) ∈ before ∧
      rec.owner = claims.sub ∧ rec.tombstone = false ∧
      .created made ∈ before ∧ made.sessionId = rec.sessionId ∧ made.owner = claims.sub ∧
      (∀ other, .created other ∈ w.log → other.sessionId = made.sessionId → other = made) ∧
      resp.sessionId = made.sessionId ∧ resp.subject = claims.sub ∧
      if d.config.injectorConfigured then resp.anthropicAuthToken = placeholderFor claims.sub
      else
        (∃ cred, source = .stored cred ∧
          storedUnder before claims.sub made.credentialName = some cred ∧
          cred.secret.head?.map Prod.snd = some resp.anthropicAuthToken) ∨
        (source = .operator ∧ made.credentialName = "" ∧
          d.config.operatorInferenceToken = some resp.anthropicAuthToken) := by
  have hord := orderly h
  have hmem : Event.released claims resp source ∈ w.log := hord.filed _ hanswer
  obtain ⟨before, after, hlog⟩ := List.append_of_mem hmem
  obtain ⟨rec, hadmitted, hsid, hsub, hstored, hoperator, hvalue⟩ :=
    releases_justified h before claims resp source after hlog
  obtain ⟨made, hmade, hmadeSid, hmadeOwner, hmadeName⟩ := hadmitted.origin
  refine ⟨before, after, rec, made, hlog, hadmitted.sid, hadmitted.read, hadmitted.owner,
    hadmitted.live, hmade, hmadeSid, hmadeOwner.trans hadmitted.owner, ?_, hsid.trans hmadeSid.symm,
    hsub.trans hadmitted.owner, ?_⟩
  · intro other hother hsame
    have hmade' : Event.created made ∈ w.log := by
      rw [hlog]
      exact List.mem_append_left _ hmade
    exact hord.fresh.unique other made hother hmade' hsame
  · split at hvalue
    · rename_i hinj
      rw [if_pos hinj, ← hadmitted.owner]
      exact hvalue.2
    · rename_i hinj
      rw [if_neg hinj, ← hadmitted.owner, hmadeName]
      cases source with
      | stored cred => exact .inl ⟨cred, rfl, hstored cred rfl, hvalue.2⟩
      | operator => exact .inr ⟨rfl, hoperator rfl, hvalue.2⟩

/-! ## A run -/

/-- The data plane exchanges the session's token; the exchange is request `i`. -/
def exchangeSession (i : Nat) : List Action :=
  [.request (.exchangeCredential (some "data-plane") 1), .run i .go, .run i .go, .run i .go,
    .run i .go]

/-- The value that a request was answered with, if it is of a stored credential for this consumer
and of this kind. -/
def Task.releasedValue (consumer : Consumer) (kind : String) : Task → Option String
  | .answered (.credential _ resp (.stored cred)) =>
    if cred.descriptor.consumer = consumer ∧ cred.descriptor.kind = kind then
      some resp.anthropicAuthToken
    else none
  | _ => none

theorem Task.releasedValue_eq_some {consumer : Consumer} {kind value : String}
    (h : t.releasedValue consumer kind = some value) :
    ∃ claims resp cred, t = .answered (.credential claims resp (.stored cred)) ∧
      cred.descriptor.consumer = consumer ∧ cred.descriptor.kind = kind ∧
      resp.anthropicAuthToken = value := by
  unfold Task.releasedValue at h
  split at h
  · rename_i claims resp cred
    split at h
    · rename_i hcred
      exact ⟨claims, resp, cred, rfl, hcred.1, hcred.2, Option.some.inj h⟩
    · cases h
  · cases h

theorem exists_released {G : World → Action → Bool} {consumer : Consumer} {kind value : String}
    (as : List Action)
    (h : (runActions (guarded G (step gatewayDeps)) (.start 0) as).map (fun w =>
      w.tasks.any fun t => t.releasedValue consumer kind = some value) = some true) :
    ∃ w, Reachable (.ofStep World.initial (guarded G (step gatewayDeps))) w ∧
      ∃ claims resp cred, .answered (.credential claims resp (.stored cred)) ∈ w.tasks ∧
        cred.descriptor.consumer = consumer ∧ cred.descriptor.kind = kind ∧
        resp.anthropicAuthToken = value := by
  have hinit : (World.start 0).initial := ⟨0, rfl⟩
  obtain ⟨w, hreach, hany⟩ := exists_reachable_of_runActions hinit as _ h
  obtain ⟨t, ht, hvalue⟩ := List.any_eq_true.mp hany
  obtain ⟨claims, resp, cred, rfl, hcred⟩ := Task.releasedValue_eq_some (of_decide_eq_true hvalue)
  exact ⟨w, hreach, claims, resp, cred, ht, hcred⟩

/-- In the run above the session's own token is released to its subject. -/
theorem exchange_releases_own_secret_alice :
    ∃ w, Reachable (controlPlane gatewayDeps) w ∧ ∃ claims resp source,
      .answered (.credential claims resp source) ∈ w.tasks ∧ resp.anthropicAuthToken = "t0" ∧
      ∃ made, .created made ∈ w.log ∧ made.owner = claims.sub ∧
        claims.sid = some made.sessionId := by
  have hrun : (runActions (guarded (fun _ _ => true) (step gatewayDeps)) (.start 0)
      (openSession ++ exchangeSession 2)).map (fun w =>
        w.tasks.any fun t => t.releasedValue .inference "bearer" = some "t0") = some true := by
    decide +kernel
  obtain ⟨w, hreach, claims, resp, cred, hanswer, -, -, hvalue⟩ := exists_released _ hrun
  obtain ⟨before, after, rec, made, hlog, hsid, -, -, -, hmade, hsame, howner, -⟩ :=
    exchange_releases_own_secret hreach.of_guarded hanswer
  refine ⟨w, hreach.of_guarded, claims, resp, _, hanswer, hvalue, made, ?_, howner, ?_⟩
  · rw [hlog]
    exact List.mem_append_left _ hmade
  · rw [hsame]
    exact hsid

/-! ## The consumer of what is released -/

/-- Whether a request is about to record a session of this subject under this credential name. -/
def Task.names (sub name : String) : Task → Bool
  | .creating _ rec => rec.owner = sub ∧ rec.credentialName = name
  | _ => false

def Event.names (sub name : String) : Event → Bool
  | .created rec => rec.owner = sub ∧ rec.credentialName = name
  | _ => false

/-- A session of this subject under this credential name was recorded, or is about to be. -/
def World.names (w : World) (sub name : String) : Bool :=
  w.log.any (Event.names sub name) || w.tasks.any (Task.names sub name)

/-- The write of a credential that is not for inference, under a name that no session records. -/
def Task.keepsInference (w : World) : Task → Bool
  | .storing sub cred => cred.descriptor.consumer = .inference || !w.names sub cred.descriptor.name
  | _ => true

/-- The steps other than the write of a credential that is not for inference under a name that a
session of the same subject records. -/
def keepsInference (w : World) : Action → Bool
  | .run i _ => (w.tasks[i]?).all (Task.keepsInference w)
  | _ => true

/-- What is stored was accepted, and is for inference under a name that a session records. -/
structure ForInference (w : World) : Prop where
  stored : ∀ sub name cred, w.credentials.get (sub, name) = some cred →
    cred.descriptor.name = name ∧ cred.Accepted
  named : ∀ sub name cred, w.names sub name = true → w.credentials.get (sub, name) = some cred →
    cred.descriptor.consumer = .inference

theorem resolveInferenceName_ok {descriptors : List CredentialDescriptor}
    {requested : Option String} (h : resolveInferenceName descriptors requested = .ok name) :
    ∃ c ∈ descriptors, c.name = name ∧ c.consumer = .inference := by
  cases requested with
  | some asked =>
    simp only [resolveInferenceName] at h
    split at h
    · cases h
    · rename_i found hfound
      split at h
      · cases h
      · rename_i hconsumer
        cases h
        have hname := List.find?_some hfound
        exact ⟨found, List.mem_of_find?_eq_some hfound, of_decide_eq_true hname,
          not_not.mp hconsumer⟩
  | none =>
    simp only [resolveInferenceName] at h
    split at h
    · cases h
    · rename_i c hone
      cases h
      have hmem : c ∈ descriptors.filter fun c => c.consumer = .inference := by
        rw [hone]
        exact List.mem_singleton_self c
      obtain ⟨hc, hconsumer⟩ := List.mem_filter.mp hmem
      exact ⟨c, hc, rfl, of_decide_eq_true hconsumer⟩
    · cases h

theorem sessionCredential_ok (h : ForInference w) {requested : Option String}
    (hname : sessionCredential d (w.list sub) requested = .ok name) :
    name = "" ∨ ∃ cred, w.credentials.get (sub, name) = some cred ∧
      cred.descriptor.consumer = .inference := by
  unfold sessionCredential at hname
  split at hname
  · exact .inl (Except.ok.inj hname).symm
  · right
    obtain ⟨c, hc, rfl, hconsumer⟩ := resolveInferenceName_ok hname
    obtain ⟨e, he, rfl⟩ := List.mem_map.mp hc
    obtain ⟨hmem, hsub⟩ := List.mem_filter.mp he
    have hget := OrderedMap.get_eq_some.mpr hmem
    have hkey : e.1 = (sub, e.2.descriptor.name) :=
      Prod.ext (of_decide_eq_true hsub) (h.stored e.1.1 e.1.2 e.2 hget).1.symm
    exact ⟨e.2, hkey ▸ hget, hconsumer⟩

theorem Move.credentials_cases (h : Move d w t w₁ t') :
    w₁.credentials = w.credentials ∨
    (∃ sub cred, t = .storing sub cred ∧
      w₁.credentials = w.credentials.set (sub, cred.descriptor.name) cred) ∨
    ∃ key, w₁.credentials = w.credentials.erase key := by
  cases h with
  | store => exact .inr (.inl ⟨_, _, rfl, rfl⟩)
  | drop => exact .inr (.inr ⟨_, rfl⟩)
  | _ => exact .inl rfl

theorem Move.stored_cases (h : Move d w t w₁ t') {cred : StoredCredential}
    (hget : w₁.credentials.get (sub, name) = some cred) :
    w.credentials.get (sub, name) = some cred ∨ t = .storing sub cred ∧
      cred.descriptor.name = name := by
  rcases h.credentials_cases with heq | ⟨sub', cred', rfl, heq⟩ | ⟨key, heq⟩
  · rw [heq] at hget
    exact .inl hget
  · rw [heq] at hget
    by_cases hkey : (sub, name) = (sub', cred'.descriptor.name)
    · rw [hkey, OrderedMap.get_set_self] at hget
      cases hget
      obtain ⟨rfl, rfl⟩ := Prod.mk.inj hkey
      exact .inr ⟨rfl, rfl⟩
    · rw [OrderedMap.get_set_ne hkey] at hget
      exact .inl hget
  · rw [heq] at hget
    exact .inl (OrderedMap.get_erase_eq_some hget).2

theorem World.names_iff :
    w.names sub name = true ↔
      (∃ rec, .created rec ∈ w.log ∧ rec.owner = sub ∧ rec.credentialName = name) ∨
      ∃ p rec, .creating p rec ∈ w.tasks ∧ rec.owner = sub ∧ rec.credentialName = name := by
  unfold World.names
  rw [Bool.or_eq_true, List.any_eq_true, List.any_eq_true]
  constructor
  · rintro (⟨e, he, hnames⟩ | ⟨t, ht, hnames⟩)
    · cases e with
      | created rec => exact .inl ⟨rec, he, of_decide_eq_true hnames⟩
      | _ => cases hnames
    · cases t with
      | creating p rec => exact .inr ⟨p, rec, ht, of_decide_eq_true hnames⟩
      | _ => cases hnames
  · rintro (⟨rec, hrec, hnames⟩ | ⟨p, rec, hrec, hnames⟩)
    · exact .inl ⟨_, hrec, decide_eq_true hnames⟩
    · exact .inr ⟨_, hrec, decide_eq_true hnames⟩

/-- A name that is new in use was just chosen. -/
theorem Move.names_cases (h : Move d w t w₁ t') {i : Nat} (hi : w.tasks[i]? = some t)
    (hnames : World.names { w₁ with tasks := w₁.tasks.set i t' } sub name = true) :
    w.names sub name = true ∨
      ∃ p requested, t = .listing p requested ∧ p.sub = sub ∧
        sessionCredential d (w.list sub) requested = .ok name := by
  have htasks := h.tasks_eq
  rcases World.names_iff.mp hnames with ⟨rec, hrec, hsame⟩ | ⟨p, rec, hrec, hsame⟩
  · dsimp only at hrec
    rcases h.newId_cases with ⟨_, _, _, _, -, -, rfl, -⟩ | ⟨p, made, rfl, hlog, -⟩ | ⟨-, -, hlog⟩
    · exact .inl (World.names_iff.mpr (.inl ⟨rec, hrec, hsame⟩))
    · rw [hlog] at hrec
      rcases List.mem_append.mp hrec with hrec | hrec
      · exact .inl (World.names_iff.mpr (.inl ⟨rec, hrec, hsame⟩))
      · cases List.mem_singleton.mp hrec
        exact .inl (World.names_iff.mpr (.inr ⟨p, rec, List.mem_of_getElem? hi, hsame⟩))
    · exact .inl (World.names_iff.mpr (.inl ⟨rec, hlog rec hrec, hsame⟩))
  · dsimp only at hrec
    rw [htasks] at hrec
    rcases List.mem_or_eq_of_mem_set hrec with hrec | heq
    · exact .inl (World.names_iff.mpr (.inr ⟨p, rec, hrec, hsame⟩))
    · cases h with
      | list fresh chosen =>
        cases heq
        obtain ⟨rfl, rfl⟩ := hsame
        exact .inr ⟨_, _, rfl, rfl, chosen⟩
      | turn r issued hashes turns =>
        have hnone := turns.newId
        rw [← heq] at hnone
        cases hnone
      | find found =>
        have hnone := found.newId
        rw [← heq] at hnone
        cases hnone
      | _ => cases heq

theorem ForInference.move (h : ForInference w) {i : Nat} (hi : w.tasks[i]? = some t)
    (ht : t.Filed w.log) (hguard : t.keepsInference w = true) (hm : Move d w t w₁ t') :
    ForInference { w₁ with tasks := w₁.tasks.set i t' } := by
  constructor
  · intro sub name cred hget
    rcases hm.stored_cases hget with hget | ⟨rfl, hname⟩
    · exact h.stored sub name cred hget
    · exact ⟨hname, ht⟩
  · intro sub name cred hnames hget
    rcases hm.names_cases hi hnames with hnames | ⟨p, requested, rfl, rfl, hchosen⟩
    · rcases hm.stored_cases hget with hget | ⟨rfl, rfl⟩
      · exact h.named sub name cred hnames hget
      · simp only [Task.keepsInference, hnames, Bool.not_true, Bool.or_false] at hguard
        exact of_decide_eq_true hguard
    · rcases hm.stored_cases hget with hget | ⟨heq, -⟩
      · rcases sessionCredential_ok h hchosen with rfl | ⟨found, hfound, hconsumer⟩
        · obtain ⟨hname, haccepted⟩ := h.stored _ _ _ hget
          exact absurd hname haccepted.named
        · rw [hfound] at hget
          cases hget
          exact hconsumer
      · cases heq

/-- Every stored credential that was released is for inference and of a kind with one secret
field. -/
def InferenceReleased (log : List Event) : Prop :=
  ∀ claims resp cred, .released claims resp (.stored cred) ∈ log →
    cred.descriptor.consumer = .inference ∧ singleFieldKind cred.descriptor.kind = true

theorem InferenceReleased.append (h : InferenceReleased log)
    (he : ∀ claims resp cred, e = .released claims resp (.stored cred) →
      cred.descriptor.consumer = .inference ∧ singleFieldKind cred.descriptor.kind = true) :
    InferenceReleased (log ++ [e]) := by
  intro claims resp cred hmem
  rcases List.mem_append.mp hmem with hmem | hmem
  · exact h claims resp cred hmem
  · exact he claims resp cred (List.mem_singleton.mp hmem).symm

theorem InferenceReleased.move (h : InferenceReleased w.log) (hw : ForInference w)
    (ht : t.Filed w.log)
    (hm : Move d w t w₁ t') : InferenceReleased w₁.log := by
  cases hm with
  | turn | list | deleteData | deleteRecord => exact h
  | store | drop | create | find | bury | refuse | admitted =>
    exact h.append (fun _ _ _ heq => by cases heq)
  | fetch result =>
    apply h.append
    rintro claims resp cred ⟨⟩
    obtain ⟨-, -, hstored, -⟩ := exchangeResult_ok result
    have hget := hstored cred rfl
    obtain ⟨made, hmade, -, howner, hname⟩ := ht.origin
    have hnames := World.names_iff.mpr (.inl ⟨made, hmade, howner, hname⟩)
    have hconsumer := hw.named _ _ cred hnames hget
    exact ⟨hconsumer, (hw.stored _ _ cred hget).2.single hconsumer⟩
  | fallBack found owner live result =>
    apply InferenceReleased.append (h.append (fun _ _ _ heq => by cases heq))
    rintro claims resp cred ⟨⟩
    obtain ⟨-, -, hstored, -⟩ := exchangeResult_ok result
    cases hstored cred rfl

/-- A guarded step releases credentials for inference only. -/
theorem ForInference.step {a : Action} (hord : Orderly w) (hw : ForInference w)
    (hlog : InferenceReleased w.log) (hguard : ControlPlane.keepsInference w a = true)
    (ha : ControlPlane.step d w a = some w') : ForInference w' ∧ InferenceReleased w'.log := by
  have hkeep : ∀ {v : World}, v.credentials = w.credentials → v.log = w.log →
      (∀ p rec, .creating p rec ∈ v.tasks → .creating p rec ∈ w.tasks) →
      ForInference v ∧ InferenceReleased v.log := by
    intro v hcreds hvlog htasks
    rw [hvlog]
    refine ⟨⟨fun sub name cred hget => ?_, fun sub name cred hnames hget => ?_⟩, hlog⟩
    · rw [hcreds] at hget
      exact hw.stored sub name cred hget
    · rw [hcreds] at hget
      refine hw.named sub name cred (World.names_iff.mpr ?_) hget
      rw [← hvlog]
      exact (World.names_iff.mp hnames).imp_right fun ⟨p, rec, hrec, hsame⟩ =>
        ⟨p, rec, htasks p rec hrec, hsame⟩
  cases a with
  | login | report | tick => cases ha; exact hkeep rfl rfl fun _ _ h => h
  | request req =>
    cases ha
    refine hkeep rfl rfl fun p rec hrec => ?_
    rcases List.mem_append.mp hrec with hrec | hrec
    · exact hrec
    · cases List.mem_singleton.mp hrec
  | run i c =>
    obtain ⟨t, t', w₁, hi, hmove, rfl⟩ := step_run ha
    have hfiled := hord.filed t (List.mem_of_getElem? hi)
    have htask : t.keepsInference w = true := by
      simp only [ControlPlane.keepsInference, hi, Option.all_some] at hguard
      exact hguard
    have hlog' := hlog.move hw hfiled hmove
    exact ⟨hw.move hi hfiled htask hmove, hlog'⟩

/-- The runs in which no other credential is stored under a name that a session records. -/
def inferenceRuns (d : CpDeps) : TransitionSystem World :=
  .ofStep World.initial (guarded keepsInference (step d))

/-- **A released secret is that of a credential for inference with one secret field**, in every run
in which no other credential is stored under a name that a session of the same subject records. -/
theorem released_secret_is_for_inference {before after : List Event} {claims : TokenClaims}
    {resp : ExchangeResponse} {cred : StoredCredential} (h : Reachable (inferenceRuns d) w)
    (hlog : w.log = before ++ .released claims resp (.stored cred) :: after) :
    (∃ name, storedUnder before claims.sub name = some cred) ∧
      cred.descriptor.consumer = .inference ∧ singleFieldKind cred.descriptor.kind = true := by
  constructor
  · obtain ⟨rec, hadmitted, -, -, hstored, -⟩ :=
      releases_justified h.of_guarded before claims resp _ after hlog
    rw [hadmitted.owner] at hstored
    exact ⟨rec.credentialName, hstored cred rfl⟩
  · have hall : ForInference w ∧ InferenceReleased w.log := by
      apply Reachable.invariant (P := fun w => ForInference w ∧ InferenceReleased w.log) ?_ ?_ h
      · rintro w ⟨now, rfl⟩
        refine ⟨⟨fun _ _ _ hget => ?_, fun _ _ _ hnames => ?_⟩, fun _ _ _ hmem => ?_⟩
        · cases hget
        · cases hnames
        · cases hmem
      · rintro w w' hreach ⟨hw, hreleased⟩ ⟨a, ha⟩
        obtain ⟨hguard, hstep⟩ := guarded_eq_some.mp ha
        exact ForInference.step (orderly hreach.of_guarded) hw hreleased hguard hstep
    apply hall.2 claims resp cred
    rw [hlog]
    exact List.mem_append_right _ List.mem_cons_self

/-- In the run without a second write the session's own token is released. -/
theorem released_secret_is_for_inference_bearer :
    ∃ w, Reachable (inferenceRuns gatewayDeps) w ∧ ∃ before after claims resp cred,
      w.log = before ++ .released claims resp (.stored cred) :: after ∧
      resp.anthropicAuthToken = "t0" ∧
      (∃ name, storedUnder before claims.sub name = some cred) ∧
      cred.descriptor.consumer = .inference ∧ singleFieldKind cred.descriptor.kind = true := by
  have hrun : (runActions (guarded keepsInference (step gatewayDeps)) (.start 0)
      (openSession ++ exchangeSession 2)).map (fun w =>
        w.tasks.any fun t => t.releasedValue .inference "bearer" = some "t0") = some true := by
    decide +kernel
  obtain ⟨w, hreach, claims, resp, cred, hanswer, -, -, hvalue⟩ := exists_released _ hrun
  have hmem : Event.released claims resp (.stored cred) ∈ w.log :=
    (orderly hreach.of_guarded).filed _ hanswer
  obtain ⟨before, after, hlog⟩ := List.append_of_mem hmem
  exact ⟨w, hreach, before, after, claims, resp, cred, hlog, hvalue,
    released_secret_is_for_inference hreach hlog⟩

/-- A credential of two secret fields for the sandbox's egress, stored under the name of the
session, is released: its user name is sent to the inference gateway. -/
theorem basic_credential_released :
    ∃ w, Reachable (controlPlane gatewayDeps) w ∧ ∃ claims resp cred,
      .answered (.credential claims resp (.stored cred)) ∈ w.tasks ∧
      cred.descriptor.consumer = .sandboxEgress ∧ cred.descriptor.kind = "basic" ∧
      resp.anthropicAuthToken = "alice-login" := by
  have hrun : (runActions (guarded (fun _ _ => true) (step gatewayDeps)) (.start 0)
      (openSession ++
        [.request (.putCredential 0 "key"
          (credentialBody "basic" "sandbox-egress" "Bearer \x7busername\x7d"
            [("username", "alice-login"), ("password", "p0")])),
          .run 2 .go, .run 2 .go] ++ exchangeSession 3)).map (fun w =>
        w.tasks.any fun t => t.releasedValue .sandboxEgress "basic" = some "alice-login") =
      some true := by
    decide +kernel
  obtain ⟨w, hreach, hreleased⟩ := exists_released _ hrun
  exact ⟨w, hreach.of_guarded, hreleased⟩

end ServerlessHarness.ControlPlane
