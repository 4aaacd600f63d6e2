import ServerlessHarness.Interface.ControlPlane.Moves
import ServerlessHarness.Interface.ControlPlane.Sessions
import ServerlessHarness.Library.Crew
import ServerlessHarness.Library.Slots

/-!
# Where the records come from

In every run a session id is recorded at most once (`FreshIds`), the record that `index.get`
returns carries the owner and the credential name of its creation (`Recorded`), and a request that
holds a record or an answer has read it (`Task.Filed`). `orderly` states the three of every
reachable world.
-/

set_option autoImplicit false

namespace ServerlessHarness.ControlPlane

open Library

variable {d : CpDeps} {w w' w₁ : World} {t t' : Task}

/-! ## Session ids -/

/-- The id that a request is about to record. -/
def Task.newId : Task → Option String
  | .creating _ rec => some rec.sessionId
  | _ => none

/-- The ids being recorded and the recorded ones are all different, and were given out. -/
structure FreshIds (w : World) : Prop where
  pending : ∀ (i j : Nat) (t u : Task) (id : String), w.tasks[i]? = some t → w.tasks[j]? = some u →
    t.newId = some id → u.newId = some id → i = j
  fresh : ∀ t ∈ w.tasks, ∀ rec, .created rec ∈ w.log → t.newId ≠ some rec.sessionId
  unique : ∀ rec rec', .created rec ∈ w.log → .created rec' ∈ w.log →
    rec.sessionId = rec'.sessionId → rec = rec'
  pendingGiven : ∀ t ∈ w.tasks, ∀ id, t.newId = some id → id ∈ w.ids
  createdGiven : ∀ rec, .created rec ∈ w.log → rec.sessionId ∈ w.ids

theorem FreshIds.mono (h : FreshIds w) (hids : w'.ids = w.ids)
    (hlog : ∀ rec, .created rec ∈ w'.log → .created rec ∈ w.log)
    (htasks : ∀ (i : Nat) t' id, w'.tasks[i]? = some t' → t'.newId = some id →
      ∃ t, w.tasks[i]? = some t ∧ t.newId = some id) : FreshIds w' := by
  have hmem : ∀ t' ∈ w'.tasks, ∀ id, t'.newId = some id → ∃ t ∈ w.tasks, t.newId = some id := by
    intro t' ht' id hid
    obtain ⟨i, hi⟩ := List.getElem?_of_mem ht'
    obtain ⟨t, ht, hid'⟩ := htasks i t' id hi hid
    exact ⟨t, List.mem_of_getElem? ht, hid'⟩
  constructor
  · intro i j t u id hi hj ht hu
    obtain ⟨t₀, ht₀, hid⟩ := htasks i t id hi ht
    obtain ⟨u₀, hu₀, hid'⟩ := htasks j u id hj hu
    exact h.pending i j t₀ u₀ id ht₀ hu₀ hid hid'
  · intro t ht rec hrec hid
    obtain ⟨t₀, ht₀, hid'⟩ := hmem t ht _ hid
    exact h.fresh t₀ ht₀ rec (hlog rec hrec) hid'
  · intro rec rec' hrec hrec'
    exact h.unique rec rec' (hlog rec hrec) (hlog rec' hrec')
  · intro t ht id hid
    obtain ⟨t₀, ht₀, hid'⟩ := hmem t ht id hid
    rw [hids]
    exact h.pendingGiven t₀ ht₀ id hid'
  · intro rec hrec
    rw [hids]
    exact h.createdGiven rec (hlog rec hrec)

theorem Started.newId (h : Started t) : t.newId = none := by
  cases h <;> rfl

theorem Turns.newId (h : Turns t t') : t'.newId = none := by
  cases h with
  | starts started => exact started.newId
  | _ => rfl

theorem Found.newId {p : TokenClaims} {found : Option SessionRecord} (h : Found p found t) :
    t.newId = none := by
  cases h <;> rfl

/-- Whether an event records a session. -/
def Event.isCreated : Event → Bool
  | .created _ => true
  | _ => false

variable {log log' : List Event} {rec : SessionRecord} {sid : String} {i : Nat}

theorem created_of_note {e : Event} (he : e.isCreated = false) (h : .created rec ∈ (w.note e).log) :
    .created rec ∈ w.log := by
  rcases List.mem_append.mp h with h | h
  · exact h
  · rw [← List.mem_singleton.mp h] at he
    cases he

theorem Move.newId_cases (h : Move d w t w₁ t') :
    (∃ p requested sid name, sid ∉ w.ids ∧ t = .listing p requested ∧
      w₁ = { w with ids := w.ids ++ [sid] } ∧ t' = .creating p (newRecord p sid name w.now)) ∨
    (∃ p rec, t = .creating p rec ∧ w₁.log = w.log ++ [.created rec] ∧ w₁.ids = w.ids ∧
      t' = .indexing p rec) ∨
    (t'.newId = none ∧ w₁.ids = w.ids ∧ ∀ rec, .created rec ∈ w₁.log → .created rec ∈ w.log) := by
  cases h with
  | list fresh chosen => exact .inl ⟨_, _, _, _, fresh, rfl, rfl, rfl⟩
  | create => exact .inr (.inl ⟨_, _, rfl, rfl, rfl, rfl⟩)
  | turn r issued hashes turns => exact .inr (.inr ⟨turns.newId, rfl, fun _ h => h⟩)
  | find found => exact .inr (.inr ⟨found.newId, rfl, fun _ => created_of_note rfl⟩)
  | store | drop | bury | refuse | admitted | fetch =>
    exact .inr (.inr ⟨rfl, rfl, fun _ => created_of_note rfl⟩)
  | deleteData | deleteRecord => exact .inr (.inr ⟨rfl, rfl, fun _ h => h⟩)
  | fallBack =>
    exact .inr (.inr ⟨rfl, rfl, fun _ h =>
      created_of_note rfl (created_of_note rfl h)⟩)

theorem slot_newId_of_set {l : List Task} {j : Nat} {u : Task} {id : String}
    (ht' : t'.newId = none) (hj : (l.set i t')[j]? = some u) (hu : u.newId = some id) :
    ∃ v, l[j]? = some v ∧ v.newId = some id := by
  rcases slot_of_set hj with ⟨-, rfl⟩ | ⟨-, hj⟩
  · rw [ht'] at hu
    cases hu
  · exact ⟨u, hj, hu⟩

theorem FreshIds.take (h : FreshIds w) (hfresh : sid ∉ w.ids) (hid : t'.newId = some sid) :
    FreshIds { w with ids := w.ids ++ [sid], tasks := w.tasks.set i t' } := by
  have hold : ∀ u ∈ w.tasks, u.newId ≠ some sid :=
    fun u hu hid => hfresh (h.pendingGiven u hu sid hid)
  constructor
  · intro j k u v id hj hk hu hv
    rcases slot_of_set hj with ⟨rfl, rfl⟩ | ⟨-, hj⟩
    · rcases slot_of_set hk with ⟨rfl, -⟩ | ⟨-, hk⟩
      · rfl
      · rw [hid] at hu
        cases hu
        exact absurd hv (hold v (List.mem_of_getElem? hk))
    · rcases slot_of_set hk with ⟨rfl, rfl⟩ | ⟨-, hk⟩
      · rw [hid] at hv
        cases hv
        exact absurd hu (hold u (List.mem_of_getElem? hj))
      · exact h.pending j k u v id hj hk hu hv
  · apply forall_mem_set h.fresh
    intro rec hrec hsid
    rw [hid] at hsid
    cases hsid
    exact hfresh (h.createdGiven rec hrec)
  · exact h.unique
  · apply forall_mem_set
    · intro u hu id hid
      exact List.mem_append_left _ (h.pendingGiven u hu id hid)
    · intro id hid'
      rw [hid] at hid'
      cases hid'
      exact List.mem_append_right _ (List.mem_singleton_self sid)
  · intro rec hrec
    exact List.mem_append_left _ (h.createdGiven rec hrec)

theorem FreshIds.record (h : FreshIds w) (hi : w.tasks[i]? = some t)
    (hid : t.newId = some rec.sessionId) (ht' : t'.newId = none) (hids : w'.ids = w.ids)
    (hlog : w'.log = w.log ++ [.created rec]) (htasks : w'.tasks = w.tasks.set i t') :
    FreshIds w' := by
  have hmem := List.mem_of_getElem? hi
  have hcreated : ∀ rec', .created rec' ∈ w'.log → .created rec' ∈ w.log ∨ rec' = rec := by
    intro rec' hrec'
    rw [hlog] at hrec'
    rcases List.mem_append.mp hrec' with h | h
    · exact .inl h
    · exact .inr (Event.created.inj (List.mem_singleton.mp h))
  have hslots : ∀ (j : Nat) u id, w'.tasks[j]? = some u → u.newId = some id →
      w.tasks[j]? = some u ∧ j ≠ i := by
    intro j u id hj hu
    rw [htasks] at hj
    rcases slot_of_set hj with ⟨-, rfl⟩ | ⟨hne, hj⟩
    · rw [ht'] at hu
      cases hu
    · exact ⟨hj, hne.symm⟩
  constructor
  · intro j k u v id hj hk hu hv
    exact h.pending j k u v id (hslots j u id hj hu).1 (hslots k v id hk hv).1 hu hv
  · intro u hu rec' hrec' hid'
    obtain ⟨j, hj⟩ := List.getElem?_of_mem hu
    obtain ⟨hj, hne⟩ := hslots j u _ hj hid'
    rcases hcreated rec' hrec' with hrec' | rfl
    · exact h.fresh u (List.mem_of_getElem? hj) rec' hrec' hid'
    · exact hne (h.pending j i u t _ hj hi hid' hid)
  · intro rec₁ rec₂ h₁ h₂ hsid
    rcases hcreated rec₁ h₁ with h₁ | rfl
    · rcases hcreated rec₂ h₂ with h₂ | rfl
      · exact h.unique rec₁ rec₂ h₁ h₂ hsid
      · exact absurd (hsid ▸ hid) (h.fresh t hmem rec₁ h₁)
    · rcases hcreated rec₂ h₂ with h₂ | rfl
      · exact absurd (hsid ▸ hid) (h.fresh t hmem rec₂ h₂)
      · rfl
  · intro u hu id hid'
    obtain ⟨j, hj⟩ := List.getElem?_of_mem hu
    rw [hids]
    exact h.pendingGiven u (List.mem_of_getElem? (hslots j u id hj hid').1) id hid'
  · intro rec' hrec'
    rw [hids]
    rcases hcreated rec' hrec' with hrec' | rfl
    · exact h.createdGiven rec' hrec'
    · exact h.pendingGiven t hmem _ hid

theorem FreshIds.change (h : FreshIds w) (hc : Change d w w') : FreshIds w' := by
  cases hc with
  | outside | report => exact h.mono rfl (fun _ h => h) fun _ t' _ ht' hid => ⟨t', ht', hid⟩
  | request req =>
    refine h.mono rfl (fun _ h => h) fun i t' id ht' hid => ?_
    rcases slot_of_append ht' with ht' | ⟨-, rfl⟩
    · exact ⟨t', ht', hid⟩
    · cases hid
  | @move i t t' w₁ slot moves =>
    have htasks := moves.tasks_eq
    rcases moves.newId_cases with
      ⟨p, _, sid, name, hfresh, -, rfl, rfl⟩ | ⟨p, rec, rfl, hlog, hids, rfl⟩ | ⟨hid, hids, hlog⟩
    · exact h.take hfresh rfl
    · have hdone : (Task.indexing p rec).newId = none := rfl
      refine h.record slot rfl hdone hids hlog ?_
      dsimp only
      rw [htasks]
    · refine h.mono hids hlog fun j u id hj hu => ?_
      dsimp only at hj
      rw [htasks] at hj
      exact slot_newId_of_set hid hj hu

/-! ## Records -/

/-- A record carries the owner and the credential name with which its session was recorded. -/
def Originates (log : List Event) (rec : SessionRecord) : Prop :=
  ∃ made, .created made ∈ log ∧ made.sessionId = rec.sessionId ∧ made.owner = rec.owner ∧
    made.credentialName = rec.credentialName

/-- A hash with an owner is that of a session as it was recorded. -/
def Recorded (w : World) : Prop :=
  ∀ sid, w.redis.field sid "owner" = none ∨
    ∃ made, .created made ∈ w.log ∧ made.sessionId = sid ∧
      w.redis.field sid "owner" = some made.owner ∧
      w.redis.field sid "credentialName" = some made.credentialName

theorem Originates.mono (h : Originates log rec) (hlog : ∀ e ∈ log, e ∈ log') :
    Originates log' rec := by
  obtain ⟨made, hmade, hsame⟩ := h
  exact ⟨made, hlog _ hmade, hsame⟩

/-- INTERNAL: **what `index.get` returns was recorded**. -/
theorem Recorded.getSession (h : Recorded w) (hget : w.redis.getSession sid = some rec) :
    rec.sessionId = sid ∧ Originates w.log rec := by
  obtain ⟨hsid, howner, hname, -⟩ := getSession_eq_some hget
  refine ⟨hsid, ?_⟩
  rcases h sid with hnone | ⟨made, hmade, hid, howner', hname'⟩
  · rw [hnone] at howner
    cases howner
  · refine ⟨made, hmade, hid.trans hsid.symm, ?_, ?_⟩
    · exact Option.some.inj (howner'.symm.trans howner)
    · rw [hname, hname']
      rfl

theorem Recorded.mono (h : Recorded w) (hlog : ∀ e ∈ w.log, e ∈ w'.log)
    (hfields : ∀ sid, (w'.redis.field sid "owner" = w.redis.field sid "owner" ∧
      w'.redis.field sid "credentialName" = w.redis.field sid "credentialName") ∨
      w'.redis.field sid "owner" = none) : Recorded w' := by
  intro sid
  rcases hfields sid with ⟨howner, hname⟩ | hnone
  · rw [howner, hname]
    rcases h sid with hnone | ⟨made, hmade, hrest⟩
    · exact .inl hnone
    · exact .inr ⟨made, hlog _ hmade, hrest⟩
  · exact .inl hnone

theorem Recorded.create (h : Recorded w) (rec : SessionRecord) :
    Recorded { w.note (.created rec) with redis := w.redis.createRecord rec } := by
  intro sid
  dsimp only
  by_cases hsid : sid = rec.sessionId
  · subst hsid
    obtain ⟨howner, hname⟩ := @field_createRecord_self w.redis rec
    exact .inr ⟨rec, List.mem_append_right _ (List.mem_singleton_self _), rfl, howner, hname⟩
  · rw [field_createRecord_ne hsid, field_createRecord_ne hsid]
    rcases h sid with hnone | ⟨made, hmade, hrest⟩
    · exact .inl hnone
    · exact .inr ⟨made, List.mem_append_left _ hmade, hrest⟩

theorem Move.log_subset (h : Move d w t w₁ t') : ∀ e ∈ w.log, e ∈ w₁.log := by
  intro e he
  cases h with
  | turn | list | deleteData | deleteRecord => exact he
  | fallBack => exact List.mem_append_left _ (List.mem_append_left _ he)
  | _ => exact List.mem_append_left _ he

theorem Change.log_subset (h : Change d w w') : ∀ e ∈ w.log, e ∈ w'.log := by
  cases h with
  | move slot moves => exact moves.log_subset
  | _ => exact fun _ he => he

theorem Recorded.move (h : Recorded w) (hm : Move d w t w₁ t') : Recorded w₁ := by
  have hlog := hm.log_subset
  cases hm with
  | create => exact h.create _
  | turn r issued hashes turns =>
    exact h.mono hlog fun sid => .inl ⟨field_of_hashes hashes, field_of_hashes hashes⟩
  | bury =>
    exact h.mono hlog fun sid =>
      .inl ⟨field_tombstone_of_ne (by decide) (by decide),
        field_tombstone_of_ne (by decide) (by decide)⟩
  | deleteData keys =>
    exact h.mono hlog fun sid =>
      (field_del keys sid).imp (fun hsame => ⟨hsame _, hsame _⟩) fun hnone => hnone _
  | deleteRecord keys =>
    exact h.mono hlog fun sid =>
      (field_del keys sid).imp (fun hsame => ⟨hsame _, hsame _⟩) fun hnone => hnone _
  | _ => exact h.mono hlog fun sid => .inl ⟨rfl, rfl⟩

theorem Recorded.change (h : Recorded w) (hc : Change d w w') : Recorded w' := by
  cases hc with
  | outside | request => exact h
  | report sid fields =>
    exact h.mono (fun _ he => he) fun id =>
      .inl ⟨field_putRuntime (by decide), field_putRuntime (by decide)⟩
  | move slot moves =>
    have hmoved := h.move moves
    exact hmoved

/-! ## Requests -/

/-- The record of an exchange under way: of the token's session and subject, read live, with a
credential. -/
structure Admitted (log : List Event) (claims : TokenClaims) (rec : SessionRecord) : Prop where
  sid : claims.sid = some rec.sessionId
  read : .read rec.sessionId (some rec) ∈ log
  owner : rec.owner = claims.sub
  live : rec.tombstone = false
  origin : Originates log rec

/-- What a request has read and logged before it took its present form. -/
def Task.Filed (log : List Event) : Task → Prop
  | .storing _ cred => cred.Accepted
  | .looking claims sid => claims.sid = some sid
  | .fetching claims rec => Admitted log claims rec
  | .askingRuntime rec => Originates log rec
  | .tombstoning rec _ => Originates log rec
  | .auditingExchange claims _ resp source => .released claims resp source ∈ log
  | .answered (.credential claims resp source) => .released claims resp source ∈ log
  | _ => True

theorem Admitted.mono {claims : TokenClaims} (h : Admitted log claims rec)
    (hlog : ∀ e ∈ log, e ∈ log') : Admitted log' claims rec :=
  ⟨h.sid, hlog _ h.read, h.owner, h.live, h.origin.mono hlog⟩

theorem Task.Filed.mono (h : t.Filed log) (hlog : ∀ e ∈ log, e ∈ log') :
    t.Filed log' := by
  cases t with
  | fetching claims rec => exact Admitted.mono h hlog
  | askingRuntime | tombstoning => exact Originates.mono h hlog
  | auditingExchange claims entry resp source => exact hlog _ h
  | answered a =>
    cases a with
    | credential claims resp source => exact hlog _ h
    | _ => exact h
  | _ => exact h

theorem Started.filed (h : Started t) : t.Filed log := by
  cases h with
  | storing accepted => exact accepted
  | looking sid_eq => exact sid_eq
  | dropping | listing | finding => exact trivial

theorem Turns.filed (h : Turns t t') (ht : t.Filed log) : t'.Filed log := by
  cases h with
  | starts started => exact started.filed
  | asked | released => exact ht
  | _ => exact trivial

theorem Found.filed {p : TokenClaims} (hrec : Recorded w) (hlog : ∀ e ∈ w.log, e ∈ log)
    (h : Found p (w.redis.getSession sid) t) : t.Filed log := by
  cases h with
  | asking isFound => exact (hrec.getSession isFound).2.mono hlog
  | failed | viewing | minting => exact trivial

theorem Recorded.admitted (h : Recorded w) {claims : TokenClaims} (hsid : claims.sid = some sid)
    (found : w.redis.getSession sid = some rec) (owner : rec.owner = claims.sub)
    (live : rec.tombstone = false) :
    Admitted (w.note (.read sid (some rec))).log claims rec := by
  obtain ⟨hrec, horigin⟩ := h.getSession found
  rw [← hrec] at hsid ⊢
  exact ⟨hsid, List.mem_append_right _ (List.mem_singleton_self _), owner, live,
    horigin.mono fun _ he => List.mem_append_left _ he⟩

theorem Move.filed (h : Move d w t w₁ t') (hrec : Recorded w) (ht : t.Filed w.log) :
    t'.Filed w₁.log := by
  have hlog := h.log_subset
  cases h with
  | turn r issued hashes turns => exact turns.filed ht
  | find found => exact found.filed hrec hlog
  | admitted found owner live named => exact hrec.admitted ht found owner live
  | fallBack | fetch => exact List.mem_append_right _ (List.mem_singleton_self _)
  | _ => exact trivial

/-! ## All runs -/

/-- What every reachable world satisfies. -/
structure Orderly (w : World) : Prop where
  fresh : FreshIds w
  recorded : Recorded w
  filed : ∀ t ∈ w.tasks, t.Filed w.log

theorem Orderly.start (now : Int) : Orderly (.start now) where
  fresh :=
    { pending := fun i j t u id hi => by cases hi
      fresh := List.forall_mem_nil _
      unique := fun rec rec' hrec => by cases hrec
      pendingGiven := List.forall_mem_nil _
      createdGiven := fun rec hrec => by cases hrec }
  recorded := fun sid => .inl rfl
  filed := List.forall_mem_nil _

theorem Orderly.change (h : Orderly w) (hc : Change d w w') : Orderly w' := by
  refine ⟨h.fresh.change hc, h.recorded.change hc, ?_⟩
  have hold : ∀ t ∈ w.tasks, t.Filed w'.log := fun t ht => (h.filed t ht).mono hc.log_subset
  cases hc with
  | outside | report => exact hold
  | request req => exact forall_mem_concat hold trivial
  | move slot moves =>
    dsimp only
    rw [moves.tasks_eq]
    exact forall_mem_set hold (moves.filed h.recorded (h.filed _ (List.mem_of_getElem? slot)))

/-- INTERNAL: **the records and the requests agree in every run**. -/
theorem orderly (h : Reachable (controlPlane d) w) : Orderly w := by
  apply Reachable.invariant (P := Orderly) ?_ ?_ h
  · rintro w ⟨now, rfl⟩
    exact .start now
  · rintro w w' - hw ⟨a, ha⟩
    exact hw.change (step_change ha)

/-! ## A small deployment -/

/-- A deployment without an injector, whose gateway is the default endpoint. -/
def gatewayDeps : CpDeps where
  config :=
    { apiTokenTtlSeconds := 3600
      sessionTokenTtlSeconds := 900
      exchangeToken := some "data-plane"
      defaultInferenceEndpoint := some "https://litellm.internal/v1"
      operatorInferenceToken := none
      operatorInferenceHeader := none
      allowOperatorFallback := false
      injectorConfigured := false }
  subjectHash := fun subject => subject
  rt :=
    { parseUrl := fun url =>
        if url = "https://litellm.internal/v1" then some ⟨"https:", "litellm.internal", "/v1", ""⟩
        else none
      toLowerCase := fun text => if text = "Authorization" then "authorization" else text
      toText := fun _ => "" }

/-- The body of a credential for one host. -/
def credentialBody (kind consumer format : String) (secret : List (String × String)) : Json :=
  .obj [("kind", .str kind), ("consumer", .str consumer),
    ("destination", .obj [("hosts", .arr [.str "litellm.internal"])]),
    ("binding", .obj [("header", .str "Authorization"), ("format", .str format)]),
    ("secret", .obj (secret.map fun e => (e.1, .str e.2)))]

/-- A subject logs in, stores a bearer token for inference as `key` and creates a session on it. -/
def openSession : List Action :=
  [.login "alice" [],
    .request (.putCredential 0 "key"
      (credentialBody "bearer" "inference" "Bearer \x7btoken\x7d" [("token", "t0")])),
    .run 0 .go, .run 0 .go, .run 0 .go,
    .request (.createSession 0 (.obj [])),
    .run 1 .go, .run 1 (.id "s"), .run 1 .go, .run 1 .go, .run 1 .go]

end ServerlessHarness.ControlPlane
