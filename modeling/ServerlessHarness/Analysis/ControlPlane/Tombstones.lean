import ServerlessHarness.Interface.ControlPlane.Records

/-!
# A tombstone is final

Once the tombstone of a session is written, the hash under its key has no owner or has the
tombstone: a second delete may write the tombstone to a record that the first has removed, but only
`create` writes an owner, and it runs once for each id. So every later read of the session finds
nothing live, and the requests that hold a live record of it are those that had read it before.
-/

set_option autoImplicit false

namespace ServerlessHarness.ControlPlane

open Library

variable {d : CpDeps} {w w' w₁ : World} {t t' : Task} {sid : String}

/-! ## What is left under the key of a session -/

/-- The hash under the key of a session does not stand for a live one. -/
def Redis.Buried (r : Redis) (sid : String) : Prop :=
  r.field sid "owner" = none ∨ r.field sid "tombstone" = some "1"

variable {r : Redis} {rec : SessionRecord}

theorem Redis.Buried.getSession (h : r.Buried sid) (hget : r.getSession sid = some rec) :
    rec.tombstone = true := by
  obtain ⟨-, howner, -, htomb⟩ := getSession_eq_some hget
  rcases h with hnone | hsome
  · rw [hnone] at howner
    cases howner
  · exact htomb.mpr hsome

/-- Every session with a tombstone in the log is buried, and was recorded before. -/
def TombstonesFinal (w : World) : Prop :=
  ∀ sid, .tombstoned sid ∈ w.log →
    w.redis.Buried sid ∧ ∃ made, .created made ∈ w.log ∧ made.sessionId = sid

theorem Redis.Buried.mono {r' : Redis} (h : r.Buried sid)
    (hfields : (∀ f ∈ recordFields, r'.field sid f = r.field sid f) ∨ r'.field sid "owner" = none) :
    r'.Buried sid := by
  rcases hfields with hsame | hnone
  · unfold Redis.Buried
    rw [hsame "owner" (by decide), hsame "tombstone" (by decide)]
    exact h
  · exact .inl hnone

theorem Redis.Buried.tombstone {id : String} (h : sid = id ∨ r.Buried sid) :
    (r.tombstone id).Buried sid := by
  by_cases hid : sid = id
  · subst hid
    exact .inr field_tombstone_self
  · exact (h.resolve_left hid).mono (.inl fun _ _ => field_tombstone_ne hid)

theorem TombstonesFinal.mono (h : TombstonesFinal w) (hlog : ∀ e ∈ w.log, e ∈ w'.log)
    (htomb : ∀ sid, .tombstoned sid ∈ w'.log → .tombstoned sid ∈ w.log)
    (hfields : ∀ sid, .tombstoned sid ∈ w.log →
      (∀ f ∈ recordFields, w'.redis.field sid f = w.redis.field sid f) ∨
        w'.redis.field sid "owner" = none) : TombstonesFinal w' := by
  intro sid hsid
  obtain ⟨hburied, made, hmade, hid⟩ := h sid (htomb sid hsid)
  exact ⟨hburied.mono (hfields sid (htomb sid hsid)), made, hlog _ hmade, hid⟩

theorem tombstoned_of_note {e : Event} (h : .tombstoned sid ∈ (w.note e).log)
    (he : e ≠ .tombstoned sid) :
    .tombstoned sid ∈ w.log := by
  rcases List.mem_append.mp h with h | h
  · exact h
  · exact absurd (List.mem_singleton.mp h).symm he

theorem TombstonesFinal.create (h : TombstonesFinal w) (hfresh : FreshIds w) {p : TokenClaims}
    (hmem : .creating p rec ∈ w.tasks) :
    TombstonesFinal { w.note (.created rec) with redis := w.redis.createRecord rec } := by
  refine h.mono (fun _ he => List.mem_append_left _ he)
    (fun sid hsid => tombstoned_of_note hsid nofun) ?_
  intro sid hsid
  obtain ⟨-, made, hmade, rfl⟩ := h sid hsid
  -- the session was recorded, so its id is not the one that is recorded now
  have hne : made.sessionId ≠ rec.sessionId := by
    intro heq
    exact hfresh.fresh _ hmem made hmade (congrArg some heq.symm)
  exact .inl fun _ _ => field_createRecord_ne hne

theorem TombstonesFinal.bury (h : TombstonesFinal w) (hrec : Originates w.log rec) :
    TombstonesFinal
      { w.note (.tombstoned rec.sessionId) with redis := w.redis.tombstone rec.sessionId } := by
  intro sid hsid
  rcases List.mem_append.mp hsid with hsid | hsid
  · obtain ⟨hburied, made, hmade, hid⟩ := h sid hsid
    exact ⟨.tombstone (.inr hburied), made, List.mem_append_left _ hmade, hid⟩
  · cases List.mem_singleton.mp hsid
    obtain ⟨made, hmade, hid, -⟩ := hrec
    exact ⟨.tombstone (.inl rfl), made, List.mem_append_left _ hmade, hid⟩

theorem TombstonesFinal.move (h : TombstonesFinal w) (hfresh : FreshIds w) (hmem : t ∈ w.tasks)
    (ht : t.Filed w.log) (hm : Move d w t w₁ t') : TombstonesFinal w₁ := by
  have hlog := hm.log_subset
  cases hm with
  | create => exact h.create hfresh hmem
  | bury => exact h.bury ht
  | turn r issued hashes turns =>
    exact h.mono hlog (fun _ h => h) fun _ _ => .inl fun _ _ => field_of_hashes hashes
  | list => exact h.mono hlog (fun _ h => h) fun _ _ => .inl fun _ _ => rfl
  | deleteData keys | deleteRecord keys =>
    refine h.mono hlog (fun _ h => h) fun sid _ => ?_
    exact (field_del keys sid).imp (fun hsame f _ => hsame f) fun hnone => hnone "owner"
  | @fallBack claims id rec entry resp source =>
    refine h.mono hlog (fun sid hsid => ?_) fun _ _ => .inl fun _ _ => rfl
    have hread : .tombstoned sid ∈ (w.note (.read id (some rec))).log :=
      tombstoned_of_note hsid nofun
    exact tombstoned_of_note hread nofun
  | store | drop | find | refuse | admitted | fetch =>
    exact h.mono hlog (fun _ hsid => tombstoned_of_note hsid nofun) fun _ _ => .inl fun _ _ => rfl

theorem TombstonesFinal.change (h : TombstonesFinal w) (hw : Orderly w) (hc : Change d w w') :
    TombstonesFinal w' := by
  cases hc with
  | outside | request => exact h
  | report sid fields =>
    refine h.mono (fun _ he => he) (fun _ h => h) fun _ _ => .inl fun f hf => ?_
    exact field_putRuntime (notMem_runtimeFields hf)
  | move slot moves =>
    have hmem := List.mem_of_getElem? slot
    have hmoved := h.move hw.fresh hmem (hw.filed _ hmem) moves
    exact hmoved

/-- INTERNAL: **tombstones are final** in every run. -/
theorem tombstones_final (h : Reachable (controlPlane d) w) : TombstonesFinal w := by
  apply Reachable.invariant (P := TombstonesFinal) ?_ ?_ h
  · rintro w ⟨now, rfl⟩ sid hsid
    cases hsid
  · rintro w w' hreach hw ⟨a, ha⟩
    exact hw.change (orderly hreach) (step_change ha)

/-! ## Requests that found the session live -/

/-- A mint of a session token, or an exchange, that has found the session live; it is on its way to
its answer, or has it. -/
def Task.FoundLive (sid : String) : Task → Prop
  | .minting _ rec => rec.sessionId = sid
  | .answered (.token _ claims) => claims.sid = some sid
  | .fetching claims _ => claims.sid = some sid
  | .auditingExchange claims _ _ _ => claims.sid = some sid
  | .answered (.credential claims _ _) => claims.sid = some sid
  | _ => False

theorem Turns.foundLive (h : Turns t t') (ht' : t'.FoundLive sid) : t.FoundLive sid := by
  cases h with
  | minted hsid =>
    have hid : (some _).filter _ = some sid := hsid.symm.trans ht'
    exact Option.some.inj (Option.filter_eq_some_iff.mp hid).1
  | released => exact ht'
  | starts started => cases started <;> cases ht'
  | _ => cases ht'

theorem Move.foundLive (h : Move d w t w₁ t') (hw : Recorded w) (ht : t.Filed w.log)
    (hburied : w.redis.Buried sid) (ht' : t'.FoundLive sid) : t.FoundLive sid := by
  have hdead : ∀ {id : String} {rec : SessionRecord}, w.redis.getSession id = some rec →
      rec.tombstone = false → id ≠ sid := by
    rintro id rec hget hlive rfl
    rw [hburied.getSession hget] at hlive
    cases hlive
  cases h with
  | turn r issued hashes turns => exact turns.foundLive ht'
  | find found =>
    cases found with
    | minting isFound live =>
      have hid := (hw.getSession isFound).1.symm.trans ht'
      exact absurd hid (hdead isFound live)
    | failed | viewing | asking => cases ht'
  | admitted found owner live named =>
    have hid : some sid = some _ := ht'.symm.trans ht
    exact absurd (Option.some.inj hid).symm (hdead found live)
  | fallBack found owner live result =>
    have hid : some sid = some _ := ht'.symm.trans ht
    exact absurd (Option.some.inj hid).symm (hdead found live)
  | fetch => exact ht'
  | _ => cases ht'

theorem Change.foundLive (h : Change d w w') (hw : Orderly w) (hburied : w.redis.Buried sid)
    {i : Nat}
    (hi : w'.tasks[i]? = some t') (ht' : t'.FoundLive sid) :
    ∃ t, w.tasks[i]? = some t ∧ t.FoundLive sid := by
  cases h with
  | outside | report => exact ⟨t', hi, ht'⟩
  | request req =>
    rcases slot_of_append hi with hi | ⟨-, rfl⟩
    · exact ⟨t', hi, ht'⟩
    · cases ht'
  | move slot moves =>
    dsimp only at hi
    rw [moves.tasks_eq] at hi
    rcases slot_of_set hi with ⟨rfl, rfl⟩ | ⟨-, hi⟩
    · have hfiled := hw.filed _ (List.mem_of_getElem? slot)
      exact ⟨_, slot, moves.foundLive hw.recorded hfiled hburied ht'⟩
    · exact ⟨t', hi, ht'⟩

/-- **A tombstone is final, and no runtime report brings a session back.** A report changes what
`index.get` returns for no id. In every state after the tombstone of a session was written,
`index.get` returns nothing or a tombstoned record for it, and the mints and exchanges for the
session that go on or have succeeded are ones that had read its record before the write. -/
theorem tombstoned_session_stays_dead (h : Reachable (controlPlane d) w) :
    (∀ sid fields id, (w.redis.putRuntime sid fields).getSession id = w.redis.getSession id) ∧
      ∀ sid, .tombstoned sid ∈ w.log → ∀ w', Relation.ReflTransGen (controlPlane d).next w w' →
        (∀ rec, w'.redis.getSession sid = some rec → rec.tombstone = true) ∧
        ∀ (i : Nat) (t' : Task), w'.tasks[i]? = some t' → t'.FoundLive sid →
          ∃ t, w.tasks[i]? = some t ∧ t.FoundLive sid := by
  refine ⟨fun sid fields id => getSession_putRuntime w.redis sid id fields, ?_⟩
  intro sid hsid w' hsteps
  have hrun : .tombstoned sid ∈ w'.log ∧ ∀ (i : Nat) t', w'.tasks[i]? = some t' → t'.FoundLive sid →
      ∃ t, w.tasks[i]? = some t ∧ t.FoundLive sid := by
    induction hsteps with
    | refl => exact ⟨hsid, fun i t' hi ht' => ⟨t', hi, ht'⟩⟩
    | @tail m w' hsteps hnext ih =>
      obtain ⟨hmid, hback⟩ := ih
      have hreach := h.trans hsteps
      obtain ⟨a, ha⟩ := hnext
      have hchange := step_change ha
      refine ⟨hchange.log_subset _ hmid, fun i t' hi ht' => ?_⟩
      have hburied := (tombstones_final hreach sid hmid).1
      obtain ⟨u, hu, hlive⟩ := hchange.foundLive (orderly hreach) hburied hi ht'
      exact hback i u hu hlive
  refine ⟨fun rec hget => ?_, hrun.2⟩
  exact (tombstones_final (h.trans hsteps) sid hrun.1).1.getSession hget

/-- The session of the run above, deleted up to its tombstone, is found dead. -/
theorem tombstoned_session_stays_dead_s :
    ∃ w, Reachable (controlPlane gatewayDeps) w ∧ .tombstoned "s" ∈ w.log ∧
      ∃ rec, w.redis.getSession "s" = some rec ∧ rec.tombstone = true := by
  have hrun : (runActions (step gatewayDeps) (.start 0) (openSession ++
      [.request (.deleteSession 0 "s"), .run 2 .go, .run 2 .go, .run 2 .go, .run 2 .go])).map
        (fun w => (w.log.any fun e => e = .tombstoned "s") &&
          (w.redis.getSession "s").isSome) = some true := by
    decide +kernel
  have hinit : (World.start 0).initial := ⟨0, rfl⟩
  obtain ⟨w, hreach, hboth⟩ := exists_reachable_of_runActions hinit _ _ hrun
  obtain ⟨htomb, hsome⟩ := (Bool.and_eq_true _ _).mp hboth
  obtain ⟨e, he, heq⟩ := List.any_eq_true.mp htomb
  rw [of_decide_eq_true heq] at he
  obtain ⟨rec, hget⟩ := Option.isSome_iff_exists.mp hsome
  obtain ⟨-, hdead⟩ := tombstoned_session_stays_dead hreach
  exact ⟨w, hreach, he, rec, hget, (hdead "s" he w .refl).1 rec hget⟩

end ServerlessHarness.ControlPlane
