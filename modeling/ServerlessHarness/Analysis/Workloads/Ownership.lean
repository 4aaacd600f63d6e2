import ServerlessHarness.Library.Crew
import ServerlessHarness.Model.Workloads.Requests

/-!
# Who owns a workload

A reading and a deletion write back the whole record some time after they read it, and check
nothing when they write. A reading that is under way while its owner deletes the workload and
somebody else creates it again writes the old owner over the new one, and the old owner's next run
is given the new pool (`stale_get_takes_workload`). The owner, and whether the workload is live,
change only as they should in the runs in which such a write finds the record as it was read
(`ownership_kept`).
-/

set_option autoImplicit false

namespace ServerlessHarness.Workloads

open Library

variable {cfg : Config} {w w' : World} {a : Action}

/-! ## What ownership means -/

def World.owner (w : World) (id : String) : Option (Option String) :=
  (w.store.get id).map WorkloadRecord.owner

def World.live (w : World) (id : String) : Bool :=
  (w.store.get id).any fun record => !record.deleted

def World.gone (w : World) (id : String) : Bool := (w.store.get id).any WorkloadRecord.deleted

/-- The step writes the record of a request. -/
def Saves (w : World) (a : Action) (op : Op) (subject : Option String) (id : String) : Prop :=
  ∃ i read record, a = .save i true ∧ w.tasks[i]? = some (.saving op subject read record) ∧
    record.workloadId = id

def Event.creator (id : String) : Event → Option (Option String)
  | .saved .create subject id' => if id' = id then some subject else none
  | _ => none

/-- The subject whose creation of `id` was saved last. -/
def World.lastCreator (w : World) (id : String) : Option (Option String) :=
  (w.log.filterMap (Event.creator id)).getLast?

/-- What a step may do to the ownership of `id`. -/
structure KeepsOwnership (w : World) (a : Action) (w' : World) (id : String) : Prop where
  owner_by_create : w'.owner id ≠ w.owner id →
    ∃ subject, Saves w a .create subject id ∧ w'.owner id = some subject
  deleted_by_owner : w.live id = true → w'.gone id = true →
    ∃ subject record, Saves w a .delete subject id ∧ w.store.get id = some record ∧
      mayDelete record subject = true
  live_by_create : w.gone id = true → w'.live id = true → ∃ subject, Saves w a .create subject id
  run_of_creator : ∀ subject selector creator, a = .run subject id →
    resolveRunWorkload w subject id = some selector → w.lastCreator id = some creator →
      creator = subject

/-! ## What a step can do -/

inductive Move (cfg : Config) (w : World) : Action → World → Prop where
  | requests (r : Request) : Move cfg w (.request r) { w with tasks := w.tasks ++ [begin cfg r] }
  | finds (i : ℕ) (t t' : Task) (found : w.tasks[i]? = some t) (next : findTask w t = some t') :
      Move cfg w (.find i) (w.setTask i t')
  | answers (i : ℕ) (pool : Option ContextPool) (t t' : Task) (found : w.tasks[i]? = some t)
      (next : answerTask pool t = some t') : Move cfg w (.answer i pool) (w.setTask i t')
  | saves (i : ℕ) (op : Op) (subject : Option String) (read : Option WorkloadRecord)
      (record : WorkloadRecord) (found : w.tasks[i]? = some (.saving op subject read record)) :
      Move cfg w (.save i true) { w.setTask i (.done (replyTo op record)) with
        store := w.store.set record.workloadId record
        log := w.log ++ [.saved op subject record.workloadId] }
  | loses (i : ℕ) : Move cfg w (.save i false) (w.setTask i (.done .contextServiceError))
  | runs (subject : Option String) (id selector : String)
      (given : resolveRunWorkload w subject id = some selector) :
      Move cfg w (.run subject id) { w with log := w.log ++ [.ran subject id selector] }
  | refuses (subject : Option String) (id : String)
      (refused : resolveRunWorkload w subject id = none) : Move cfg w (.run subject id) w

variable {subject : Option String} {id : String} {read : Option WorkloadRecord} {op : Op}
  {record : WorkloadRecord} {t : Task}

theorem saveWorkload_moves {i : ℕ} {ok : Bool} (found : w.tasks[i]? = some t)
    (h : w.saveWorkload i ok t = some w') : Move cfg w (.save i ok) w' := by
  cases t with
  | saving op subject read record =>
    cases ok with
    | true =>
      cases h
      exact .saves i op subject read record found
    | false =>
      cases h
      exact .loses i
  | looking | calling | done => cases h

/-- Every step is a move. -/
theorem step_moves (h : step cfg w a = some w') : Move cfg w a w' := by
  cases a with
  | request r =>
    cases h
    exact .requests r
  | find i =>
    obtain ⟨t, found, h⟩ := Option.bind_eq_some_iff.mp h
    obtain ⟨t', next, rfl⟩ := Option.map_eq_some_iff.mp h
    exact .finds i t t' found next
  | answer i pool =>
    obtain ⟨t, found, h⟩ := Option.bind_eq_some_iff.mp h
    obtain ⟨t', next, rfl⟩ := Option.map_eq_some_iff.mp h
    exact .answers i pool t t' found next
  | save i ok =>
    obtain ⟨t, found, h⟩ := Option.bind_eq_some_iff.mp h
    exact saveWorkload_moves found h
  | run subject id =>
    simp only [step] at h
    cases hrun : resolveRunWorkload w subject id with
    | some selector =>
      rw [hrun] at h
      cases h
      exact .runs subject id selector hrun
    | none =>
      rw [hrun] at h
      cases h
      exact .refuses subject id hrun

/-! ## Requests that write what they read -/

/-- The Context Service creates a live pool, and reads as deleted exactly the pools whose deletion
was recorded when the request looked. -/
def answersAsRead (pool : ContextPool) : Task → Bool
  | .calling .create _ _ _ => pool.status ≠ "deleted"
  | .calling .get _ _ read => read.all fun record => (workload pool).deleted = record.deleted
  | _ => true

/-- A reading writes while the stored record has the owner it read and is as live as it was, a
deletion while the stored record has the owner it read. -/
def savesAsRead (w : World) : Task → Bool
  | .saving .get _ read record =>
    (w.store.get record.workloadId).map (fun r => (r.owner, r.deleted)) =
      read.map fun r => (r.owner, r.deleted)
  | .saving .delete _ read record =>
    w.owner record.workloadId = read.map WorkloadRecord.owner
  | _ => true

def asRead (w : World) : Action → Bool
  | .answer i pool => pool.all fun pool => (w.tasks[i]?).all (answersAsRead pool)
  | .save i ok => !ok || (w.tasks[i]?).all (savesAsRead w)
  | _ => true

/-- The runs in which every request answers to the record it read. -/
def settledWorkloads (cfg : Config) : TransitionSystem World :=
  .ofStep World.initial (guarded asRead (step cfg))

/-- What a request has checked by the time it calls the Context Service and by the time it
writes. -/
def Task.Sound : Task → Prop
  | .calling op subject _ read => refusedFor op subject read = none
  | .saving .create subject _ record => record.owner = subject ∧ record.deleted = false
  | .saving .get subject read record =>
    ∃ r, read = some r ∧ r.owner = record.owner ∧ record.deleted = r.deleted ∧
      record.owner = subject
  | .saving .delete subject read record =>
    ∃ r, read = some r ∧ mayDelete r subject = true ∧ record.owner = r.owner ∧
      record.deleted = true
  | _ => True

theorem begin_sound (cfg : Config) (r : Request) : (begin cfg r).Sound := by
  unfold begin
  split <;> trivial

theorem findTask_sound {t' : Task} (h : findTask w t = some t') : t'.Sound := by
  cases t with
  | looking op subject id =>
    simp only [findTask] at h
    cases hrefused : refusedFor op subject (w.store.get id) with
    | some reply =>
      rw [hrefused] at h
      cases h
      trivial
    | none =>
      rw [hrefused] at h
      cases h
      exact hrefused
  | calling | saving | done => cases h

theorem refusedFor_get (h : refusedFor .get subject read = none) :
    ∃ r, read = some r ∧ r.owner = subject := by
  cases read with
  | none => cases h
  | some r =>
    refine ⟨r, rfl, ?_⟩
    simpa [refusedFor, ownedBy] using h

theorem refusedFor_delete (h : refusedFor .delete subject read = none) :
    ∃ r, read = some r ∧ mayDelete r subject = true := by
  cases read with
  | none => cases h
  | some r =>
    refine ⟨r, rfl, ?_⟩
    simp only [refusedFor, ite_eq_right_iff, reduceCtorEq, imp_false, Bool.or_eq_true,
      Bool.not_eq_true', not_or, Bool.not_eq_false] at h
    exact h.2

/-- The record of a pool belongs to the subject it is written for. -/
theorem toSave_pool {pool : ContextPool}
    (h : (sameWorkload (workload pool) id).map (fun r => withOwner r subject) = some record) :
    record.owner = subject ∧ record.deleted = (workload pool).deleted := by
  obtain ⟨r, hr, rfl⟩ := Option.map_eq_some_iff.mp h
  unfold sameWorkload at hr
  split at hr
  · cases hr
  · cases hr
    exact ⟨rfl, rfl⟩

theorem toSave_sound {pool : ContextPool} (hcalling : refusedFor op subject read = none)
    (hanswer : answersAsRead pool (.calling op subject id read) = true)
    (h : toSave op subject id read pool = some record) :
    (Task.saving op subject read record).Sound := by
  cases op with
  | create =>
    obtain ⟨howner, hdeleted⟩ := toSave_pool h
    refine ⟨howner, ?_⟩
    rw [hdeleted]
    exact decide_eq_false (of_decide_eq_true hanswer)
  | get =>
    obtain ⟨howner, hdeleted⟩ := toSave_pool h
    obtain ⟨r, rfl, hr⟩ := refusedFor_get hcalling
    refine ⟨r, rfl, hr.trans howner.symm, ?_, howner⟩
    rw [hdeleted]
    simpa [answersAsRead] using hanswer
  | delete =>
    obtain ⟨r, rfl, hr⟩ := refusedFor_delete hcalling
    cases h
    exact ⟨r, rfl, hr, rfl, rfl⟩

theorem answerTask_sound {pool : Option ContextPool} {t' : Task} (ht : t.Sound)
    (hanswer : (pool.all fun pool => answersAsRead pool t) = true)
    (h : answerTask pool t = some t') : t'.Sound := by
  cases t with
  | calling op subject id read =>
    simp only [answerTask] at h
    cases hrecord : pool.bind (toSave op subject id read) with
    | none =>
      rw [hrecord] at h
      cases h
      trivial
    | some record =>
      rw [hrecord] at h
      cases h
      obtain ⟨p, rfl, hp⟩ := Option.bind_eq_some_iff.mp hrecord
      exact toSave_sound ht hanswer hp
  | looking | saving | done => cases h

theorem sound_setTask (hw : ∀ t ∈ w.tasks, t.Sound) (i : ℕ) (new : Task) (hnew : new.Sound) :
    ∀ t ∈ (w.setTask i new).tasks, t.Sound :=
  forall_mem_set hw hnew

theorem sound_step (h : step cfg w a = some w') (hread : asRead w a = true)
    (hw : ∀ t ∈ w.tasks, t.Sound) : ∀ t ∈ w'.tasks, t.Sound := by
  cases step_moves h with
  | requests r => exact forall_mem_concat hw (begin_sound cfg r)
  | finds i t t' found next => exact sound_setTask hw i t' (findTask_sound next)
  | answers i pool t t' found next =>
    have hanswer : (pool.all fun pool => answersAsRead pool t) = true := by
      simpa [asRead, found] using hread
    exact sound_setTask hw i t' (answerTask_sound (hw t (List.mem_of_getElem? found)) hanswer next)
  | saves i op subject read record found =>
    exact sound_setTask (w := w) hw i (.done (replyTo op record)) trivial
  | loses i => exact sound_setTask hw i (.done .contextServiceError) trivial
  | runs | refuses => exact hw

/-! ## Writes -/

/-- A step that leaves the record of `id` alone keeps its ownership. -/
theorem keepsOwnership_of_store_eq (hstore : w'.store.get id = w.store.get id)
    (hrun : ∀ subject selector creator, a = .run subject id →
      resolveRunWorkload w subject id = some selector → w.lastCreator id = some creator →
        creator = subject) : KeepsOwnership w a w' id where
  owner_by_create hne := by
    refine absurd ?_ hne
    rw [World.owner, World.owner, hstore]
  deleted_by_owner hlive hgone := by
    unfold World.live at hlive
    rw [World.gone, hstore] at hgone
    cases hrecord : w.store.get id <;> simp_all
  live_by_create hgone hlive := by
    unfold World.gone at hgone
    rw [World.live, hstore] at hlive
    cases hrecord : w.store.get id <;> simp_all
  run_of_creator := hrun

/-- What the write of a record that a request of `op` prepared does to the ownership of its name. -/
theorem keepsOwnership_of_save {i : ℕ}
    (found : w.tasks[i]? = some (.saving op subject read record))
    (hsound : (Task.saving op subject read record).Sound)
    (hread : savesAsRead w (.saving op subject read record) = true)
    (hstore : w'.store.get record.workloadId = some record) :
    KeepsOwnership w (.save i true) w' record.workloadId := by
  have hsaves : Saves w (.save i true) op subject record.workloadId :=
    ⟨i, read, record, rfl, found, rfl⟩
  have howner : w'.owner record.workloadId = some record.owner := by
    rw [World.owner, hstore, Option.map_some]
  have hgone : w'.gone record.workloadId = record.deleted := by
    rw [World.gone, hstore, Option.any_some]
  have hlive : w'.live record.workloadId = !record.deleted := by
    rw [World.live, hstore, Option.any_some]
  cases op with
  | create =>
    obtain ⟨rfl, hdeleted⟩ := hsound
    refine ⟨fun _ => ⟨record.owner, hsaves, howner⟩, ?_, fun _ _ => ⟨record.owner, hsaves⟩, ?_⟩
    · intro _ h
      rw [hgone, hdeleted] at h
      cases h
    · intro _ _ _ h
      cases h
  | get =>
    obtain ⟨r, rfl, hr, hdeleted, -⟩ := hsound
    obtain ⟨old, hold, hsame⟩ := Option.map_eq_some_iff.mp (of_decide_eq_true hread)
    obtain ⟨hsameOwner, hsameDeleted⟩ := Prod.mk.inj hsame
    refine ⟨?_, ?_, ?_, ?_⟩
    · intro hne
      refine absurd ?_ hne
      rw [howner, World.owner, hold, Option.map_some, hsameOwner, hr]
    · intro hlive h
      rw [World.live, hold, Option.any_some, hsameDeleted, ← hdeleted] at hlive
      rw [hgone] at h
      rw [h] at hlive
      cases hlive
    · intro hgone h
      rw [World.gone, hold, Option.any_some, hsameDeleted, ← hdeleted] at hgone
      rw [hlive, hgone] at h
      cases h
    · intro _ _ _ h
      cases h
  | delete =>
    obtain ⟨r, rfl, hmay, hr, hdeleted⟩ := hsound
    have hsame : w.owner record.workloadId = some r.owner := of_decide_eq_true hread
    refine ⟨?_, ?_, ?_, ?_⟩
    · intro hne
      refine absurd ?_ hne
      rw [howner, hsame, hr]
    · intro _ _
      obtain ⟨old, hold, hsameOwner⟩ := Option.map_eq_some_iff.mp hsame
      refine ⟨subject, old, hsaves, hold, ?_⟩
      rw [mayDelete, ownedBy, hsameOwner]
      exact hmay
    · intro _ h
      rw [hlive, hdeleted] at h
      cases h
    · intro _ _ _ h
      cases h

/-! ## The subject that created a workload last -/

theorem lastCreator_concat (log : List Event) (e : Event) (id : String) :
    ((log ++ [e]).filterMap (Event.creator id)).getLast? =
      (e.creator id).or (log.filterMap (Event.creator id)).getLast? := by
  rw [List.filterMap_append, List.getLast?_append]
  cases h : e.creator id <;> simp [h]

/-- The owner of a record is the subject whose creation was saved last. -/
def OwnedByCreator (w : World) : Prop :=
  ∀ id creator, w.lastCreator id = some creator → w.owner id = some creator

/-- A write other than a creation's leaves the owner as it was. -/
theorem owner_of_keeps (h : KeepsOwnership w a w' id)
    (hno : ∀ subject, ¬ Saves w a .create subject id) : w'.owner id = w.owner id := by
  by_contra hne
  obtain ⟨subject, hsaves, _⟩ := h.owner_by_create hne
  exact hno subject hsaves

theorem owner_of_resolveRunWorkload {selector : String}
    (h : resolveRunWorkload w subject id = some selector) : w.owner id = some subject := by
  unfold resolveRunWorkload at h
  cases hrecord : w.store.get id with
  | none =>
    rw [hrecord] at h
    cases h
  | some record =>
    rw [hrecord] at h
    have howned : record.owner = subject := by
      by_contra hne
      simp [ownedBy, hne] at h
    rw [World.owner, hrecord, Option.map_some, howned]

/-- The owner a run's check compares its subject with is the subject that created the workload. -/
theorem creator_of_resolveRunWorkload {creator : Option String} {selector : String}
    (hcreator : OwnedByCreator w) (hgiven : resolveRunWorkload w subject id = some selector)
    (hlast : w.lastCreator id = some creator) : creator = subject := by
  have howner := hcreator id creator hlast
  rw [owner_of_resolveRunWorkload hgiven] at howner
  exact (Option.some.inj howner).symm

/-- A step keeps every id with its owner. -/
theorem keepsOwnership_step (h : step cfg w a = some w') (hread : asRead w a = true)
    (hsound : ∀ t ∈ w.tasks, t.Sound) (hcreator : OwnedByCreator w) (id : String) :
    KeepsOwnership w a w' id := by
  have hrun : ∀ subject selector creator, a = .run subject id →
      resolveRunWorkload w subject id = some selector → w.lastCreator id = some creator →
        creator = subject :=
    fun _ _ _ _ hgiven hlast => creator_of_resolveRunWorkload hcreator hgiven hlast
  cases step_moves h with
  | requests | finds | answers | loses | runs | refuses => exact keepsOwnership_of_store_eq rfl hrun
  | saves i op subject read record found =>
    by_cases hid : record.workloadId = id
    · subst hid
      refine keepsOwnership_of_save found ?_ ?_ ?_
      · exact hsound _ (List.mem_of_getElem? found)
      · simpa [asRead, found] using hread
      · exact OrderedMap.get_set_self
    · exact keepsOwnership_of_store_eq (OrderedMap.get_set_ne (Ne.symm hid)) hrun

theorem creator_saved_eq_some {creator : Option String} {name : String}
    (h : (Event.saved op subject name).creator id = some creator) :
    op = .create ∧ name = id ∧ subject = creator := by
  cases op with
  | create =>
    simp only [Event.creator, Option.ite_none_right_eq_some, Option.some.injEq] at h
    exact ⟨rfl, h⟩
  | get | delete => cases h

theorem ownedByCreator_step (h : step cfg w a = some w') (hread : asRead w a = true)
    (hsound : ∀ t ∈ w.tasks, t.Sound) (hcreator : OwnedByCreator w) : OwnedByCreator w' := by
  intro id creator hlast
  have hkeeps := keepsOwnership_step h hread hsound hcreator id
  cases step_moves h with
  | requests | finds | answers | loses | refuses => exact hcreator id creator hlast
  | runs subject name selector given =>
    rw [World.lastCreator, lastCreator_concat] at hlast
    exact hcreator id creator hlast
  | saves i op subject read record found =>
    rw [World.lastCreator, lastCreator_concat] at hlast
    cases hnew : (Event.saved op subject record.workloadId).creator id with
    | some s =>
      rw [hnew, Option.some_or] at hlast
      obtain ⟨rfl, rfl, rfl⟩ := creator_saved_eq_some hnew
      obtain ⟨howner, _⟩ : record.owner = subject ∧ record.deleted = false :=
        hsound _ (List.mem_of_getElem? found)
      rw [World.owner, OrderedMap.get_set_self, Option.map_some, howner]
      exact hlast
    | none =>
      rw [hnew, Option.none_or] at hlast
      rw [owner_of_keeps hkeeps]
      · exact hcreator id creator hlast
      · rintro s ⟨j, read', record', haction, found', rfl⟩
        cases haction
        cases found.symm.trans found'
        simp [Event.creator] at hnew

theorem sound_and_owned (h : Reachable (settledWorkloads cfg) w) :
    (∀ t ∈ w.tasks, t.Sound) ∧ OwnedByCreator w := by
  refine Reachable.invariant (P := fun w => (∀ t ∈ w.tasks, t.Sound) ∧ OwnedByCreator w) ?_ ?_ h
  · rintro s ⟨htasks, hlog⟩
    constructor
    · intro t ht
      rw [htasks] at ht
      cases ht
    · intro id creator hlast
      rw [World.lastCreator, hlog] at hlast
      cases hlast
  · rintro s t _ ⟨hsound, hcreator⟩ ⟨a, ha⟩
    obtain ⟨hread, hstep⟩ := guarded_eq_some.mp ha
    exact ⟨sound_step hstep hread hsound, ownedByCreator_step hstep hread hsound hcreator⟩

/-- In every run in which a reading or a deletion writes only while the stored record is as it read
it, and the Context Service's answers agree with what is recorded about deletions, every step keeps
the ownership of every workload. -/
theorem ownership_kept (h : Reachable (settledWorkloads cfg) w)
    (hstep : guarded asRead (step cfg) w a = some w') (id : String) : KeepsOwnership w a w' id := by
  obtain ⟨hsound, hcreator⟩ := sound_and_owned h
  obtain ⟨hread, hnext⟩ := guarded_eq_some.mp hstep
  exact keepsOwnership_step hnext hread hsound hcreator id

/-! ## Two subjects and one name -/

def poolOf (name selector : String) : ContextPool :=
  ⟨name, "ready", 1, 1, selector, ⟨some "1Gi", some "ReadWriteOnce", none, none, none⟩⟩

/-- A request of `subject` about the workload `ci`, up to its write, as task `i`. -/
def upToSave (op : Op) (subject selector : String) (i : ℕ) : List Action :=
  [.request ⟨op, some subject, "ci", none⟩, .find i, .answer i (some (poolOf "ci" selector))]

def wholeRequest (op : Op) (subject selector : String) (i : ℕ) : List Action :=
  upToSave op subject selector i ++ [.save i true]

/-- The workload of one subject is deleted and created again by another. -/
theorem ownership_kept_handover :
    ∃ w w', Reachable (settledWorkloads ⟨true, true⟩) w ∧
      guarded asRead (step ⟨true, true⟩) w (.save 2 true) = some w' ∧
      w.owner "ci" = some (some "alice") ∧ w'.owner "ci" = some (some "bob") ∧
      KeepsOwnership w (.save 2 true) w' "ci" := by
  have hinit : World.initial ⟨.empty, [], []⟩ := ⟨rfl, rfl⟩
  obtain ⟨w, w', hw, hstep, hP⟩ : ∃ w w', Reachable (settledWorkloads ⟨true, true⟩) w ∧
      guarded asRead (step ⟨true, true⟩) w (.save 2 true) = some w' ∧
      decide (w.owner "ci" = some (some "alice") ∧ w'.owner "ci" = some (some "bob")) = true :=
    exists_step_of_runActions hinit
      (wholeRequest .create "alice" "pool-a" 0 ++ wholeRequest .delete "alice" "pool-a" 1 ++
        upToSave .create "bob" "pool-b" 2) _ _ (by decide +kernel)
  obtain ⟨hbefore, hafter⟩ := of_decide_eq_true hP
  exact ⟨w, w', hw, hstep, hbefore, hafter, ownership_kept hw hstep "ci"⟩

/-- A reading of `alice`'s is under way while they delete the workload and `bob` creates it again.
Its write makes `alice` the owner of `bob`'s workload, without a creation; the run `alice` then
makes is given the pool that the reading was answered with. No two creations overlap. -/
theorem stale_get_takes_workload :
    ∃ w w', Reachable (workloads ⟨true, true⟩) w ∧
      guarded createsApart (step ⟨true, true⟩) w (.save 1 true) = some w' ∧
      w.lastCreator "ci" = some (some "bob") ∧ w.owner "ci" = some (some "bob") ∧
      w'.owner "ci" = some (some "alice") ∧
      resolveRunWorkload w' (some "alice") "ci" = some "pool-b" ∧
      w'.lastCreator "ci" = some (some "bob") ∧
      ¬ KeepsOwnership w (.save 1 true) w' "ci" := by
  have hinit : World.initial ⟨.empty, [], []⟩ := ⟨rfl, rfl⟩
  obtain ⟨w, w', hw, hstep, hP⟩ : ∃ w w', Reachable (workloads ⟨true, true⟩) w ∧
      guarded createsApart (step ⟨true, true⟩) w (.save 1 true) = some w' ∧
      decide (w.lastCreator "ci" = some (some "bob") ∧ w.owner "ci" = some (some "bob") ∧
        w'.owner "ci" = some (some "alice") ∧
        resolveRunWorkload w' (some "alice") "ci" = some "pool-b" ∧
        w'.lastCreator "ci" = some (some "bob") ∧
        (w.tasks[1]?).map Task.creates = some none) = true :=
    exists_step_of_runActions hinit
      (wholeRequest .create "alice" "pool-a" 0 ++
        [.request ⟨.get, some "alice", "ci", none⟩, .find 1] ++
        wholeRequest .delete "alice" "pool-a" 2 ++ wholeRequest .create "bob" "pool-b" 3 ++
        [.answer 1 (some (poolOf "ci" "pool-b"))]) _ _ (by decide +kernel)
  obtain ⟨hlast, hbefore, hafter, hrun, hlast', hcreates⟩ := of_decide_eq_true hP
  refine ⟨w, w', hw, hstep, hlast, hbefore, hafter, hrun, hlast', ?_⟩
  intro hkeeps
  obtain ⟨subject, ⟨i, read, record, haction, found, _⟩, _⟩ :=
    hkeeps.owner_by_create (by rw [hbefore, hafter]; decide)
  cases haction
  rw [found] at hcreates
  cases hcreates

end ServerlessHarness.Workloads
