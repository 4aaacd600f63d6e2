import ServerlessHarness.Model.ControlPlane.Ownership

/-!
# What a command does to the record of a session

`Redis.field` is one field of the hash under the key of a session, and the record that `index.get`
returns is a function of seven of them. The key of one session's runtime hash may be the key of
another session, so what each command leaves unchanged is stated for every session: a report
touches none of the seven fields, a tombstone only two of them, and a deleted key leaves none.
-/

set_option autoImplicit false

namespace ServerlessHarness.ControlPlane

open Library

variable {r r' : Redis} {rec : SessionRecord} {sid id f key : String}
  {values : List (String × String)}

/-- One field of the hash under the key of a session. -/
def Redis.field (r : Redis) (sid f : String) : Option String := (r.hGetAll (sessionKey sid)).get f

/-- The fields that `index.get` reads. -/
def recordFields : List String :=
  ["owner", "tenant", "createdAt", "state", "poolSelector", "credentialName", "tombstone"]

theorem sessionKey_inj (h : sessionKey sid = sessionKey id) : sid = id :=
  (String.append_right_inj _).mp h

/-! ## Reads -/

theorem getSession_congr (h : ∀ f ∈ recordFields, r'.field sid f = r.field sid f) :
    r'.getSession sid = r.getSession sid := by
  have howner : r'.field sid "owner" = r.field sid "owner" := h _ (by simp [recordFields])
  have htenant : r'.field sid "tenant" = r.field sid "tenant" := h _ (by simp [recordFields])
  have hcreated : r'.field sid "createdAt" = r.field sid "createdAt" := h _ (by simp [recordFields])
  have hstate : r'.field sid "state" = r.field sid "state" := h _ (by simp [recordFields])
  have hpool : r'.field sid "poolSelector" = r.field sid "poolSelector" :=
    h _ (by simp [recordFields])
  have hname : r'.field sid "credentialName" = r.field sid "credentialName" :=
    h _ (by simp [recordFields])
  have htomb : r'.field sid "tombstone" = r.field sid "tombstone" := h _ (by simp [recordFields])
  simp only [Redis.field] at howner htenant hcreated hstate hpool hname htomb
  simp only [Redis.getSession, recordOf, howner, htenant, hcreated, hstate, hpool, hname, htomb]

/-- INTERNAL: **what `index.get` returns**, read off the fields. -/
theorem getSession_eq_some (h : r.getSession sid = some rec) :
    rec.sessionId = sid ∧ r.field sid "owner" = some rec.owner ∧
      rec.credentialName = (r.field sid "credentialName").getD "" ∧
      (rec.tombstone = true ↔ r.field sid "tombstone" = some "1") := by
  unfold Redis.getSession recordOf at h
  unfold Redis.field
  cases howner : (r.hGetAll (sessionKey sid)).get "owner" with
  | none =>
    rw [howner] at h
    cases h
  | some owner =>
    rw [howner] at h
    dsimp only at h
    split at h
    · cases h
    · cases h
      exact ⟨rfl, rfl, rfl, decide_eq_true_iff⟩

/-! ## Writes -/

theorem get_hSetFields_of_notMem {h : Hash} (hf : f ∉ values.map Prod.fst) :
    (hSetFields h values).get f = h.get f := by
  induction values generalizing h with
  | nil => rfl
  | cons e values ih =>
    rw [List.map_cons, List.mem_cons, not_or] at hf
    show (hSetFields (h.set e.1 e.2) values).get f = h.get f
    rw [ih hf.2, OrderedMap.get_set_ne hf.1]

theorem hGetAll_hSet_self : (r.hSet key values).hGetAll key =
    hSetFields (r.hGetAll key) values := by
  unfold Redis.hSet
  show ((r.hashes.set key _).get key).getD .empty = _
  rw [OrderedMap.get_set_self]
  rfl

theorem hGetAll_hSet_ne {key' : String} (h : key' ≠ key) :
    (r.hSet key values).hGetAll key' = r.hGetAll key' := by
  show ((r.hashes.set key _).get key').getD .empty = (r.hashes.get key').getD .empty
  rw [OrderedMap.get_set_ne h]

theorem field_hSet_of_notMem (hf : f ∉ values.map Prod.fst) :
    (r.hSet key values).field sid f = r.field sid f := by
  unfold Redis.field
  by_cases hkey : sessionKey sid = key
  · rw [hkey, hGetAll_hSet_self, get_hSetFields_of_notMem hf]
  · rw [hGetAll_hSet_ne hkey]

theorem field_hSet_ne (h : sid ≠ id) :
    (r.hSet (sessionKey id) values).field sid f = r.field sid f := by
  unfold Redis.field
  rw [hGetAll_hSet_ne fun hkey => h (sessionKey_inj hkey)]

/-- INTERNAL: **a deleted key leaves no field**, and the others all theirs. -/
theorem hGetAll_del (keys : List String) :
    (r.del keys).hGetAll key = if key ∈ keys then .empty else r.hGetAll key := by
  unfold Redis.del Redis.hGetAll
  dsimp only
  induction keys generalizing r with
  | nil => rfl
  | cons k keys ih =>
    rw [List.foldl_cons]
    have hrest := ih (r := { r with hashes := r.hashes.erase k })
    dsimp only at hrest
    rw [hrest]
    by_cases hk : key = k
    · subst hk
      rw [OrderedMap.get_erase_self, if_pos List.mem_cons_self]
      split <;> rfl
    · rw [OrderedMap.get_erase_ne hk]
      simp only [List.mem_cons, hk, false_or]

theorem field_del (keys : List String) (sid : String) :
    (∀ f, (r.del keys).field sid f = r.field sid f) ∨ ∀ f, (r.del keys).field sid f = none := by
  unfold Redis.field
  simp only [hGetAll_del]
  by_cases h : sessionKey sid ∈ keys
  · right
    intro f
    rw [if_pos h]
    rfl
  · left
    intro f
    rw [if_neg h]

/-! ## The commands of the index -/

theorem allowedFields_subset {fields : List (String × String)} {e : String × String}
    (h : e ∈ allowedFields fields) : e.1 ∈ runtimeFields := by
  obtain ⟨f, hf, hv⟩ := List.mem_filterMap.mp h
  obtain ⟨v, -, rfl⟩ := Option.map_eq_some_iff.mp hv
  exact hf

theorem field_putRuntime {fields : List (String × String)} (hf : f ∉ runtimeFields) :
    (r.putRuntime id fields).field sid f = r.field sid f := by
  unfold Redis.putRuntime
  split
  · rfl
  · apply field_hSet_of_notMem
    intro hmem
    obtain ⟨e, he, rfl⟩ := List.mem_map.mp hmem
    exact hf (allowedFields_subset he)

theorem notMem_runtimeFields (hf : f ∈ recordFields) : f ∉ runtimeFields := by
  have hall : ∀ f ∈ recordFields, f ∉ runtimeFields := by decide
  exact hall f hf

/-- INTERNAL: **a runtime report never changes what `index.get` returns**, for any session. -/
theorem getSession_putRuntime (r : Redis) (sid id : String) (fields : List (String × String)) :
    (r.putRuntime sid fields).getSession id = r.getSession id :=
  getSession_congr fun _ hf => field_putRuntime (notMem_runtimeFields hf)

theorem field_tombstone_ne (h : sid ≠ id) : (r.tombstone id).field sid f = r.field sid f :=
  field_hSet_ne h

theorem field_tombstone_of_ne (htomb : f ≠ "tombstone") (hstate : f ≠ "state") :
    (r.tombstone id).field sid f = r.field sid f := by
  apply field_hSet_of_notMem
  intro hmem
  rcases List.mem_cons.mp hmem with h | h
  · exact htomb h
  · exact hstate (List.mem_singleton.mp h)

theorem field_tombstone_self : (r.tombstone id).field id "tombstone" = some "1" := by
  unfold Redis.field Redis.tombstone
  rw [hGetAll_hSet_self]
  show (((r.hGetAll (sessionKey id)).set "tombstone" "1").set "state" "deleting").get "tombstone" =
    _
  rw [OrderedMap.get_set_ne (by decide), OrderedMap.get_set_self]

theorem field_createRecord_ne (h : sid ≠ rec.sessionId) :
    (r.createRecord rec).field sid f = r.field sid f :=
  field_hSet_ne h

theorem field_createRecord_self :
    (r.createRecord rec).field rec.sessionId "owner" = some rec.owner ∧
      (r.createRecord rec).field rec.sessionId "credentialName" = some rec.credentialName := by
  unfold Redis.field Redis.createRecord
  rw [hGetAll_hSet_self]
  unfold SessionRecord.fields hSetFields
  simp only [List.foldl_cons, List.foldl_nil]
  constructor
  · iterate 6 rw [OrderedMap.get_set_ne (by decide)]
    rw [OrderedMap.get_set_self]
  · rw [OrderedMap.get_set_ne (by decide), OrderedMap.get_set_self]

theorem field_of_hashes (h : r'.hashes = r.hashes) : r'.field sid f = r.field sid f := by
  unfold Redis.field Redis.hGetAll
  rw [h]

end ServerlessHarness.ControlPlane
