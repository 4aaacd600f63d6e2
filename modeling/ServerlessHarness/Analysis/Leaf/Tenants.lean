import ServerlessHarness.Interface.Leaf.SessionIds

/-!
# Tenants and the names of their state

A tenant is put before the session id, and the whole is sanitized. Every id of a tenant starts with
its sanitized name and a `-` (`tenantHead`), unless the session id adds nothing, when it is that
name alone (`tenantCore`). So two tenants can share an id exactly when one head starts the other or
both cores are the same (`tenants_share_id_iff`), whatever the names; without a tenant the head is
empty. The names under which a run keeps its state are those of its id, save the log of a prompt
leaf, which is that of the session id in the envelope.
-/

set_option autoImplicit false

namespace ServerlessHarness.Leaf

open Library LeafJob

/-! ## What a tenant puts before an id -/

def tenantPrefix : Option String → String
  | some t => if t = "" then "" else t ++ "/"
  | none => ""

theorem leafSessionIdOf_eq (tenant : Option String) (s : String) :
    leafSessionIdOf tenant s = toSessionId (tenantPrefix tenant ++ s) := by
  cases tenant with
  | none => simp [leafSessionIdOf, tenantPrefix]
  | some t =>
    by_cases ht : t = ""
    · simp [leafSessionIdOf, tenantPrefix, ht]
    · simp [leafSessionIdOf, tenantPrefix, ht]

/-- The sanitized tenant with its separator. -/
def tenantHead (tenant : Option String) : List Char :=
  (clean (tenantPrefix tenant).toList).dropWhile punctuation

/-- The sanitized tenant alone. -/
def tenantCore (tenant : Option String) : List Char :=
  (tenantHead tenant).rdropWhile punctuation

/-- Neither tenant can be mistaken for the beginning of the other. -/
def Apart (tenant other : Option String) : Prop :=
  tenantCore tenant ≠ tenantCore other ∧ ¬tenantHead tenant <+: tenantHead other ∧
    ¬tenantHead other <+: tenantHead tenant

instance (tenant other : Option String) : Decidable (Apart tenant other) :=
  inferInstanceAs (Decidable (_ ∧ _ ∧ _))

theorem dropWhile_dropWhile_append {α : Type*} {p : α → Bool} (a b : List α) :
    (a.dropWhile p ++ b).dropWhile p = (a ++ b).dropWhile p := by
  rw [List.dropWhile_append, List.dropWhile_append, List.dropWhile_idempotent]

/-- The id of an envelope, in terms of the tenant's head. -/
theorem leafSessionIdOf_head (tenant : Option String) (s : String) :
    leafSessionIdOf tenant s =
      idText (trimEnds punctuation (tenantHead tenant ++ clean s.toList)) := by
  rw [leafSessionIdOf_eq, toSessionId_eq, String.toList_append, clean_append, trimEnds, trimEnds,
    tenantHead, dropWhile_dropWhile_append]

theorem tenantHead_dropWhile (tenant : Option String) :
    (tenantHead tenant).dropWhile punctuation = tenantHead tenant :=
  List.dropWhile_idempotent punctuation _

theorem idChar_of_mem_tenantHead {tenant : Option String} {c : Char} (h : c ∈ tenantHead tenant) :
    idChar c = true :=
  idChar_of_mem_clean ((List.dropWhile_suffix punctuation).subset h)

/-- A session id that adds nothing leaves the tenant alone. -/
theorem leafSessionIdOf_empty (tenant : Option String) :
    leafSessionIdOf tenant "" = idText (tenantCore tenant) := by
  rw [leafSessionIdOf_head]
  show idText (trimEnds punctuation (tenantHead tenant ++ [])) = _
  rw [List.append_nil, trimEnds, tenantHead_dropWhile, tenantCore]

/-- Below a head that is not empty an id starts with the head, or is the core. -/
theorem trimEnds_head {h c : List Char} (hh : h.dropWhile punctuation = h) (hne : h ≠ []) :
    trimEnds punctuation (h ++ c) = h.rdropWhile punctuation ∨
      h <+: trimEnds punctuation (h ++ c) := by
  have hdrop : (h ++ c).dropWhile punctuation = h ++ c := by
    rw [List.dropWhile_append, hh]
    simp [hne]
  simp only [trimEnds, hdrop, List.rdropWhile, List.reverse_append, List.dropWhile_append]
  split
  · exact .inl rfl
  · right
    rw [List.reverse_append, List.reverse_reverse]
    exact List.prefix_append h _

theorem trimEnds_head_ne_nil {h c : List Char} (hh : h.dropWhile punctuation = h) (hne : h ≠ []) :
    trimEnds punctuation (h ++ c) ≠ [] := by
  have hdrop : (h ++ c).dropWhile punctuation = h ++ c := by
    rw [List.dropWhile_append, hh]
    simp [hne]
  intro hnil
  rw [trimEnds, hdrop, List.rdropWhile_eq_nil_iff] at hnil
  have hall : h.dropWhile punctuation = [] :=
    List.dropWhile_eq_nil_iff.mpr fun x hx => hnil x (List.mem_append_left c hx)
  exact hne (hh ▸ hall)

/-- Two tenants share an id, for some session ids, exactly when they are not apart. -/
theorem tenants_share_id_iff (tenant other : Option String) :
    (∃ s s', leafSessionIdOf tenant s = leafSessionIdOf other s') ↔ ¬Apart tenant other := by
  constructor
  · rintro ⟨s, s', heq⟩ ⟨hcore, hhead, hhead'⟩
    have hne : tenantHead tenant ≠ [] := by
      intro hnil
      exact hhead (hnil ▸ List.nil_prefix)
    have hne' : tenantHead other ≠ [] := by
      intro hnil
      exact hhead' (hnil ▸ List.nil_prefix)
    have hd := tenantHead_dropWhile tenant
    have hd' := tenantHead_dropWhile other
    rw [leafSessionIdOf_head, leafSessionIdOf_head] at heq
    have hid := idText_injective (trimEnds_head_ne_nil hd hne) (trimEnds_head_ne_nil hd' hne') heq
    have hcoreHead : tenantCore tenant <+: tenantHead tenant := List.rdropWhile_prefix punctuation _
    have hcoreHead' : tenantCore other <+: tenantHead other := List.rdropWhile_prefix punctuation _
    -- Each id is the core or starts with the head; the four cases are ruled out in turn.
    rcases trimEnds_head (c := clean s.toList) hd hne with hi | hi <;>
      rcases trimEnds_head (c := clean s'.toList) hd' hne' with hi' | hi'
    · exact hcore (hi.symm.trans (hid.trans hi'))
    · rw [← hid, hi] at hi'
      exact hhead' (hi'.trans hcoreHead)
    · rw [hid, hi'] at hi
      exact hhead (hi.trans hcoreHead')
    · rw [hid] at hi
      rcases List.prefix_or_prefix_of_prefix hi hi' with hp | hp
      · exact hhead hp
      · exact hhead' hp
  · intro hapart
    by_cases hcore : tenantCore tenant = tenantCore other
    · refine ⟨"", "", ?_⟩
      rw [leafSessionIdOf_empty, leafSessionIdOf_empty, hcore]
    · by_cases hhead : tenantHead tenant <+: tenantHead other
      · obtain ⟨r, hr⟩ := hhead
        exact ⟨String.ofList r, "", share_of_head hr⟩
      · have hhead' : tenantHead other <+: tenantHead tenant := by
          by_contra hno
          exact hapart ⟨hcore, hhead, hno⟩
        obtain ⟨r, hr⟩ := hhead'
        exact ⟨"", String.ofList r, (share_of_head hr).symm⟩
where
  /-- The session id supplies what the shorter head lacks. -/
  share_of_head {tenant other : Option String} {r : List Char}
      (hr : tenantHead tenant ++ r = tenantHead other) :
      leafSessionIdOf tenant (String.ofList r) = leafSessionIdOf other "" := by
    have hclean : clean r = r := clean_eq_self fun c hc =>
      idChar_of_mem_tenantHead (hr ▸ List.mem_append_right _ hc)
    rw [leafSessionIdOf_head, leafSessionIdOf_empty, String.toList_ofList, hclean, hr, trimEnds,
      tenantHead_dropWhile, tenantCore]

/-! ## Names of an id -/

variable {a b : String}

theorem streamKey_injective (h : streamKey a = streamKey b) : a = b :=
  (String.append_right_inj "session:").mp h

theorem resultKey_injective (h : resultKey a = resultKey b) : a = b :=
  (String.append_right_inj "leaf:result:").mp h

theorem leafWorkspaceRef_injective (h : leafWorkspaceRef a = leafWorkspaceRef b) :
    a = b :=
  (String.append_right_inj "/workspace/leaves/").mp h

theorem swebenchCheckoutDir_injective (h : swebenchCheckoutDir a = swebenchCheckoutDir b) : a = b :=
  (String.append_right_inj "/workspace/co-").mp h

theorem swebenchVenvDir_injective (h : swebenchVenvDir a = swebenchVenvDir b) :
    a = b :=
  (String.append_right_inj "/workspace/venv-").mp h

theorem leafConfigDir_injective (h : leafConfigDir a = leafConfigDir b) :
    a = b := by
  have hpath := (String.append_left_inj "/.sh-config").mp h
  exact (String.append_right_inj "/workspace/leaves/").mp hpath

theorem eq_of_mem_accessesOf {x : Access} (ha : x ∈ accessesOf a) (hb : x ∈ accessesOf b) :
    a = b := by
  cases x <;>
    simp only [accessesOf, sessionLog, List.mem_cons, List.not_mem_nil, reduceCtorEq, or_false,
      false_or, Access.log.injEq, Access.result.injEq, Access.lease.injEq, Access.workspace.injEq,
      Access.worktree.injEq, Access.checkout.injEq, Access.venv.injEq,
      Access.configLink.injEq] at ha hb
  case log => exact streamKey_injective (ha.1.symm.trans hb.1)
  case result => exact resultKey_injective (ha.symm.trans hb)
  case lease => exact ha.symm.trans hb
  case workspace => exact ha.symm.trans hb
  case worktree => exact leafWorkspaceRef_injective (ha.symm.trans hb)
  case checkout => exact swebenchCheckoutDir_injective (ha.symm.trans hb)
  case venv => exact swebenchVenvDir_injective (ha.symm.trans hb)
  case configLink => exact leafConfigDir_injective (ha.symm.trans hb)

theorem disjoint_accessesOf (h : a ≠ b) :
    List.Disjoint (accessesOf a) (accessesOf b) := by
  intro x ha hb
  exact h (eq_of_mem_accessesOf ha hb)

/-- The prompt leaf gets as far as its turn.
SRCLINE: run-leaf.ts:372, 469-478 -/
def opensTurn (env : LeafEnvelope) : Bool := given env.prompt && !emptyConfigRef env

theorem selectAccesses_subset (sid : String) : selectAccesses sid none ⊆ accessesOf sid := by
  intro x hx
  simp only [selectAccesses, Option.getD_none, List.mem_cons, List.not_mem_nil, or_false] at hx
  rcases hx with rfl | rfl <;> simp [accessesOf]

theorem sessionLog_mem (sid : String) : sessionLog sid ∈ accessesOf sid := List.mem_cons_self

theorem worktree_mem (sid : String) : .worktree (leafWorkspaceRef sid) ∈ accessesOf sid := by
  simp [accessesOf]

theorem verdictAccesses_subset (env : NamedEnvelope) :
    runVerdictLeafAccesses env ⊆ accessesOf env.leafSessionId := by
  unfold runVerdictLeafAccesses
  split
  · refine List.cons_subset.mpr ⟨sessionLog_mem _, List.append_subset.mpr ⟨?_, ?_⟩⟩
    · exact selectAccesses_subset _
    · split
      · exact List.cons_subset.mpr ⟨worktree_mem _, List.nil_subset _⟩
      · exact List.nil_subset _
  · exact List.nil_subset _

theorem solveAccesses_subset (env : NamedEnvelope) :
    runSolveLeafAccesses env ⊆ accessesOf env.leafSessionId := by
  unfold runSolveLeafAccesses
  split
  · refine List.append_subset.mpr ⟨selectAccesses_subset _, ?_⟩
    refine List.cons_subset.mpr ⟨sessionLog_mem _, ?_⟩
    split
    · simp [accessesOf]
    · exact List.cons_subset.mpr ⟨worktree_mem _, List.nil_subset _⟩
  · exact List.nil_subset _

/-- A prompt leaf stays with the names of an id, once its turn does. -/
theorem promptAccesses_subset_iff (fresh : String) (env : NamedEnvelope) :
    runPromptLeafAccesses fresh env ⊆ accessesOf env.leafSessionId ↔
      (opensTurn env.toLeafEnvelope = true →
        openTurnSession fresh env.sessionId = env.leafSessionId) := by
  have hlink : .configLink (leafConfigDir env.leafSessionId) ∈ accessesOf env.leafSessionId := by
    simp [accessesOf]
  unfold runPromptLeafAccesses
  by_cases hprompt : given env.prompt = true
  · by_cases hempty : emptyConfigRef env.toLeafEnvelope = true
    · simp [hprompt, hempty, opensTurn, selectAccesses_subset]
    · have hopens : opensTurn env.toLeafEnvelope = true := by simp [opensTurn, hprompt, hempty]
      simp only [hprompt, hempty, if_true, if_false, hopens, true_implies, List.append_subset,
        selectAccesses_subset, true_and, Bool.false_eq_true]
      constructor
      · rintro ⟨_, hlog⟩
        exact eq_of_mem_accessesOf (sessionLog_mem _) (List.cons_subset.mp hlog).1
      · intro heq
        rw [heq]
        refine ⟨?_, List.cons_subset.mpr ⟨sessionLog_mem _, List.nil_subset _⟩⟩
        split
        · exact List.cons_subset.mpr ⟨hlink, List.nil_subset _⟩
        · exact List.nil_subset _
  · simp [hprompt, opensTurn]

theorem NamedEnvelope.leafSessionId_ne_empty (env : NamedEnvelope) : env.leafSessionId ≠ "" := by
  intro hempty
  have hvalid : ValidId env.leafSessionId := by
    rw [NamedEnvelope.leafSessionId, leafSessionIdOf_eq]
    exact toSessionId_valid _
  rw [hempty] at hvalid
  exact hvalid.ends.ne_nil rfl

/-- A turn opens the session of the leaf whatever a fresh session is called exactly when the
envelope's own session id is the leaf's. -/
theorem openTurnSession_all_iff (env : NamedEnvelope) :
    (∀ fresh, openTurnSession fresh env.sessionId = env.leafSessionId) ↔
      env.leafSessionId = env.sessionId := by
  constructor
  · intro hall
    have hnone := hall ""
    unfold openTurnSession at hnone
    split at hnone
    · exact absurd hnone.symm env.leafSessionId_ne_empty
    · exact hnone.symm
  · intro heq fresh
    have hne : env.sessionId ≠ "" := heq ▸ env.leafSessionId_ne_empty
    rw [openTurnSession, if_neg hne, heq]

/-- The envelope is not that of a prompt leaf that gets as far as its turn, or neither its tenant
nor sanitizing changes its session id. -/
def NamedEnvelope.wellNamed (env : NamedEnvelope) : Prop :=
  env.kind = .prompt → opensTurn env.toLeafEnvelope = true → env.leafSessionId = env.sessionId

theorem runLeafAccesses_subset_iff (env : NamedEnvelope) :
    (∀ fresh, runLeafAccesses fresh env ⊆ accessesOf env.leafSessionId) ↔ env.wellNamed := by
  unfold runLeafAccesses NamedEnvelope.wellNamed
  cases hkind : env.kind with
  | converge => simp [verdictAccesses_subset]
  | solve => simp [solveAccesses_subset]
  | prompt =>
    simp only [promptAccesses_subset_iff, true_implies]
    rw [← openTurnSession_all_iff]
    exact ⟨fun h hopens fresh => h fresh hopens, fun h fresh hopens => h hopens fresh⟩

theorem result_mem (sid : String) : .result (resultKey sid) ∈ accessesOf sid := by
  simp [accessesOf]

/-- A run keeps to the names of its session id exactly when its envelope is well named; two such
runs share a session log exactly when they share a result record. -/
theorem run_keeps_to_session_id (env : NamedEnvelope) :
    ((∀ fresh, runAccesses fresh env ⊆ accessesOf env.leafSessionId) ↔ env.wellNamed) ∧
    (∀ (env' : NamedEnvelope) (fresh fresh' log log' : String), env.wellNamed →
      env'.wellNamed → sessionLog log ∈ runAccesses fresh env →
      sessionLog log' ∈ runAccesses fresh' env' →
      (sessionLog log = sessionLog log' ↔
        resultKey env.leafSessionId = resultKey env'.leafSessionId)) := by
  have hkeeps : ∀ env : NamedEnvelope,
      (∀ fresh, runAccesses fresh env ⊆ accessesOf env.leafSessionId) ↔ env.wellNamed := by
    intro env
    rw [← runLeafAccesses_subset_iff]
    simp only [runAccesses, List.append_subset, List.cons_subset, result_mem, List.nil_subset,
      and_true]
  refine ⟨hkeeps env, ?_⟩
  intro env' fresh fresh' log log' h h' hlog hlog'
  have hid : log = env.leafSessionId :=
    eq_of_mem_accessesOf (sessionLog_mem log) ((hkeeps env).mpr h fresh hlog)
  have hid' : log' = env'.leafSessionId :=
    eq_of_mem_accessesOf (sessionLog_mem log') ((hkeeps env').mpr h' fresh' hlog')
  subst hid hid'
  constructor
  · intro heq
    rw [streamKey_injective (Access.log.inj heq).1]
  · intro heq
    rw [resultKey_injective heq]

/-- A prompt leaf that is ready for its turn. -/
def promptEnvelope (tenant : Option String) (sessionId : String) : NamedEnvelope :=
  { sampleEnvelope .prompt with tenant, sessionId }

/-- Prompt leaves of two tenants share a log and not a record; a prompt leaf of a tenant and one
without share a record and not a log. -/
theorem prompt_leaf_log_is_elsewhere :
    (sessionLog "run-1" ∈ runAccesses "" (promptEnvelope (some "acme") "run-1") ∧
      sessionLog "run-1" ∈ runAccesses "" (promptEnvelope (some "beta") "run-1") ∧
      resultKey (promptEnvelope (some "acme") "run-1").leafSessionId ≠
        resultKey (promptEnvelope (some "beta") "run-1").leafSessionId) ∧
    (sessionLog "acme-run-1" ∈ runAccesses "" (promptEnvelope none "acme-run-1") ∧
      sessionLog "acme-run-1" ∉ runAccesses "" (promptEnvelope (some "acme") "run-1") ∧
      resultKey (promptEnvelope none "acme-run-1").leafSessionId =
        resultKey (promptEnvelope (some "acme") "run-1").leafSessionId) := by
  decide +kernel

end ServerlessHarness.Leaf
