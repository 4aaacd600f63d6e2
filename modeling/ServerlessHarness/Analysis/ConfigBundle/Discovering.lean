import ServerlessHarness.Analysis.ConfigBundle.Walking
import ServerlessHarness.Library.Throwing
import ServerlessHarness.Model.ConfigBundle.Discovery

/-!
# Which skills are resolved

The search ends whatever the links are, since it enters a directory once. It comes to the scopes in
the order of their ranks, so a skill that was filed is never replaced: the maps by name and by
canonical path hold the same skills (`Filed`), and a skill is left out only for one of them.
-/

set_option autoImplicit false

namespace ServerlessHarness.ConfigBundle

open Library DepthFirst

variable {d : Disk} {t : LinkedTree} {n : ℕ} {scope : SkillScope} {dir root path c : List String}

/-! ## Canonical paths as strings -/

theorem splitSlash_append (acc cs ds : List Char) (h : '/' ∉ cs) :
    SlashPath.splitSlash acc (cs ++ '/' :: ds) =
      String.ofList (acc.reverse ++ cs) :: SlashPath.splitSlash [] ds := by
  induction cs generalizing acc with
  | nil => simp [SlashPath.splitSlash]
  | cons c cs ih =>
    rw [List.mem_cons, not_or] at h
    rw [List.cons_append, SlashPath.splitSlash, if_neg (Ne.symm h.1), ih _ h.2]
    simp

theorem splitSlash_relText (h : ∀ e ∈ path, '/' ∉ e.toList) (hne : path ≠ []) :
    SlashPath.splitSlash [] (relText path).toList = path := by
  induction path with
  | nil => exact absurd rfl hne
  | cons e es ih =>
    have he := h e List.mem_cons_self
    cases es with
    | nil =>
      rw [relText, String.intercalate_singleton, SlashPath.splitSlash_of_noSlash _ _ he]
      simp
    | cons e' es =>
      have htext : (relText (e :: e' :: es)).toList = e.toList ++
          '/' :: (relText (e' :: es)).toList := by
        rw [relText, String.intercalate_cons_cons, String.toList_append, String.toList_append,
          List.append_assoc]
        rfl
      rw [htext, splitSlash_append _ _ _ he,
        ih (fun f hf => h f (List.mem_cons_of_mem e hf)) (by simp)]
      simp

theorem noSlash_of_dir (h : c ∈ t.dirs) : ∀ e ∈ c, '/' ∉ e.toList := by
  intro e he
  have hkind := LinkedTree.kindAt_eq_directory_iff.mpr h
  have hne : c ≠ [] := List.ne_nil_of_mem he
  exact ((t.ordinary c (LinkedTree.mem_keys_of_kindAt hkind hne)).2 e he).noSlash

theorem nonempty_of_dir (h : c ∈ t.dirs) : ∀ e ∈ c, e ≠ "" := by
  intro e he
  have hkind := LinkedTree.kindAt_eq_directory_iff.mpr h
  have hne : c ≠ [] := List.ne_nil_of_mem he
  exact ((t.ordinary c (LinkedTree.mem_keys_of_kindAt hkind hne)).2 e he).nonempty

/-- Directories with one text are one directory. -/
theorem pathText_inj {c' : List String} (h : c ∈ t.dirs) (h' : c' ∈ t.dirs)
    (htext : pathText c = pathText c') : c = c' := by
  have hrel : relText c = relText c' := by
    have hlist := congrArg String.toList htext
    rw [pathText, pathText, String.toList_append, String.toList_append] at hlist
    exact String.toList_inj.mp (List.append_cancel_left hlist)
  -- The root has the empty text, which no other directory has.
  have hsplit : ∀ c ∈ t.dirs, (SlashPath.splitSlash [] (relText c).toList).filter (· ≠ "") = c := by
    intro c hc
    by_cases hne : c = []
    · rw [hne]
      decide
    · rw [splitSlash_relText (noSlash_of_dir hc) hne, List.filter_eq_self]
      intro e he
      rw [decide_eq_true_eq]
      exact nonempty_of_dir hc e he
  rw [← hsplit c h, hrel, hsplit c' h']

/-! ## The search ends -/

/-- A skill's directory: `SKILL.md` is there, whatever it is. -/
def HoldsSkill (t : LinkedTree) (dir : List String) : Prop :=
  (∃ c ∈ t.dirs, t.canonical dir = some c) ∧ (t.canonical (dir ++ ["SKILL.md"])).isSome = true

theorem enterable_eq {found : Found (List String) (List String) (List String)}
    (h : enterable t path = some found) :
    ∃ c ∈ t.dirs, t.canonical path = some c ∧ found = .enter c path := by
  unfold enterable at h
  cases hcanonical : t.canonical path with
  | none =>
    rw [hcanonical] at h
    cases h
  | some c =>
    rw [hcanonical] at h
    dsimp only at h
    split at h
    · rename_i hkind
      cases h
      exact ⟨c, LinkedTree.kindAt_eq_directory_iff.mp hkind, rfl, rfl⟩
    · cases h

/-- What stands in a directory: the directory itself, or directories to enter. -/
theorem mem_searched {found : Found (List String) (List String) (List String)}
    (h : found ∈ searched t path) :
    (found = .emit path ∧ (t.canonical (path ++ ["SKILL.md"])).isSome = true) ∨
      ∃ c ∈ t.dirs, ∃ q, t.canonical q = some c ∧ found = .enter c q := by
  unfold searched at h
  cases hcanonical : t.canonical path with
  | none =>
    rw [hcanonical] at h
    cases h
  | some c =>
    rw [hcanonical] at h
    dsimp only at h
    split at h
    · rename_i hskill
      exact Or.inl ⟨List.mem_singleton.mp h, hskill⟩
    · obtain ⟨name, _, hfound⟩ := List.mem_filterMap.mp h
      obtain ⟨c', hc', hq, rfl⟩ := enterable_eq hfound
      exact Or.inr ⟨c', hc', _, hq, rfl⟩

theorem fresh_le {ε : Type} (keys : List (List String)) (s : State (List String) ε) :
    fresh keys s ≤ keys.length := List.length_filter_le _ _

/-- A path that the search takes leads to a directory. -/
theorem dir_of_reach (hroot : t.canonical root = some c) (hc : c ∈ t.dirs)
    (h : Reach (searched t) root path) : ∃ c ∈ t.dirs, t.canonical path = some c := by
  induction h with
  | refl => exact ⟨c, hc, hroot⟩
  | tail _ hleads _ =>
    obtain ⟨key, hkey⟩ := hleads
    rcases mem_searched hkey with ⟨hemit, _⟩ | ⟨c, hc, q, hq, henter⟩
    · cases hemit
    · cases henter
      exact ⟨_, hc, hq⟩

theorem findSkillDirs_ends (t : LinkedTree) (h : t.dirs.length < n) (root : List String) :
    ∃ dirs, findSkillDirs t n root = some dirs ∧ ∀ dir ∈ dirs, HoldsSkill t dir := by
  unfold findSkillDirs
  cases hroot : t.canonical root with
  | none => exact ⟨[], rfl, fun _ hdir => by cases hdir⟩
  | some c =>
    dsimp only
    by_cases hkind : t.kindAt c = some .directory
    · rw [if_pos hkind]
      have hkeys : ∀ p key q, .enter key q ∈ searched t p → key ∈ t.dirs := by
        intro p key q henter
        rcases mem_searched henter with ⟨hemit, _⟩ | ⟨c, hc, q, _, heq⟩
        · cases hemit
        · cases heq
          exact hc
      obtain ⟨s, hs⟩ := exists_dfs (s := ⟨[c], []⟩) (p := root) t.dirs hkeys
        (Nat.lt_of_le_of_lt (fresh_le _ _) h)
      refine ⟨s.emitted, by rw [hs]; rfl, ?_⟩
      intro dir hdir
      rcases (dfs_post hs).sound dir hdir with hnone | ⟨q, hq, hemit⟩
      · cases hnone
      · rcases mem_searched hemit with ⟨heq, hskill⟩ | ⟨_, _, _, _, henter⟩
        · cases heq
          exact ⟨dir_of_reach hroot (LinkedTree.kindAt_eq_directory_iff.mp hkind) hq, hskill⟩
        · cases henter
    · rw [if_neg hkind]
      exact ⟨[], rfl, fun _ hdir => by cases hdir⟩

/-- The walk through a directory ends within the same bound. -/
theorem filesUnder_ends (h : t.dirs.length < n) (hc : c ∈ t.dirs)
    (hdir : t.canonical dir = some c) :
    ∃ l, filesUnder t n dir = some (.ok l) := by
  have hkeys : ∀ p key q, .enter key q ∈ children t dir c p → key ∈ t.dirs := by
    intro p key q henter
    cases hp : t.canonical (dir ++ p) with
    | none =>
      rw [children, hp] at henter
      cases henter
    | some c' =>
      obtain ⟨name, _, hinspect⟩ := (mem_children hp).mp henter
      exact LinkedTree.kindAt_eq_directory_iff.mp (inspect_enter.mp hinspect).2.2.1
  obtain ⟨s, hs⟩ := exists_dfs (s := ⟨[c], []⟩) (p := []) t.dirs hkeys
    (Nat.lt_of_le_of_lt (fresh_le _ _) h)
  rw [filesUnder_eq hdir (LinkedTree.kindAt_eq_directory_iff.mpr hc), hs]
  exact ⟨_, rfl⟩

/-! ## What is found -/

/-- A skill of a scope, with the canonical path of a directory. -/
structure Located (t : LinkedTree) (scope : SkillScope) (skill : FoundSkill) : Prop where
  scope : skill.scope = scope
  canonical : ∃ c ∈ t.dirs, skill.canonical = pathText c

/-- A `SKILL.md` that is not a file. -/
def Unreadable (t : LinkedTree) : Prop :=
  ∃ dir c, HoldsSkill t dir ∧ t.canonical (dir ++ ["SKILL.md"]) = some c ∧ t.kindAt c ≠ some .file

theorem load_ends (h : d.tree.dirs.length < n) (hdir : HoldsSkill d.tree dir) :
    Ends (load d n scope dir) (Located d.tree scope) (fun _ => Unreadable d.tree) := by
  obtain ⟨⟨c, hc, hcanonical⟩, hskill⟩ := hdir
  obtain ⟨f, hf⟩ := Option.isSome_iff_exists.mp hskill
  have hread : d.read (dir ++ ["SKILL.md"]) =
      if d.tree.kindAt f = some .file then .ok (d.text f) else .error "EISDIR" := by
    unfold Disk.read
    rw [hf]
  unfold load
  refine Ends.bind ?_
  rw [hread]
  by_cases hfile : d.tree.kindAt f = some .file
  · rw [if_pos hfile]
    show Ends _ _ _
    refine Ends.bind ?_
    obtain ⟨l, hl⟩ := filesUnder_ends h hc hcanonical
    rw [hl]
    exact ends_pure.mpr ⟨rfl, c, hc, by rw [hcanonical, Option.getD_some]⟩
  · rw [if_neg hfile]
    exact ⟨dir, f, ⟨⟨c, hc, hcanonical⟩, hskill⟩, hf, hfile⟩

theorem loadAll_ends (h : d.tree.dirs.length < n) {dirs : List (List String)}
    (hdirs : ∀ dir ∈ dirs, HoldsSkill d.tree dir) :
    Ends (loadAll d n scope dirs) (fun skills => ∀ skill ∈ skills, Located d.tree scope skill)
      (fun _ => Unreadable d.tree) := by
  induction dirs with
  | nil => exact ends_pure.mpr fun _ hskill => by cases hskill
  | cons dir dirs ih =>
    refine Ends.bind ((load_ends h (hdirs dir List.mem_cons_self)).mono ?_)
    intro skill hskill
    refine Ends.bind ((ih fun e he => hdirs e (List.mem_cons_of_mem dir he)).mono ?_)
    intro skills hskills
    apply ends_pure.mpr
    intro e he
    rcases List.mem_cons.mp he with rfl | he
    · exact hskill
    · exact hskills e he

/-- Skills in the order of their scopes, from directories of the tree. -/
structure InOrder (t : LinkedTree) (found : List FoundSkill) : Prop where
  ranks : found.Pairwise fun a b => a.scope.rank ≤ b.scope.rank
  canonical : ∀ skill ∈ found, ∃ c ∈ t.dirs, skill.canonical = pathText c

/-- Skills from places come in the order of the places. -/
theorem searchAll_ends (h : d.tree.dirs.length < n) {places : List (SkillScope × List String)}
    (hplaces : places.Pairwise fun a b => a.1.rank ≤ b.1.rank) :
    Ends (searchAll d n places)
      (fun found => InOrder d.tree found ∧ ∀ skill ∈ found, ∃ place ∈ places, skill.scope = place.1)
      (fun _ => Unreadable d.tree) := by
  induction places with
  | nil => exact ends_pure.mpr ⟨⟨.nil, fun _ h => by cases h⟩, fun _ h => by cases h⟩
  | cons place places ih =>
    obtain ⟨hplace, hplaces⟩ := List.pairwise_cons.mp hplaces
    obtain ⟨dirs, hsearch, hdirs⟩ := findSkillDirs_ends d.tree h place.2
    refine Ends.bind ?_
    rw [hsearch]
    show Ends _ _ _
    refine Ends.bind ((loadAll_ends h hdirs).mono ?_)
    intro skills hskills
    refine Ends.bind ((ih hplaces).mono ?_)
    rintro others ⟨hothers, hscopes⟩
    refine ends_pure.mpr ⟨⟨?_, ?_⟩, ?_⟩
    · refine List.pairwise_append.mpr ⟨?_, hothers.ranks, ?_⟩
      · apply List.pairwise_of_forall_mem_list
        intro a ha b hb
        rw [(hskills a ha).scope, (hskills b hb).scope]
      · intro a ha b hb
        obtain ⟨q, hq, hb⟩ := hscopes b hb
        rw [(hskills a ha).scope, hb]
        exact hplace q hq
    · exact List.forall_mem_append.mpr
        ⟨fun skill hskill => (hskills skill hskill).canonical, hothers.canonical⟩
    · intro skill hskill
      rcases List.mem_append.mp hskill with hskill | hskill
      · exact ⟨place, List.mem_cons_self, (hskills skill hskill).scope⟩
      · obtain ⟨q, hq, hscope⟩ := hscopes skill hskill
        exact ⟨q, List.mem_cons_of_mem place hq, hscope⟩

theorem places_ranks (roots : SkillRoots) :
    roots.places.Pairwise fun a b => a.1.rank ≤ b.1.rank := by
  have hconst : ∀ (scope : SkillScope) (l : List (List String)),
      (l.map fun dir => (scope, dir)).Pairwise fun a b => a.1.rank ≤ b.1.rank := by
    intro scope l
    rw [List.pairwise_map]
    exact List.pairwise_of_forall_mem_list fun _ _ _ _ => Nat.le_refl _
  unfold SkillRoots.places
  rw [List.pairwise_append, List.pairwise_append]
  refine ⟨⟨?_, ?_, ?_⟩, hconst .plugin _, ?_⟩
  · cases roots.projectDir with
    | none => exact .nil
    | some base => exact List.pairwise_singleton _ _
  · cases roots.userDir with
    | none => exact .nil
    | some base => exact List.pairwise_singleton _ _
  · intro a ha b hb
    obtain ⟨_, _, rfl⟩ := List.mem_map.mp ha
    exact Nat.zero_le _
  · intro a ha b hb
    obtain ⟨dir, _, rfl⟩ := List.mem_map.mp hb
    show a.1.rank ≤ 2
    cases a.1 <;> decide

/-! ## Which are kept -/

/-- The maps hold the same skills, and one of them stands for each skill that was seen. -/
structure Filed (seen : List FoundSkill) (best : Best) : Prop where
  byName : ∀ name s, best.byName.get name = some s →
    s.name = name ∧ s ∈ seen ∧ best.byCanonical.get s.canonical = some s
  byCanonical : ∀ c s, best.byCanonical.get c = some s →
    s.canonical = c ∧ best.byName.get s.name = some s
  covered : ∀ s ∈ seen, ∃ r, best.byName.get r.name = some r ∧
    (r.name = s.name ∨ r.canonical = s.canonical) ∧ r.scope.rank ≤ s.scope.rank

theorem filed_empty : Filed [] ⟨OrderedMap.empty, OrderedMap.empty⟩ where
  byName _ _ h := by cases h
  byCanonical _ _ h := by cases h
  covered _ h := by cases h

variable {best : Best} {found seen : List FoundSkill} {skill : FoundSkill}

/-- A skill for which another stands is left out. -/
theorem Filed.skip {r : FoundSkill} (h : Filed seen best) (hr : best.byName.get r.name = some r)
    (hshare : r.name = skill.name ∨ r.canonical = skill.canonical)
    (hrank : r.scope.rank ≤ skill.scope.rank) : Filed (seen ++ [skill]) best where
  byName name s hs := by
    obtain ⟨hname, hseen, hcanonical⟩ := h.byName name s hs
    exact ⟨hname, List.mem_append_left _ hseen, hcanonical⟩
  byCanonical := h.byCanonical
  covered := List.forall_mem_append.mpr
    ⟨h.covered, List.forall_mem_singleton.mpr ⟨r, hr, hshare, hrank⟩⟩

/-- A skill of a new name and a new canonical path is filed in both maps. -/
theorem Filed.insert (h : Filed seen best) (hname : best.byName.get skill.name = none)
    (hcanonical : best.byCanonical.get skill.canonical = none) :
    Filed (seen ++ [skill])
      ⟨best.byName.set skill.name skill, best.byCanonical.set skill.canonical skill⟩ := by
  have hnew : skill ∈ seen ++ [skill] := List.mem_append_right _ (List.mem_singleton_self _)
  -- What was filed before has another name and another path.
  have hother : ∀ s, best.byName.get s.name = some s →
      s.name ≠ skill.name ∧ s.canonical ≠ skill.canonical := by
    intro s hs
    constructor
    · intro heq
      rw [heq, hname] at hs
      cases hs
    · intro heq
      have hs' := (h.byName s.name s hs).2.2
      rw [heq, hcanonical] at hs'
      cases hs'
  have hkept : ∀ s, best.byName.get s.name = some s →
      (best.byName.set skill.name skill).get s.name = some s ∧
        (best.byCanonical.set skill.canonical skill).get s.canonical = some s := by
    intro s hs
    rw [OrderedMap.get_set_ne (hother s hs).1, OrderedMap.get_set_ne (hother s hs).2]
    exact ⟨hs, (h.byName s.name s hs).2.2⟩
  refine ⟨?_, ?_, ?_⟩
  · intro name s hs
    by_cases heq : name = skill.name
    · rw [heq, OrderedMap.get_set_self] at hs
      cases hs
      exact ⟨heq.symm, hnew, OrderedMap.get_set_self⟩
    · rw [OrderedMap.get_set_ne heq] at hs
      obtain ⟨rfl, hseen, _⟩ := h.byName name s hs
      exact ⟨rfl, List.mem_append_left _ hseen, (hkept s hs).2⟩
  · intro c s hs
    by_cases heq : c = skill.canonical
    · rw [heq, OrderedMap.get_set_self] at hs
      cases hs
      exact ⟨heq.symm, OrderedMap.get_set_self⟩
    · rw [OrderedMap.get_set_ne heq] at hs
      obtain ⟨rfl, hs'⟩ := h.byCanonical c s hs
      exact ⟨rfl, (hkept s hs').1⟩
  · intro s hs
    rcases List.mem_append.mp hs with hs | hs
    · obtain ⟨r, hr, hshare, hrank⟩ := h.covered s hs
      exact ⟨r, (hkept r hr).1, hshare, hrank⟩
    · rw [List.mem_singleton.mp hs]
      exact ⟨skill, OrderedMap.get_set_self, Or.inl rfl, Nat.le_refl _⟩

/-- A skill after those of equal or better scope replaces none of them. -/
theorem Filed.add (h : Filed seen best) (hrank : ∀ s ∈ seen, s.scope.rank ≤ skill.scope.rank) :
    Filed (seen ++ [skill]) (best.add skill) := by
  have hle : ∀ prev, best.byName.get prev.name = some prev → prev.scope.rank ≤ skill.scope.rank :=
    fun prev hprev => hrank prev (h.byName prev.name prev hprev).2.1
  unfold Best.add
  cases hcanonical : best.byCanonical.get skill.canonical with
  | some prev =>
    obtain ⟨hpath, hprev⟩ := h.byCanonical _ prev hcanonical
    dsimp only
    rw [if_neg (Nat.not_lt.mpr (hle prev hprev))]
    exact h.skip hprev (Or.inr hpath) (hle prev hprev)
  | none =>
    dsimp only
    cases hname : best.byName.get skill.name with
    | none => exact h.insert hname hcanonical
    | some prev =>
      have heq := (h.byName _ prev hname).1
      have hprev : best.byName.get prev.name = some prev := by rw [heq, hname]
      dsimp only
      rw [if_neg (Nat.not_lt.mpr (hle prev hprev))]
      exact h.skip hprev (Or.inl heq) (hle prev hprev)

theorem filed_foldl (h : Filed seen best)
    (hranks : (seen ++ found).Pairwise fun a b => a.scope.rank ≤ b.scope.rank) :
    Filed (seen ++ found) (found.foldl Best.add best) := by
  induction found generalizing seen best with
  | nil =>
    rw [List.append_nil]
    exact h
  | cons skill found ih =>
    have hassoc : seen ++ skill :: found = seen ++ [skill] ++ found := by
      rw [List.append_assoc, List.singleton_append]
    have hrank : ∀ s ∈ seen, s.scope.rank ≤ skill.scope.rank :=
      fun s hs => (List.pairwise_append.mp hranks).2.2 s hs skill List.mem_cons_self
    rw [hassoc] at hranks ⊢
    exact ih (h.add hrank) hranks

/-! ## What is returned -/

/-- The skills of a filed map, in any order. -/
structure Deduplicated (found returned : List FoundSkill) : Prop where
  names : (returned.map FoundSkill.name).Nodup
  canonicals : (returned.map FoundSkill.canonical).Nodup
  fromFound : ∀ skill ∈ returned, skill ∈ found
  covered : ∀ skill ∈ found, skill ∉ returned → ∃ r ∈ returned,
    (r.name = skill.name ∨ r.canonical = skill.canonical) ∧ r.scope.rank ≤ skill.scope.rank

theorem Filed.deduplicated (h : Filed found best) :
    Deduplicated found (best.byName.entries.map Prod.snd) := by
  have hget : ∀ e ∈ best.byName.entries, best.byName.get e.1 = some e.2 :=
    fun e he => OrderedMap.get_eq_some.mpr he
  have hname : (best.byName.entries.map Prod.snd).map FoundSkill.name =
      best.byName.entries.map Prod.fst := by
    rw [List.map_map]
    exact List.map_congr_left fun e he => (h.byName e.1 e.2 (hget e he)).1
  refine ⟨?_, ?_, ?_, ?_⟩
  · rw [hname]
    exact best.byName.nodup
  · rw [List.map_map]
    refine List.Nodup.map_on ?_ (List.Nodup.of_map _ best.byName.nodup)
    intro e he e' he' heq
    obtain ⟨hn, _, hc⟩ := h.byName e.1 e.2 (hget e he)
    obtain ⟨hn', _, hc'⟩ := h.byName e'.1 e'.2 (hget e' he')
    -- Both are what is filed under the one canonical path.
    have hsame : e.2 = e'.2 := by
      rw [show e.2.canonical = e'.2.canonical from heq, hc'] at hc
      exact (Option.some.inj hc).symm
    exact Prod.ext (by rw [← hn, ← hn', hsame]) hsame
  · intro skill hskill
    obtain ⟨e, he, rfl⟩ := List.mem_map.mp hskill
    exact (h.byName e.1 e.2 (hget e he)).2.1
  · intro skill hskill _
    obtain ⟨r, hr, hshare, hrank⟩ := h.covered skill hskill
    exact ⟨r, List.mem_map.mpr ⟨(r.name, r), OrderedMap.get_eq_some.mp hr, rfl⟩, hshare, hrank⟩

theorem Deduplicated.perm {returned sorted : List FoundSkill} (h : Deduplicated found returned)
    (hperm : sorted.Perm returned) : Deduplicated found sorted where
  names := (hperm.map _).nodup_iff.mpr h.names
  canonicals := (hperm.map _).nodup_iff.mpr h.canonicals
  fromFound skill hskill := h.fromFound skill (hperm.mem_iff.mp hskill)
  covered skill hskill hout := by
    obtain ⟨r, hr, hrest⟩ := h.covered skill hskill fun hin => hout (hperm.mem_iff.mpr hin)
    exact ⟨r, hperm.mem_iff.mpr hr, hrest⟩

/-- INTERNAL: **skills in the order of their scopes are deduplicated** by name and by canonical
path. -/
theorem deduplicated_resolveSkills (h : found.Pairwise fun a b => a.scope.rank ≤ b.scope.rank) :
    Deduplicated found (resolveSkills found) := by
  have hfiled : Filed ([] ++ found) _ := filed_foldl filed_empty (by rw [List.nil_append]; exact h)
  rw [List.nil_append] at hfiled
  exact hfiled.deduplicated.perm (List.perm_insertionSort _ _)

/-- INTERNAL: **resolving skills ends** on every tree at rest, with a bound on the nesting that
only the number of directories sets. It throws for a `SKILL.md` that is not a file only; what it
returns otherwise has one skill for each name and for each directory, and each skill that is left
out is left out for one of equal or better scope. -/
theorem resolveSkills_unique (d : Disk) (roots : SkillRoots) (extra : ℕ) :
    ∃ outcome, (foundSkills d (d.tree.dirs.length + 1 + extra) roots).run = some outcome ∧
      (∀ e, outcome = .error e → Unreadable d.tree) ∧
      ∀ found, outcome = .ok found →
        Deduplicated found (resolveSkills found) ∧
          (∀ skill ∈ found, ∃ c ∈ d.tree.dirs, skill.canonical = pathText c) ∧
          ∀ c ∈ d.tree.dirs, ∀ c' ∈ d.tree.dirs, pathText c = pathText c' → c = c' := by
  have hends := searchAll_ends (d := d) (n := d.tree.dirs.length + 1 + extra) (by omega)
    (places_ranks roots)
  obtain ⟨outcome, hrun, hok, herror⟩ := ends_iff.mp hends
  refine ⟨outcome, hrun, herror, ?_⟩
  intro found hfound
  obtain ⟨hfound, _⟩ := hok found hfound
  exact ⟨deduplicated_resolveSkills hfound.ranks, hfound.canonical,
    fun c hc c' hc' => pathText_inj hc hc'⟩

end ServerlessHarness.ConfigBundle
