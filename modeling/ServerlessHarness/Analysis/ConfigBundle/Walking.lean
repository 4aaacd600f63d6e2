import ServerlessHarness.Model.ConfigBundle.Walk

/-!
# What a walk through a skill returns

The walk ends whatever the links are, since it enters a directory once. It checks directories
against the root and files not: `filesUnder_inside_iff` says that what it returns is in the root
exactly if no file that it can come to is outside.
-/

set_option autoImplicit false

namespace ServerlessHarness.ConfigBundle

open Library DepthFirst

variable {t : LinkedTree} {dir root rel path c : List String} {name : String}

/-! ## Inside -/

theorem isWithin_iff (h : ".." ∉ path) : isWithin root path = true ↔ root <+: path := by
  have hrel : ∀ root path : List String, ".." ∉ path →
      ((root = path ∨ (relativeTo root path ≠ [] ∧ (relativeTo root path).head? ≠ some "..")) ↔
        root <+: path) := by
    intro root
    induction root with
    | nil =>
      intro path hpath
      cases path with
      | nil => simp [relativeTo]
      | cons b bs =>
        have hb : b ≠ ".." := fun hb => hpath (by rw [hb]; exact List.mem_cons_self)
        simp [relativeTo, hb]
    | cons a as ih =>
      intro path hpath
      cases path with
      | nil => simp [relativeTo]
      | cons b bs =>
        have hrest := ih bs fun hmem => hpath (List.mem_cons_of_mem b hmem)
        rw [List.cons_prefix_cons, relativeTo]
        by_cases hab : a = b
        · rw [if_pos hab, ← hrest]
          simp [hab]
        · rw [if_neg hab]
          simp [hab]
  rw [← hrel root path h]
  simp [isWithin]

theorem noDots_of_kindAt {node : Node} (h : t.kindAt path = some node) : ".." ∉ path := by
  by_cases hne : path = []
  · simp [hne]
  · intro hmem
    have hordinary := (t.ordinary path (LinkedTree.mem_keys_of_kindAt h hne)).2 ".." hmem
    exact hordinary.notDotDot rfl

/-! ## Which directories are entered -/

/-- The directories that can be come to from the root without leaving it. -/
inductive Walked (t : LinkedTree) (root : List String) : List String → Prop where
  | start : t.kindAt root = some .directory → Walked t root root
  | step {c c' : List String} {name : String} : Walked t root c → name ∈ t.names c →
      t.resolve t.nesting c [name] = some c' → t.kindAt c' = some .directory → root <+: c' →
      Walked t root c'

/-- Every file in these directories is in the root, or links to a file in the root. -/
def FilesInside (t : LinkedTree) (root : List String) : Prop :=
  ∀ c name f, Walked t root c → name ∈ t.names c → t.resolve t.nesting c [name] = some f →
    t.kindAt f = some .file → root <+: f

theorem Walked.directory (h : Walked t root c) : t.kindAt c = some .directory := by
  cases h with
  | start hdir => exact hdir
  | step _ _ _ hdir _ => exact hdir

theorem mem_children {found : Found (List String) (List String) Seen}
    (hrel : t.canonical (dir ++ rel) = some c) :
    found ∈ children t dir root rel ↔
      ∃ name ∈ t.names c, inspect t dir root (rel ++ [name]) = some found := by
  have hmem : ∀ p, p ∈ sortPaths ((t.names c).map fun name => [name]) ↔
      ∃ name ∈ t.names c, [name] = p := by
    intro p
    rw [sortPaths, List.mem_insertionSort, List.mem_map]
  rw [children, hrel]
  show found ∈ List.filterMap _ _ ↔ _
  rw [List.mem_filterMap]
  constructor
  · rintro ⟨p, hp, hfound⟩
    obtain ⟨name, hname, rfl⟩ := (hmem p).mp hp
    exact ⟨name, hname, hfound⟩
  · rintro ⟨name, hname, hfound⟩
    exact ⟨[name], (hmem _).mpr ⟨name, hname, rfl⟩, hfound⟩

/-- A directory that is entered. -/
theorem inspect_enter : inspect t dir root rel = some (.enter c path) ↔
    path = rel ∧ t.canonical (dir ++ rel) = some c ∧ t.kindAt c = some .directory ∧ root <+: c := by
  constructor
  · intro h
    unfold inspect at h
    cases hcanonical : t.canonical (dir ++ rel) with
    | none =>
      rw [hcanonical] at h
      cases h
    | some c' =>
      rw [hcanonical] at h
      dsimp only at h
      split at h
      · rename_i hkind
        split at h
        · rename_i hin
          cases h
          exact ⟨rfl, rfl, hkind, (isWithin_iff (noDots_of_kindAt hkind)).mp hin⟩
        · cases h
      all_goals cases h
  · rintro ⟨rfl, hc, hkind, hroot⟩
    unfold inspect
    rw [hc]
    dsimp only
    rw [hkind]
    dsimp only
    rw [if_pos ((isWithin_iff (noDots_of_kindAt hkind)).mpr hroot)]

/-- A file that is listed, wherever it is. -/
theorem inspect_file {f : List String} : inspect t dir root rel = some (.emit (.file f)) ↔
    f = rel ∧ ∃ c, t.canonical (dir ++ rel) = some c ∧ t.kindAt c = some .file := by
  constructor
  · intro h
    unfold inspect at h
    cases hcanonical : t.canonical (dir ++ rel) with
    | none =>
      rw [hcanonical] at h
      cases h
    | some c =>
      rw [hcanonical] at h
      dsimp only at h
      split at h
      · split at h
        all_goals cases h
      · rename_i hkind
        cases h
        exact ⟨rfl, c, rfl, hkind⟩
      all_goals cases h
  · rintro ⟨rfl, c, hc, hkind⟩
    unfold inspect
    rw [hc]
    dsimp only
    rw [hkind]

/-! ## What the walk does -/

/-- A path that the walk takes leads to a directory that can be come to. -/
theorem walked_of_reach (hroot : t.canonical dir = some root)
    (hdir : t.kindAt root = some .directory)
    (h : Reach (children t dir root) [] rel) :
    ∃ c, t.canonical (dir ++ rel) = some c ∧ Walked t root c := by
  induction h with
  | refl => exact ⟨root, by rw [List.append_nil]; exact hroot, .start hdir⟩
  | tail _ hleads ih =>
    obtain ⟨c, hc, hwalked⟩ := ih
    obtain ⟨key, hkey⟩ := hleads
    obtain ⟨name, hname, hinspect⟩ := (mem_children hc).mp hkey
    obtain ⟨rfl, hcanonical, hkind, hinside⟩ := inspect_enter.mp hinspect
    refine ⟨key, hcanonical, .step hwalked hname ?_ hkind hinside⟩
    rw [← List.append_assoc, LinkedTree.canonical_concat name hc hwalked.directory] at hcanonical
    exact hcanonical

variable {n : ℕ} {s : State (List String) Seen}

theorem settled_of_walked (hroot : t.canonical dir = some root)
    (hdir : t.kindAt root = some .directory)
    (hpost : Post (children t dir root) [] (children t dir root []) ⟨[root], []⟩ s)
    (h : Walked t root c) :
    ∃ rel, t.canonical (dir ++ rel) = some c ∧ ∀ found ∈ children t dir root rel,
      Settled s found := by
  have hkey : ∀ key ∈ s.visited, ∃ rel, t.canonical (dir ++ rel) = some key ∧
      ∀ found ∈ children t dir root rel, Settled s found := by
    intro key hkey
    rcases hpost.fresh key hkey with hkey | ⟨p, rel, hp, henter, hall⟩
    · rw [List.mem_singleton.mp hkey]
      exact ⟨[], by rw [List.append_nil]; exact hroot, hpost.settled⟩
    · obtain ⟨d, hd, _⟩ := walked_of_reach hroot hdir hp
      obtain ⟨name, _, hinspect⟩ := (mem_children hd).mp henter
      obtain ⟨rfl, hcanonical, _⟩ := inspect_enter.mp hinspect
      exact ⟨_, hcanonical, hall⟩
  apply hkey
  induction h with
  | start _ => exact hpost.visited root (List.mem_singleton_self root)
  | step hwalked hname hresolve hkind hinside ih =>
    obtain ⟨rel, hrel, hall⟩ := hkey _ ih
    rename_i c c' name
    have hcanonical : t.canonical (dir ++ (rel ++ [name])) = some c' := by
      rw [← List.append_assoc, LinkedTree.canonical_concat name hrel hwalked.directory]
      exact hresolve
    have hchild := (mem_children hrel).mpr
      ⟨name, hname, inspect_enter.mpr ⟨rfl, hcanonical, hkind, hinside⟩⟩
    exact hall _ hchild

theorem mem_listing {seen : List Seen} : rel ∈ (listing dir seen).files ↔ .file rel ∈ seen := by
  show rel ∈ sortPaths _ ↔ _
  rw [sortPaths, List.mem_insertionSort, List.mem_filterMap]
  constructor
  · rintro ⟨s, hs, hrel⟩
    cases s with
    | file rel' =>
      cases hrel
      exact hs
    | escaped rel' => cases hrel
  · intro h
    exact ⟨.file rel, h, rfl⟩

theorem exists_walk (t : LinkedTree) (dir root : List String) :
    ∃ n s, dfs (children t dir root) n ⟨[root], []⟩ [] = some s := by
  refine ⟨_, exists_dfs t.dirs ?_ (Nat.lt_succ_self _)⟩
  intro p key q henter
  cases hc : t.canonical (dir ++ p) with
  | none =>
    rw [children, hc] at henter
    cases henter
  | some c =>
    obtain ⟨name, _, hinspect⟩ := (mem_children hc).mp henter
    exact LinkedTree.kindAt_eq_directory_iff.mp (inspect_enter.mp hinspect).2.2.1

/-- A file that is listed is one of a directory that can be come to. -/
theorem file_of_listed (hroot : t.canonical dir = some root)
    (hdir : t.kindAt root = some .directory)
    (hwalk : dfs (children t dir root) n ⟨[root], []⟩ [] = some s)
    (h : rel ∈ (listing dir s.emitted).files) :
    ∃ f c name, t.canonical (dir ++ rel) = some f ∧ t.kindAt f = some .file ∧ Walked t root c ∧
      name ∈ t.names c ∧ t.resolve t.nesting c [name] = some f := by
  rcases (dfs_post hwalk).sound _ (mem_listing.mp h) with hnone | ⟨q, hq, hemit⟩
  · cases hnone
  · obtain ⟨c, hc, hwalked⟩ := walked_of_reach hroot hdir hq
    obtain ⟨name, hname, hinspect⟩ := (mem_children hc).mp hemit
    obtain ⟨rfl, f, hf, hkind⟩ := inspect_file.mp hinspect
    refine ⟨f, c, name, hf, hkind, hwalked, hname, ?_⟩
    rw [← List.append_assoc, LinkedTree.canonical_concat name hc hwalked.directory] at hf
    exact hf

/-- And each file of such a directory is listed. -/
theorem listed_of_walked {f : List String} (hroot : t.canonical dir = some root)
    (hdir : t.kindAt root = some .directory)
    (hwalk : dfs (children t dir root) n ⟨[root], []⟩ [] = some s) (hwalked : Walked t root c)
    (hname : name ∈ t.names c) (hresolve : t.resolve t.nesting c [name] = some f)
    (hkind : t.kindAt f = some .file) :
    ∃ rel ∈ (listing dir s.emitted).files, t.canonical (dir ++ rel) = some f := by
  obtain ⟨rel, hrel, hall⟩ := settled_of_walked hroot hdir (dfs_post hwalk) hwalked
  have hcanonical : t.canonical (dir ++ (rel ++ [name])) = some f := by
    rw [← List.append_assoc, LinkedTree.canonical_concat name hrel hwalked.directory]
    exact hresolve
  have hchild : .emit (.file (rel ++ [name])) ∈ children t dir root rel :=
    (mem_children hrel).mpr ⟨name, hname, inspect_file.mpr ⟨rfl, f, hcanonical, hkind⟩⟩
  exact ⟨rel ++ [name], mem_listing.mpr (hall _ hchild), hcanonical⟩

/-! ## What is returned -/

/-- All files of a listing have a canonical path, in the root. -/
def ListsInside (t : LinkedTree) (dir : List String) (l : Listing) : Prop :=
  ∀ rel ∈ l.files, ∃ root f, t.canonical dir = some root ∧ t.canonical (dir ++ rel) = some f ∧
    root <+: f

theorem Walked.root_directory (h : Walked t root c) : t.kindAt root = some .directory := by
  induction h with
  | start hdir => exact hdir
  | step _ _ _ _ _ ih => exact ih

theorem filesUnder_eq (hroot : t.canonical dir = some root) (hdir : t.kindAt root = some .directory)
    (n : ℕ) : filesUnder t n dir =
      (dfs (children t dir root) n ⟨[root], []⟩ []).map fun s => .ok (listing dir s.emitted) := by
  rw [filesUnder, hroot]
  exact if_pos hdir

/-- A listing inside comes from a tree without a file outside. -/
theorem filesInside_of_listsInside {result : Except String Listing}
    (hfiles : filesUnder t n dir = some result)
    (hinside : ∀ l, result = .ok l → ListsInside t dir l) (hroot : t.canonical dir = some root) :
    FilesInside t root := by
  intro c name f hwalked hname hresolve hkind
  have hdir := hwalked.root_directory
  rw [filesUnder_eq hroot hdir] at hfiles
  obtain ⟨s, hwalk, rfl⟩ := Option.map_eq_some_iff.mp hfiles
  obtain ⟨rel, hrel, hcanonical⟩ := listed_of_walked hroot hdir hwalk hwalked hname hresolve hkind
  obtain ⟨root', f', hroot', hf', hbelow⟩ := hinside _ rfl rel hrel
  cases hroot.symm.trans hroot'
  cases hcanonical.symm.trans hf'
  exact hbelow

/-- INTERNAL: **the walk ends, and what it returns is inside** exactly if no file that it can come
to is outside. -/
theorem filesUnder_inside_iff (t : LinkedTree) (dir : List String) :
    (∃ n result, filesUnder t n dir = some result ∧ ∀ l, result = .ok l → ListsInside t dir l) ↔
      ∀ root, t.canonical dir = some root → FilesInside t root := by
  constructor
  · rintro ⟨n, result, hfiles, hinside⟩ root hroot
    exact filesInside_of_listsInside hfiles hinside hroot
  · intro h
    cases hroot : t.canonical dir with
    | none =>
      refine ⟨0, .ok ⟨[], []⟩, by rw [filesUnder, hroot], ?_⟩
      rintro l hl rel hrel
      cases hl
      cases hrel
    | some root =>
      by_cases hdir : t.kindAt root = some .directory
      · obtain ⟨n, s, hwalk⟩ := exists_walk t dir root
        refine ⟨n, .ok (listing dir s.emitted), ?_, ?_⟩
        · rw [filesUnder_eq hroot hdir, hwalk]
          rfl
        · rintro l hl rel hrel
          cases hl
          obtain ⟨f, c, name, hf, hkind, hwalked, hname, hresolve⟩ :=
            file_of_listed hroot hdir hwalk hrel
          exact ⟨root, f, hroot, hf, h root hroot c name f hwalked hname hresolve hkind⟩
      · refine ⟨0, .error "ENOTDIR", ?_, ?_⟩
        · rw [filesUnder, hroot]
          exact if_neg hdir
        · intro l hl
          cases hl

/-! ## A link to a file -/

/-- A skill with a link to a file beside the skills. -/
def leakyEntries : List (List String × Node) :=
  [(["skills"], .directory), (["skills", "a"], .directory), (["skills", "a", "SKILL.md"], .file),
    (["skills", "a", "notes.md"], .link "../../secret"), (["secret"], .file)]

theorem leaky_nodup : (leakyEntries.map Prod.fst).Nodup := by decide

def leakyNodes : OrderedMap (List String) Node := ⟨leakyEntries, leaky_nodup⟩

theorem leaky_ordinary : ∀ path ∈ leakyNodes.keys,
    path ≠ [] ∧ ∀ name ∈ path, SlashPath.Ordinary name := by
  have h : ∀ path ∈ leakyNodes.keys, path ≠ [] ∧
      ∀ name ∈ path, name ≠ "" ∧ name ≠ "." ∧ name ≠ ".." ∧ '/' ∉ name.toList := by
    decide
  intro path hpath
  refine ⟨(h path hpath).1, ?_⟩
  intro name hname
  obtain ⟨hne, hdot, hdots, hslash⟩ := (h path hpath).2 name hname
  exact ⟨hne, hdot, hdots, hslash⟩

theorem leaky_parents : ∀ path ∈ leakyNodes.keys,
    path.dropLast = [] ∨ leakyNodes.get path.dropLast = some .directory := by
  decide

theorem leaky_targets : ∀ path target, leakyNodes.get path = some (.link target) → target ≠ "" := by
  have h : ∀ e ∈ leakyEntries, e.2 ≠ .link "" := by decide
  rintro path target hget rfl
  exact h _ (OrderedMap.get_eq_some.mp hget) rfl

def leaky : LinkedTree := ⟨leakyNodes, 40, leaky_ordinary, leaky_parents, leaky_targets⟩

/-- The link is listed as a file of the skill, and is read from outside. -/
theorem leaky_lists_outside : ¬ ∃ n result, filesUnder leaky n ["skills", "a"] = some result ∧
    ∀ l, result = .ok l → ListsInside leaky ["skills", "a"] l := by
  rintro ⟨n, result, hfiles, hinside⟩
  have hroot : leaky.canonical ["skills", "a"] = some ["skills", "a"] := by decide
  have hall := filesInside_of_listsInside hfiles hinside hroot
  have hsecret := hall ["skills", "a"] "notes.md" ["secret"] (.start (by decide)) (by decide)
    (by decide) (by decide)
  exact absurd hsecret (by decide)

end ServerlessHarness.ConfigBundle
