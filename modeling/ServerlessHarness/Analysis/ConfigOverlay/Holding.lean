import ServerlessHarness.Analysis.ConfigOverlay.Crashes

/-!
# Refs hold caches

In a run in which no script is killed, no leaf lives longer than the stale age and no two leaves
have one session id, a leaf has its ref on disk from `acquire` to `cleanup` (`Kept.ref`), every ref
is that of such a leaf (`Kept.owner`), and a cache is removed when there is none (`Kept.emptied`).
So the cache of a leaf that was told to be there stays, and a cache that nobody holds is gone:
`overlay_holds`.
-/

set_option autoImplicit false

namespace ServerlessHarness.ConfigOverlay

open Library

variable {ε : Type} {bundle : String → List ε} {w w' : World ε} {leaf leaf' : Leaf ε} {k : ℕ}
  {p q : Pc}

/-- None is killed, and none lives longer than the stale age or under the session id of another. -/
def undisturbed (w : World ε) : Action → Bool
  | .kill _ _ => false
  | .tick seconds => w.leaves.all fun leaf => leaf.pc.over || w.now + seconds ≤ leaf.born + refStale
  | .start sessionId _ => w.leaves.all fun leaf => leaf.sessionId ≠ sessionId
  | _ => true

/-! ## Where a leaf holds its digest -/

/-- From the write of the ref to its removal. -/
def Pc.hasRef : Pc → Bool
  | .acquireTest => true
  | .acquired _ => true
  | .populateLock => true
  | .populateTest => true
  | .populateStage => true
  | .populateExtract => true
  | .populateScripts => true
  | .populateSeal => true
  | .populateMove => true
  | .populated => true
  | .failing => true
  | .bindLink => true
  | .running => true
  | .cleanupUnlink => true
  | .cleanupLock => true
  | .cleanupRef => true
  | _ => false

/-- From the removal of the ref to that of the cache. -/
def Pc.dropping : Pc → Bool
  | .cleanupSweep => true
  | .cleanupTest => true
  | .cleanupChmod => true
  | .cleanupRemove => true
  | _ => false

/-- Where no ref was found. -/
def Pc.deleting : Pc → Bool
  | .cleanupChmod => true
  | .cleanupRemove => true
  | _ => false

/-- Where the cache was found or made. -/
def Pc.assured : Pc → Bool
  | .acquired hit => hit
  | .populated => true
  | .bindLink => true
  | .running => true
  | _ => false

/-- From the write of the ref to the end of the cleanup. -/
def Pc.holding (pc : Pc) : Bool :=
  pc.hasRef || pc.dropping || pc = .cleanupRmdir || pc = .cleaned

/-- No ref of a digest. -/
def Unheld (w : World ε) (digest : String) : Prop :=
  ∀ sessionId, w.refs.get (digest, sessionId) = none

variable {digest : String}

theorem noRefs_iff : w.noRefs digest = true ↔ Unheld w digest := by
  unfold World.noRefs Unheld
  rw [List.all_eq_true]
  constructor
  · intro h sessionId
    rw [OrderedMap.get_eq_none]
    intro hkey
    have hne := h _ hkey
    simp at hne
  · intro h key hkey
    rw [decide_eq_true_eq]
    intro heq
    have hnone := h key.2
    rw [← heq, OrderedMap.get_eq_none] at hnone
    exact hnone hkey

structure Kept (w : World ε) : Prop where
  sessions : (w.leaves.map Leaf.sessionId).Nodup
  age : ∀ l ∈ w.leaves, l.born ≤ w.now ∧ (l.pc.over = false → w.now ≤ l.born + refStale)
  ref : ∀ l ∈ w.leaves, l.pc.hasRef = true →
    ∃ time, w.refs.get (l.digest, l.sessionId) = some time ∧ l.born ≤ time
  owner : ∀ digest sessionId time, w.refs.get (digest, sessionId) = some time →
    ∃ l ∈ w.leaves, l.digest = digest ∧ l.sessionId = sessionId ∧ l.pc.hasRef = true
  emptied : ∀ l ∈ w.leaves, l.pc.deleting = true → Unheld w l.digest
  used : ∀ digest, w.caches.has digest = true →
    ∃ l ∈ w.leaves, l.digest = digest ∧ (l.pc.hasRef || l.pc.dropping) = true
  cache : ∀ l ∈ w.leaves, l.pc.assured = true → w.caches.has l.digest = true
  link : ∀ l ∈ w.leaves, l.pc = .running → w.links.get l.sessionId = some l.digest

/-- What a move of one leaf has to do to keep this. -/
structure Step (w : World ε) (k : ℕ) (leaf leaf' : Leaf ε) (w' : World ε) : Prop where
  here : w.leaves[k]? = some leaf
  leaves : w'.leaves = w.leaves.set k leaf'
  now : w'.now = w.now
  sessionId : leaf'.sessionId = leaf.sessionId
  digest : leaf'.digest = leaf.digest
  born : leaf'.born = leaf.born
  ended : leaf'.pc.over = false → leaf.pc.over = false
  refs : ∀ key, key ≠ (leaf.digest, leaf.sessionId) → w'.refs.get key = w.refs.get key
  ref : leaf'.pc.hasRef = true →
    ∃ time, w'.refs.get (leaf.digest, leaf.sessionId) = some time ∧ leaf.born ≤ time
  owner : ∀ time, w'.refs.get (leaf.digest, leaf.sessionId) = some time → leaf'.pc.hasRef = true
  emptied : leaf'.pc.deleting = true → Unheld w' leaf.digest
  others : ∀ l ∈ w.leaves, l ≠ leaf → l.pc.deleting = true → Unheld w l.digest → Unheld w' l.digest
  caches : ∀ digest, digest ≠ leaf.digest → w'.caches.has digest = w.caches.has digest
  used : w'.caches.has leaf.digest = true → (leaf'.pc.hasRef || leaf'.pc.dropping) = true ∨
    ∃ l ∈ w.leaves, l ≠ leaf ∧ l.digest = leaf.digest ∧ (l.pc.hasRef || l.pc.dropping) = true
  cache : leaf'.pc.assured = true → w'.caches.has leaf.digest = true
  still : ∀ l ∈ w.leaves, l ≠ leaf → l.digest = leaf.digest → l.pc.assured = true →
    w.caches.has leaf.digest = true → w'.caches.has leaf.digest = true
  links : ∀ s, s ≠ leaf.sessionId → w'.links.get s = w.links.get s
  link : leaf'.pc = .running → w'.links.get leaf.sessionId = some leaf.digest

theorem mem_of_set (hnodup : (w.leaves.map Leaf.sessionId).Nodup) (here : w.leaves[k]? = some leaf)
    {l : Leaf ε} (hl : l ∈ w.leaves.set k leaf') :
    l = leaf' ∨ l ∈ w.leaves ∧ l.sessionId ≠ leaf.sessionId := by
  obtain ⟨j, hj⟩ := List.getElem?_of_mem hl
  rcases slot_of_set hj with ⟨_, hl⟩ | ⟨hkj, hl⟩
  · exact Or.inl hl.symm
  · refine Or.inr ⟨List.mem_of_getElem? hl, ?_⟩
    intro heq
    have hk : (w.leaves.map Leaf.sessionId)[k]? = some leaf.sessionId := by
      rw [List.getElem?_map, here]
      rfl
    have hj' : (w.leaves.map Leaf.sessionId)[j]? = some leaf.sessionId := by
      rw [List.getElem?_map, hl, ← heq]
      rfl
    exact hkj ((List.getElem?_inj (lt_of_slot hk) hnodup).mp (hk.trans hj'.symm))

theorem map_sessionId_set (here : w.leaves[k]? = some leaf)
    (h : leaf'.sessionId = leaf.sessionId) :
    (w.leaves.set k leaf').map Leaf.sessionId = w.leaves.map Leaf.sessionId := by
  rw [List.map_set, h]
  apply set_slot_self
  rw [List.getElem?_map, here]
  rfl

/-- INTERNAL: **a move that does its part keeps all of it.** -/
theorem Kept.of_step (h : Kept w) (hs : Step w k leaf leaf' w') : Kept w' := by
  have hmem : ∀ l ∈ w'.leaves, l = leaf' ∨ l ∈ w.leaves ∧ l.sessionId ≠ leaf.sessionId := by
    intro l hl
    rw [hs.leaves] at hl
    exact mem_of_set h.sessions hs.here hl
  have hold : leaf ∈ w.leaves := List.mem_of_getElem? hs.here
  have hnew : leaf' ∈ w'.leaves := by
    rw [hs.leaves]
    exact List.mem_of_getElem? (slot_set_self hs.here)
  have hstay : ∀ l ∈ w.leaves, l ≠ leaf → l ∈ w'.leaves := by
    intro l hl hne
    rw [hs.leaves]
    exact mem_set_of_ne hs.here hl hne
  have hkey : ∀ l : Leaf ε, l.sessionId ≠ leaf.sessionId →
      w'.refs.get (l.digest, l.sessionId) = w.refs.get (l.digest, l.sessionId) := by
    intro l hne
    apply hs.refs
    intro heq
    exact hne (Prod.mk.inj heq).2
  have hne_of : ∀ l : Leaf ε, l.sessionId ≠ leaf.sessionId → l ≠ leaf := by
    rintro l hne rfl
    exact hne rfl
  refine ⟨?_, ?_, ?_, ?_, ?_, ?_, ?_, ?_⟩
  · rw [hs.leaves, map_sessionId_set hs.here hs.sessionId]
    exact h.sessions
  · intro l hl
    rw [hs.now]
    rcases hmem l hl with rfl | ⟨hl, _⟩
    · rw [hs.born]
      exact ⟨(h.age leaf hold).1, fun hover => (h.age leaf hold).2 (hs.ended hover)⟩
    · exact h.age l hl
  · intro l hl href
    rcases hmem l hl with rfl | ⟨hl, hne⟩
    · rw [hs.digest, hs.sessionId, hs.born]
      exact hs.ref href
    · rw [hkey l hne]
      exact h.ref l hl href
  · intro digest sessionId time htime
    by_cases hown : (digest, sessionId) = (leaf.digest, leaf.sessionId)
    · rw [hown] at htime
      obtain ⟨rfl, rfl⟩ := Prod.mk.inj hown
      exact ⟨leaf', hnew, hs.digest, hs.sessionId, hs.owner time htime⟩
    · rw [hs.refs _ hown] at htime
      obtain ⟨l, hl, hdigest, hsession, href⟩ := h.owner digest sessionId time htime
      refine ⟨l, hstay l hl ?_, hdigest, hsession, href⟩
      rintro rfl
      exact hown (by rw [hdigest, hsession])
  · intro l hl hdel
    rcases hmem l hl with rfl | ⟨hl, hne⟩
    · rw [hs.digest]
      exact hs.emptied hdel
    · exact hs.others l hl (hne_of l hne) hdel (h.emptied l hl hdel)
  · intro digest hhas
    by_cases hown : digest = leaf.digest
    · rw [hown] at hhas
      rcases hs.used hhas with hused | ⟨l, hl, hne, hdigest, hused⟩
      · exact ⟨leaf', hnew, hs.digest.trans hown.symm, hused⟩
      · exact ⟨l, hstay l hl hne, hdigest.trans hown.symm, hused⟩
    · rw [hs.caches digest hown] at hhas
      obtain ⟨l, hl, hdigest, hused⟩ := h.used digest hhas
      refine ⟨l, hstay l hl ?_, hdigest, hused⟩
      rintro rfl
      exact hown hdigest.symm
  · intro l hl hassured
    rcases hmem l hl with rfl | ⟨hl, hne⟩
    · rw [hs.digest]
      exact hs.cache hassured
    · by_cases hown : l.digest = leaf.digest
      · have hhas := h.cache l hl hassured
        rw [hown] at hhas ⊢
        exact hs.still l hl (hne_of l hne) hown hassured hhas
      · rw [hs.caches _ hown]
        exact h.cache l hl hassured
  · intro l hl hrun
    rcases hmem l hl with rfl | ⟨hl, hne⟩
    · rw [hs.digest, hs.sessionId]
      exact hs.link hrun
    · rw [hs.links _ hne]
      exact h.link l hl hrun

/-! ## The moves -/

/-- A change of place that needs no change of the refs. -/
structure Quiet (w : World ε) (leaf : Leaf ε) (q : Pc) : Prop where
  ended : q.over = false → leaf.pc.over = false
  ref : q.hasRef = leaf.pc.hasRef
  emptied : q.deleting = true → Unheld w leaf.digest
  dropping : leaf.pc.dropping = true → q.dropping = true ∨ ¬ Unheld w leaf.digest

/-- What becomes of the caches and the links. -/
structure Stored (w : World ε) (leaf : Leaf ε) (q : Pc) (w' : World ε) : Prop where
  caches : ∀ digest, digest ≠ leaf.digest → w'.caches.has digest = w.caches.has digest
  used : w'.caches.has leaf.digest = true →
    w.caches.has leaf.digest = true ∨ (q.hasRef || q.dropping) = true
  cache : q.assured = true → w'.caches.has leaf.digest = true
  still : ∀ l ∈ w.leaves, l ≠ leaf → l.digest = leaf.digest → l.pc.assured = true →
    w.caches.has leaf.digest = true → w'.caches.has leaf.digest = true
  links : ∀ s, s ≠ leaf.sessionId → w'.links.get s = w.links.get s
  link : q = .running → w'.links.get leaf.sessionId = some leaf.digest

/-- Leaves are known by their sessions. -/
theorem Kept.eq_of_sessionId (h : Kept w) {l : Leaf ε} (hl : l ∈ w.leaves) (hleaf : leaf ∈ w.leaves)
    (heq : l.sessionId = leaf.sessionId) : l = leaf :=
  List.inj_on_of_nodup_map h.sessions hl hleaf heq

theorem dropping_of_hasRef (h : p.hasRef = true) : p.dropping = false := by
  cases p <;> first | rfl | cases h

theorem over_of_hasRef (h : p.hasRef = true) : p.over = false := by
  cases p <;> first | rfl | cases h

/-- Where there is a ref, there is a leaf. -/
theorem Kept.exists_holder (h : Kept w) (hheld : ¬ Unheld w digest) :
    ∃ l ∈ w.leaves, l.digest = digest ∧ l.pc.hasRef = true := by
  obtain ⟨sessionId, hsome⟩ := not_forall.mp hheld
  obtain ⟨time, htime⟩ := Option.ne_none_iff_exists'.mp hsome
  obtain ⟨l, hl, hdigest, _, href⟩ := h.owner digest sessionId time htime
  exact ⟨l, hl, hdigest, href⟩

/-- A step that moves no reference keeps the books. -/
theorem Kept.of_quiet (h : Kept w) (here : w.leaves[k]? = some leaf)
    (hleaves : w'.leaves = w.leaves.set k leaf') (hquiet : Quiet w leaf leaf'.pc)
    (hstored : Stored w leaf leaf'.pc w') (hnow : w'.now = w.now) (hrefs : w'.refs = w.refs)
      (hsession : leaf'.sessionId = leaf.sessionId)
    (hdigest : leaf'.digest = leaf.digest) (hborn : leaf'.born = leaf.born) : Kept w' := by
  have hleaf : leaf ∈ w.leaves := List.mem_of_getElem? here
  have hunheld : ∀ d, Unheld w d → Unheld w' d := by
    intro d hd sessionId
    rw [hrefs]
    exact hd sessionId
  have hstep : Step w k leaf leaf' w' := {
    here := here
    leaves := hleaves
    now := hnow
    sessionId := hsession
    digest := hdigest
    born := hborn
    ended := hquiet.ended
    refs := fun key _ => by rw [hrefs]
    ref := by
      intro href
      rw [hquiet.ref] at href
      rw [hrefs]
      exact h.ref leaf hleaf href
    owner := by
      intro time htime
      rw [hrefs] at htime
      obtain ⟨l, hl, _, hsame, href⟩ := h.owner _ _ time htime
      rw [h.eq_of_sessionId hl hleaf hsame] at href
      rw [hquiet.ref]
      exact href
    emptied := fun hdel => hunheld _ (hquiet.emptied hdel)
    others := fun l _ _ _ hl => hunheld _ hl
    caches := hstored.caches
    used := by
      intro hhas
      rcases hstored.used hhas with hhas | hused
      · obtain ⟨l, hl, hl', hused⟩ := h.used _ hhas
        by_cases hne : l = leaf
        · rw [hne, Bool.or_eq_true] at hused
          rcases hused with href | hdrop
          · left
            rw [hquiet.ref, href, Bool.true_or]
          · rcases hquiet.dropping hdrop with hdrop' | hheld
            · left
              rw [hdrop', Bool.or_true]
            · right
              obtain ⟨other, hother, hd, href⟩ := h.exists_holder hheld
              refine ⟨other, hother, ?_, hd, by rw [href, Bool.true_or]⟩
              rintro rfl
              exact absurd hdrop (by rw [dropping_of_hasRef href]; exact Bool.false_ne_true)
        · exact Or.inr ⟨l, hl, hne, hl', hused⟩
      · exact Or.inl hused
    cache := hstored.cache
    still := hstored.still
    links := hstored.links
    link := hstored.link }
  exact h.of_step hstep

/-- Nothing on the disk changes. -/
theorem stored_of_eq (hcaches : w'.caches = w.caches) (hlinks : w'.links = w.links)
    (hcache : q.assured = true → w.caches.has leaf.digest = true) (hrun : q ≠ .running) :
    Stored w leaf q w' where
  caches _ _ := by rw [hcaches]
  used hhas := by
    rw [hcaches] at hhas
    exact Or.inl hhas
  cache hassured := by
    rw [hcaches]
    exact hcache hassured
  still _ _ _ _ _ hhas := by
    rw [hcaches]
    exact hhas
  links _ _ := by rw [hlinks]
  link h := absurd h hrun

/-- Most changes of place. -/
theorem quiet_of_pc (hover : leaf.pc.over = false) (href : q.hasRef = leaf.pc.hasRef)
    (hdel : q.deleting = false) (hdrop : leaf.pc.dropping = true → q.dropping = true) :
    Quiet w leaf q where
  ended _ := hover
  ref := href
  emptied h := by
    rw [hdel] at h
    cases h
  dropping h := Or.inl (hdrop h)

theorem Onward.quiet (h : Kept w) (hlocked : Locked bundle w) (here : w.leaves[k]? = some leaf)
    (hnext : Onward bundle w leaf leaf.pc q) : Quiet w leaf q := by
  generalize hp : leaf.pc = p at hnext
  cases hnext with
  | noDir missing =>
    have hwork := hlocked.working here (by rw [hp]; rfl)
    exact absurd (hwork.dir (Or.inr hp)) missing
  | last empty =>
    exact ⟨fun _ => by rw [hp]; rfl, by rw [hp]; rfl, fun _ => noRefs_iff.mp empty,
      fun _ => Or.inl rfl⟩
  | shared held =>
    refine ⟨fun _ => by rw [hp]; rfl, by rw [hp]; rfl, fun hdel => (by cases hdel), fun _ =>
      Or.inr ?_⟩
    rw [← noRefs_iff, held]
    exact Bool.false_ne_true
  | chmod =>
    exact ⟨fun _ => by rw [hp]; rfl, by rw [hp]; rfl,
      fun _ => h.emptied leaf (List.mem_of_getElem? here) (by rw [hp]; rfl), fun _ => Or.inl rfl⟩
  | _ => exact quiet_of_pc (by rw [hp]; rfl) (by rw [hp]; rfl) rfl (by simp [hp, Pc.dropping])

theorem Onward.assured (hnext : Onward bundle w leaf p q) (h : q.assured = true) :
    w.caches.has leaf.digest = true := by
  cases hnext with
  | hit found => exact found
  | present found => exact found
  | _ => cases h

theorem Onward.not_running (hnext : Onward bundle w leaf p q) : q ≠ .running := by
  cases hnext <;> simp

theorem Takes.quiet (hnext : Takes leaf.pc q) : Quiet w leaf q := by
  generalize hp : leaf.pc = p at hnext
  cases hnext <;>
    exact quiet_of_pc (by rw [hp]; rfl) (by rw [hp]; rfl) rfl (by simp [hp, Pc.dropping])

theorem Sweeps.quiet (hnext : Sweeps leaf.pc q) : Quiet w leaf q := by
  generalize hp : leaf.pc = p at hnext
  cases hnext with
  | acquire =>
    exact quiet_of_pc (by rw [hp]; rfl) (by rw [hp]; rfl) rfl (by simp [hp, Pc.dropping])
  | cleanup => exact quiet_of_pc (by rw [hp]; rfl) (by rw [hp]; rfl) rfl (fun _ => rfl)

theorem Releases.quiet (hnext : Releases leaf.pc q) : Quiet w leaf q := by
  generalize hp : leaf.pc = p at hnext
  cases hnext <;>
    exact quiet_of_pc (by rw [hp]; rfl) (by rw [hp]; rfl) rfl (by simp [hp, Pc.dropping])

theorem Releases.assured (hnext : Releases p q) (h : q.assured = true) : p.assured = true := by
  cases hnext <;> first | rfl | cases h

theorem Kept.sweep_eq (h : Kept w) (digest : String) : w.sweep digest = w := by
  have hfilter : w.refs.filter (fun key time => key.1 ≠ digest || w.now ≤ time + refStale) =
      w.refs := by
    apply OrderedMap.filter_eq_self
    rintro ⟨d, s⟩ time htime
    obtain ⟨l, hl, rfl, rfl, href⟩ := h.owner d s time htime
    obtain ⟨time', htime', hborn⟩ := h.ref l hl href
    cases htime'.symm.trans htime
    have hage := (h.age l hl).2 (over_of_hasRef href)
    rw [Bool.or_eq_true, decide_eq_true_eq, decide_eq_true_eq]
    right
    omega
  unfold World.sweep
  rw [hfilter]

/-- A leaf writes its ref. -/
theorem Kept.write_ref (h : Kept w) (hlocked : Locked bundle w) (here : w.leaves[k]? = some leaf)
    (hpc : leaf.pc = .acquireRef) :
    Kept { w.go k leaf .acquireTest with
      refs := w.refs.set (leaf.digest, leaf.sessionId) w.now } := by
  have hleaf : leaf ∈ w.leaves := List.mem_of_getElem? here
  have hstep : Step w k leaf { leaf with pc := .acquireTest }
      { w.go k leaf .acquireTest with refs := w.refs.set (leaf.digest, leaf.sessionId) w.now } := {
    here := here
    leaves := rfl
    now := rfl
    sessionId := rfl
    digest := rfl
    born := rfl
    ended := fun _ => by rw [hpc]; rfl
    refs := fun key hkey => OrderedMap.get_set_ne hkey
    ref := fun _ => ⟨w.now, OrderedMap.get_set_self, (h.age leaf hleaf).1⟩
    owner := fun _ _ => rfl
    emptied := fun hdel => by cases hdel
    others := by
      -- Another leaf that deletes would hold the lock too.
      intro l hl hne hdel _
      obtain ⟨j, hj⟩ := List.getElem?_of_mem hl
      have hin : l.pc.inside = true := by
        generalize l.pc = p at hdel
        cases p <;> first | rfl | cases hdel
      have hlockl := (hlocked.inside j l hj).mp hin
      have hlock := (hlocked.inside k leaf here).mp (by rw [hpc]; rfl)
      cases hlockl.symm.trans hlock
      exact absurd (Option.some.inj (hj.symm.trans here)) hne
    caches := fun _ _ => rfl
    used := fun _ => Or.inl rfl
    cache := fun hassured => by cases hassured
    still := fun _ _ _ _ _ hhas => hhas
    links := fun _ _ => rfl
    link := fun hrun => by cases hrun }
  exact h.of_step hstep

/-- A leaf drops its ref. -/
theorem Kept.drop_ref (h : Kept w) (here : w.leaves[k]? = some leaf) (hpc : leaf.pc = .cleanupRef) :
    Kept { w.go k leaf .cleanupSweep with
      refs := w.refs.erase (leaf.digest, leaf.sessionId) } := by
  have hstep : Step w k leaf { leaf with pc := .cleanupSweep }
      { w.go k leaf .cleanupSweep with refs := w.refs.erase (leaf.digest, leaf.sessionId) } := {
    here := here
    leaves := rfl
    now := rfl
    sessionId := rfl
    digest := rfl
    born := rfl
    ended := fun _ => by rw [hpc]; rfl
    refs := fun key hkey => OrderedMap.get_erase_ne hkey
    ref := fun href => by cases href
    owner := by
      intro time htime
      rw [OrderedMap.get_erase_self] at htime
      cases htime
    emptied := fun hdel => by cases hdel
    others := by
      intro l _ _ _ hunheld sessionId
      by_cases hkey : (l.digest, sessionId) = (leaf.digest, leaf.sessionId)
      · rw [hkey]
        exact OrderedMap.get_erase_self
      · exact (OrderedMap.get_erase_ne hkey).trans (hunheld sessionId)
    caches := fun _ _ => rfl
    used := fun _ => Or.inl rfl
    cache := fun hassured => by cases hassured
    still := fun _ _ _ _ _ hhas => hhas
    links := fun _ _ => rfl
    link := fun hrun => by cases hrun }
  exact h.of_step hstep

theorem has_set {m : OrderedMap String (List ε)} {d : String} {files : List ε} :
    (m.set digest files).has d = true ↔ d = digest ∨ m.has d = true := by
  unfold OrderedMap.has
  by_cases hd : d = digest
  · rw [hd, OrderedMap.get_set_self]
    simp
  · rw [OrderedMap.get_set_ne hd]
    simp [hd]

/-- A cache without refs is removed. -/
theorem Kept.remove_cache (h : Kept w) (here : w.leaves[k]? = some leaf)
    (hpc : leaf.pc = .cleanupRemove) :
    Kept { w.go k leaf .cleanupRmdir with caches := w.caches.erase leaf.digest } := by
  have hleaf : leaf ∈ w.leaves := List.mem_of_getElem? here
  have hunheld : Unheld w leaf.digest := h.emptied leaf hleaf (by rw [hpc]; rfl)
  have hgone : (w.caches.erase leaf.digest).has leaf.digest = false := by
    rw [OrderedMap.has, OrderedMap.get_erase_self]
    rfl
  have hstep : Step w k leaf { leaf with pc := .cleanupRmdir }
      { w.go k leaf .cleanupRmdir with caches := w.caches.erase leaf.digest } := {
    here := here
    leaves := rfl
    now := rfl
    sessionId := rfl
    digest := rfl
    born := rfl
    ended := fun _ => by rw [hpc]; rfl
    refs := fun _ _ => rfl
    ref := fun href => by cases href
    owner := by
      intro time htime
      cases (hunheld leaf.sessionId).symm.trans htime
    emptied := fun hdel => by cases hdel
    others := fun _ _ _ _ hl => hl
    caches := by
      intro d hd
      unfold OrderedMap.has
      rw [OrderedMap.get_erase_ne hd]
    used := by
      intro hhas
      exact absurd (hgone.symm.trans hhas) (by decide)
    cache := fun hassured => by cases hassured
    still := by
      -- A leaf that was told that the cache is there has a ref.
      intro l hl _ hdigest hassured _
      have href : l.pc.hasRef = true := by
        generalize l.pc = p at hassured
        cases p <;> first | rfl | cases hassured
      obtain ⟨time, htime, _⟩ := h.ref l hl href
      rw [hdigest, hunheld l.sessionId] at htime
      cases htime
    links := fun _ _ => rfl
    link := fun hrun => by cases hrun }
  exact h.of_step hstep

theorem Kept.tick (h : Kept w) {seconds : ℕ} (hguard : undisturbed w (.tick seconds) = true) :
    Kept { w with now := w.now + seconds } := by
  refine ⟨h.sessions, ?_, h.ref, h.owner, h.emptied, h.used, h.cache, h.link⟩
  intro l hl
  have hborn := (h.age l hl).1
  have hl' := List.all_eq_true.mp hguard l hl
  refine ⟨Nat.le_trans hborn (Nat.le_add_right _ _), fun hover => ?_⟩
  rw [hover, Bool.false_or, decide_eq_true_eq] at hl'
  exact hl'

theorem Kept.start (h : Kept w) {sessionId : String} (digest : String)
    (hguard : undisturbed w (.start sessionId digest) = true) :
    Kept { w with leaves := w.leaves ++ [⟨sessionId, digest, w.now, .acquireLock, []⟩] } where
  sessions := by
    rw [List.map_append, List.map_singleton]
    refine h.sessions.append (List.nodup_singleton _) (List.disjoint_singleton.mpr ?_)
    intro hmem
    obtain ⟨l, hl, heq⟩ := List.mem_map.mp hmem
    have hne := List.all_eq_true.mp hguard l hl
    rw [decide_eq_true_eq] at hne
    exact hne heq
  age := forall_mem_concat h.age ⟨Nat.le_refl _, fun _ => Nat.le_add_right _ _⟩
  ref := forall_mem_concat h.ref nofun
  owner d s time htime := by
    obtain ⟨l, hl, hrest⟩ := h.owner d s time htime
    exact ⟨l, List.mem_append_left _ hl, hrest⟩
  emptied := forall_mem_concat h.emptied nofun
  used d hhas := by
    obtain ⟨l, hl, hrest⟩ := h.used d hhas
    exact ⟨l, List.mem_append_left _ hl, hrest⟩
  cache := forall_mem_concat h.cache nofun
  link := forall_mem_concat h.link nofun

/-- INTERNAL: **every command of an undisturbed run keeps all of it.** -/
theorem Kept.move {a : Action} (h : Kept w) (hlocked : Locked bundle w)
    (hguard : undisturbed w a = true) (hmove : Move bundle w a w') : Kept w' := by
  cases hmove with
  | tick seconds => exact h.tick hguard
  | start sessionId digest => exact h.start digest hguard
  | onward here next =>
    exact h.of_quiet here rfl (next.quiet h hlocked here)
      (stored_of_eq rfl rfl next.assured next.not_running) rfl rfl rfl rfl rfl
  | @take _ k leaf q here next free =>
    refine h.of_quiet here rfl next.quiet (stored_of_eq rfl rfl ?_ ?_) rfl rfl rfl rfl rfl
    · intro hassured
      generalize leaf.pc = p at next
      cases next <;> cases hassured
    · generalize leaf.pc = p at next
      cases next <;> simp
  | @release _ k leaf q here next =>
    refine h.of_quiet here rfl next.quiet (stored_of_eq rfl rfl ?_ ?_) rfl rfl rfl rfl rfl
    · intro hassured
      exact h.cache leaf (List.mem_of_getElem? here) (next.assured hassured)
    · generalize leaf.pc = p at next
      cases next <;> simp
  | mkdir here next =>
    exact h.of_quiet here rfl
      (quiet_of_pc (by rw [next]; rfl) (by rw [next]; rfl) rfl (by simp [next, Pc.dropping]))
      (stored_of_eq rfl rfl (fun hassured => by cases hassured) (by simp)) rfl rfl rfl rfl rfl
  | @sweep _ k leaf q here next =>
    rw [h.sweep_eq]
    refine h.of_quiet here rfl next.quiet (stored_of_eq rfl rfl ?_ ?_) rfl rfl rfl rfl rfl
    · intro hassured
      generalize leaf.pc = p at next
      cases next <;> cases hassured
    · generalize leaf.pc = p at next
      cases next <;> simp
  | ref here next dir => exact h.write_ref hlocked here next
  | stage here next =>
    exact h.of_quiet here rfl
      (quiet_of_pc (by rw [next]; rfl) (by rw [next]; rfl) rfl (by simp [next, Pc.dropping]))
      (stored_of_eq rfl rfl (fun hassured => by cases hassured) (by simp)) rfl rfl rfl rfl rfl
  | extract here next held =>
    refine h.of_quiet here rfl
      (quiet_of_pc (by rw [next]; rfl) rfl (by rw [next]; rfl) (fun hdrop => hdrop))
      (stored_of_eq rfl rfl ?_ (by rw [next]; simp)) rfl rfl rfl rfl rfl
    rw [next]
    exact fun hassured => by cases hassured
  | @move _ k leaf here next =>
    refine h.of_quiet here rfl
      (quiet_of_pc (by rw [next]; rfl) (by rw [next]; rfl) rfl (by simp [next, Pc.dropping]))
      ⟨?_, fun _ => Or.inr rfl, fun _ => has_set.mpr (Or.inl rfl),
        fun _ _ _ _ _ _ => has_set.mpr (Or.inl rfl), fun _ _ => rfl, by simp⟩ rfl rfl rfl rfl rfl
    intro d hd
    rw [Bool.eq_iff_iff, has_set]
    simp [hd]
  | @link _ k leaf here next =>
    refine h.of_quiet here rfl
      (quiet_of_pc (by rw [next]; rfl) (by rw [next]; rfl) rfl (by simp [next, Pc.dropping]))
      ⟨fun _ _ => rfl, Or.inl, ?_, fun _ _ _ _ _ hhas => hhas, ?_, fun _ => ?_⟩
      rfl rfl rfl rfl rfl
    · exact fun _ => h.cache leaf (List.mem_of_getElem? here) (by rw [next]; rfl)
    · exact fun s hs => OrderedMap.get_set_ne hs
    · exact OrderedMap.get_set_self
  | @unlink _ k leaf here next =>
    refine h.of_quiet here rfl
      (quiet_of_pc (by rw [next]; rfl) (by rw [next]; rfl) rfl (by simp [next, Pc.dropping]))
      ⟨fun _ _ => rfl, Or.inl, fun hassured => (by cases hassured), fun _ _ _ _ _ hhas => hhas, ?_,
        by simp⟩ rfl rfl rfl rfl rfl
    exact fun s hs => OrderedMap.get_erase_ne hs
  | unref here next => exact h.drop_ref here next
  | @removeFile _ k leaf here next files held i =>
    have hhas : w.caches.has leaf.digest = true := by
      rw [OrderedMap.has, held]
      rfl
    refine h.of_quiet here (set_slot_self here).symm
      ⟨fun hover => hover, rfl, h.emptied leaf (List.mem_of_getElem? here), Or.inl⟩
      ⟨?_, fun _ => Or.inl hhas, fun _ => has_set.mpr (Or.inl rfl),
        fun _ _ _ _ _ _ => has_set.mpr (Or.inl rfl), fun _ _ => rfl,
          by simp [next]⟩ rfl rfl rfl rfl rfl
    intro d hd
    rw [Bool.eq_iff_iff, has_set]
    simp [hd]
  | removeDir here next => exact h.remove_cache here next
  | rmdir here next =>
    exact h.of_quiet here rfl
      (quiet_of_pc (by rw [next]; rfl) (by rw [next]; rfl) rfl (by simp [next, Pc.dropping]))
      (stored_of_eq rfl rfl (fun hassured => by cases hassured) (by simp)) rfl rfl rfl rfl rfl
  | kill here survives => cases hguard

/-! ## Every undisturbed run -/

theorem kept_of_reachable
    (h : Reachable (.ofStep World.initial (guarded undisturbed (step bundle))) w) : Kept w := by
  refine Reachable.invariant (P := Kept) ?_ ?_ h
  · rintro w rfl
    refine ⟨List.nodup_nil, ?_, ?_, ?_, ?_, ?_, ?_, ?_⟩
    all_goals
      intros
      contradiction
  · rintro w w' hw hkept ⟨a, ha⟩
    obtain ⟨hguard, hstep⟩ := guarded_eq_some.mp ha
    exact hkept.move (locked_of_reachable hw.of_guarded) hguard (step_moves hstep)

/-- INTERNAL: **a leaf that runs has its cache**, whole and linked, and a cache that no leaf holds
is not there. -/
theorem overlay_holds
    (h : Reachable (.ofStep World.initial (guarded undisturbed (step bundle))) w) :
    (∀ leaf ∈ w.leaves, leaf.pc = .running →
      w.links.get leaf.sessionId = some leaf.digest ∧
        w.caches.get leaf.digest = some (bundle leaf.digest)) ∧
    ∀ digest, (∀ leaf ∈ w.leaves, leaf.digest = digest → leaf.pc.holding = false) →
      w.caches.get digest = none := by
  classical
  have hkept := kept_of_reachable h
  have hwhole : Whole bundle w := by
    apply whole_of_reachable
    refine h.guarded_mono ?_
    intro w a ha
    cases a with
    | kill k survives => cases ha
    | _ => rfl
  constructor
  · intro leaf hleaf hrun
    refine ⟨hkept.link leaf hleaf hrun, ?_⟩
    obtain ⟨files, hfiles⟩ := Option.isSome_iff_exists.mp
      (hkept.cache leaf hleaf (by rw [hrun]; rfl))
    rcases hwhole leaf.digest files hfiles with heq | ⟨l, hl, hremoves, hdigest⟩
    · rw [hfiles, heq]
    · -- The one who removes the cache found no ref, and there is that of the leaf.
      obtain ⟨time, htime, _⟩ := hkept.ref leaf hleaf (by rw [hrun]; rfl)
      have hunheld := hkept.emptied l hl (by rw [hremoves]; rfl) leaf.sessionId
      rw [hdigest, htime] at hunheld
      cases hunheld
  · intro digest hnone
    cases hget : w.caches.get digest with
    | none => rfl
    | some files =>
      obtain ⟨l, hl, hdigest, hused⟩ := hkept.used digest (by rw [OrderedMap.has, hget]; rfl)
      have hnot := hnone l hl hdigest
      rw [Pc.holding, hused] at hnot
      cases hnot

/-- Two leaves share a digest, and the second runs on when the first is finished. -/
def twoLeaves : List Action :=
  [.start "leaf-1" someDigest, .start "leaf-2" someDigest] ++ List.replicate 17 (.run 0) ++
    List.replicate 7 (.run 1) ++ [.tick 60] ++ List.replicate 7 (.run 0)

/-- One of two leaves with one cache has finished. -/
theorem overlay_holds_shared : ∃ w,
    Reachable (.ofStep World.initial (guarded undisturbed (step twoFiles))) w ∧
      (∃ leaf ∈ w.leaves, leaf.pc = .finished) ∧ (∃ leaf ∈ w.leaves, leaf.pc = .running) ∧
      (∀ leaf ∈ w.leaves, leaf.pc = .running →
        w.links.get leaf.sessionId = some leaf.digest ∧
          w.caches.get leaf.digest = some (twoFiles leaf.digest)) ∧
      ∀ digest, (∀ leaf ∈ w.leaves, leaf.digest = digest → leaf.pc.holding = false) →
        w.caches.get digest = none := by
  have hinit : World.initial emptyPod := rfl
  obtain ⟨w, hw, hrun⟩ : ∃ w,
      Reachable (.ofStep World.initial (guarded undisturbed (step twoFiles))) w ∧
        decide ((∃ leaf ∈ w.leaves, leaf.pc = .finished) ∧ ∃ leaf ∈ w.leaves, leaf.pc = .running) =
          true :=
    exists_reachable_of_runActions hinit twoLeaves _ (by decide +kernel)
  obtain ⟨hfinished, hrunning⟩ := of_decide_eq_true hrun
  exact ⟨w, hw, hfinished, hrunning, overlay_holds hw⟩

end ServerlessHarness.ConfigOverlay
