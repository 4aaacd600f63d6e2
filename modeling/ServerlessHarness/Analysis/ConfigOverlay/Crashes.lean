import ServerlessHarness.Interface.ConfigOverlay.Locked

/-!
# Scripts that are killed

`populate` stages the cache and gives it its name with one `mv`, so that it may be killed anywhere.
`cleanup` removes the cache where it stands: a cleanup that is killed in the middle of `rm -rf
"$DIR"` leaves a part of the cache behind, with the lock free (`killed_cleanup_leaves_part`). That
is the only way: `caches_whole_when_free`.
-/

set_option autoImplicit false

namespace ServerlessHarness.ConfigOverlay

open Library

variable {ε : Type} {bundle : String → List ε} {w w' : World ε} {leaf leaf' : Leaf ε} {k : ℕ}

/-- `rm -rf "$DIR"` has taken a file away, and the directory is still there. -/
def partlyRemoved [DecidableEq ε] (bundle : String → List ε) (w : World ε) (leaf : Leaf ε) : Bool :=
  leaf.pc = .cleanupRemove && w.caches.has leaf.digest &&
    w.caches.get leaf.digest ≠ some (bundle leaf.digest)

/-- No script is killed in the middle of `rm -rf "$DIR"`. -/
def removesWhole [DecidableEq ε] (bundle : String → List ε) (w : World ε) : Action → Bool
  | .kill k _ => (w.leaves[k]?).all fun leaf => !partlyRemoved bundle w leaf
  | _ => true

/-- A cache is whole, or the holder of the lock is removing it. -/
def Whole (bundle : String → List ε) (w : World ε) : Prop :=
  ∀ digest files, w.caches.get digest = some files → files = bundle digest ∨
    ∃ leaf ∈ w.leaves, leaf.pc = .cleanupRemove ∧ leaf.digest = digest

/-! ## One leaf moves -/

/-- Another leaf is where it was. -/
theorem mem_set_of_ne (here : w.leaves[k]? = some leaf) {l : Leaf ε} (hl : l ∈ w.leaves)
    (hne : l ≠ leaf) : l ∈ w.leaves.set k leaf' := by
  obtain ⟨j, hj⟩ := List.getElem?_of_mem hl
  have hkj : k ≠ j := by
    rintro rfl
    exact hne (Option.some.inj (hj.symm.trans here))
  apply List.mem_of_getElem? (i := j)
  rw [List.getElem?_set_ne hkj]
  exact hj

/-- A leaf that removes nothing goes on. -/
theorem Whole.of_set (h : Whole bundle w) (here : w.leaves[k]? = some leaf)
    (hpc : leaf.pc ≠ .cleanupRemove) (hleaves : w'.leaves = w.leaves.set k leaf')
    (hcaches : w'.caches = w.caches) : Whole bundle w' := by
  intro digest files hfiles
  rw [hcaches] at hfiles
  rcases h digest files hfiles with hwhole | ⟨l, hl, hremoves, hdigest⟩
  · exact Or.inl hwhole
  · right
    refine ⟨l, ?_, hremoves, hdigest⟩
    rw [hleaves]
    apply mem_set_of_ne here hl
    rintro rfl
    exact hpc hremoves

theorem Onward.removes_nothing {p q : Pc} (h : Onward bundle w leaf p q) : p ≠ .cleanupRemove := by
  cases h <;> simp

/-- INTERNAL: **every command keeps the caches whole**, if none is killed in the middle of
removing. -/
theorem Whole.move [DecidableEq ε] {a : Action} (h : Whole bundle w) (hlocked : Locked bundle w)
    (hguard : removesWhole bundle w a = true) (hmove : Move bundle w a w') : Whole bundle w' := by
  cases hmove with
  | tick seconds => exact h
  | start sessionId digest =>
    intro digest files hfiles
    rcases h digest files hfiles with hwhole | ⟨l, hl, hremoves⟩
    · exact Or.inl hwhole
    · exact Or.inr ⟨l, List.mem_append_left _ hl, hremoves⟩
  | onward here next => exact h.of_set here next.removes_nothing rfl rfl
  | @take _ k leaf q here next free =>
    refine h.of_set here ?_ rfl rfl
    generalize leaf.pc = p at next
    cases next <;> simp
  | @release _ k leaf q here next =>
    refine h.of_set here ?_ rfl rfl
    generalize leaf.pc = p at next
    cases next <;> simp
  | mkdir here next => exact h.of_set here (by simp [next]) rfl rfl
  | @sweep _ k leaf q here next =>
    refine h.of_set here ?_ rfl rfl
    generalize leaf.pc = p at next
    cases next <;> simp
  | ref here next dir => exact h.of_set here (by simp [next]) rfl rfl
  | stage here next => exact h.of_set here (by simp [next]) rfl rfl
  | extract here next held => exact h.of_set here (by simp [next]) rfl rfl
  | @move _ k leaf here next =>
    have hstaged := (hlocked.working here (by rw [next]; rfl)).staged (by rw [next]; rfl)
    intro digest files hfiles
    by_cases hdigest : digest = leaf.digest
    · left
      rw [hdigest, OrderedMap.get_set_self, hstaged] at hfiles
      rw [hdigest]
      exact (Option.some.inj hfiles).symm
    · rw [OrderedMap.get_set_ne hdigest] at hfiles
      rcases h digest files hfiles with hwhole | ⟨l, hl, hremoves, hl'⟩
      · exact Or.inl hwhole
      · refine Or.inr ⟨l, mem_set_of_ne here hl ?_, hremoves, hl'⟩
        rintro rfl
        exact hdigest hl'.symm
  | link here next => exact h.of_set here (by simp [next]) rfl rfl
  | unlink here next => exact h.of_set here (by simp [next]) rfl rfl
  | unref here next => exact h.of_set here (by simp [next]) rfl rfl
  | @removeFile _ k leaf here next files held i =>
    intro digest files hfiles
    by_cases hdigest : digest = leaf.digest
    · exact Or.inr ⟨leaf, List.mem_of_getElem? here, next, hdigest.symm⟩
    · rw [OrderedMap.get_set_ne hdigest] at hfiles
      exact h digest files hfiles
  | @removeDir _ k leaf here next =>
    intro digest files hfiles
    obtain ⟨hdigest, hfiles⟩ := OrderedMap.get_erase_eq_some hfiles
    rcases h digest files hfiles with hwhole | ⟨l, hl, hremoves, hl'⟩
    · exact Or.inl hwhole
    · refine Or.inr ⟨l, mem_set_of_ne here hl ?_, hremoves, hl'⟩
      rintro rfl
      exact hdigest hl'.symm
  | rmdir here next => exact h.of_set here (by simp [next]) rfl rfl
  | @kill k leaf here survives =>
    by_cases hpc : leaf.pc = .cleanupRemove
    · intro digest files hfiles
      by_cases hdigest : digest = leaf.digest
      · left
        have hnot : partlyRemoved bundle w leaf = false := by
          rw [removesWhole, here] at hguard
          simpa using hguard
        have hget : w.caches.get leaf.digest = some files := by
          rw [← hdigest]
          exact hfiles
        simp [partlyRemoved, hpc, OrderedMap.has, hget] at hnot
        rw [hdigest]
        exact hnot
      · rcases h digest files hfiles with hwhole | ⟨l, hl, hremoves, hl'⟩
        · exact Or.inl hwhole
        · refine Or.inr ⟨l, mem_set_of_ne here hl ?_, hremoves, hl'⟩
          rintro rfl
          exact hdigest hl'.symm
    · exact h.of_set here hpc rfl rfl

/-! ## Every run -/

/-- Caches that are removed in one piece are whole. -/
theorem whole_of_reachable [DecidableEq ε]
    (h : Reachable (.ofStep World.initial (guarded (removesWhole bundle) (step bundle))) w) :
    Whole bundle w := by
  refine Reachable.invariant (P := Whole bundle) ?_ ?_ h
  · rintro w rfl digest files hfiles
    cases hfiles
  · rintro w w' hw hwhole ⟨a, ha⟩
    obtain ⟨hguard, hstep⟩ := guarded_eq_some.mp ha
    exact hwhole.move (locked_of_reachable hw.of_guarded) hguard (step_moves hstep)

/-- INTERNAL: **when the lock is free, a cache is whole or not there**, in every run in which no
script is killed in the middle of `rm -rf "$DIR"`. -/
theorem caches_whole_when_free [DecidableEq ε]
    (h : Reachable (.ofStep World.initial (guarded (removesWhole bundle) (step bundle))) w)
    (hfree : w.lock = none) (digest : String) :
    w.caches.get digest = none ∨ w.caches.get digest = some (bundle digest) := by
  cases hget : w.caches.get digest with
  | none => exact Or.inl rfl
  | some files =>
    rcases whole_of_reachable h digest files hget with hwhole | ⟨l, hl, hremoves, _⟩
    · right
      rw [hwhole]
    · obtain ⟨j, hj⟩ := List.getElem?_of_mem hl
      have hlock := ((locked_of_reachable h.of_guarded).inside j l hj).mp (by rw [hremoves]; rfl)
      rw [hfree] at hlock
      cases hlock

/-! ## A cleanup that is killed -/

def someDigest : String :=
  "sha256:0000000000000000000000000000000000000000000000000000000000000000"

/-- A bundle of two files. -/
def twoFiles (_ : String) : List String := ["lockfile.json", "skills/notes/SKILL.md"]

/-- A leaf from its start to its turn. -/
def toRunning : List Action := .start "leaf-1" someDigest :: List.replicate 17 (.run 0)

/-- From the turn to `rm -rf "$DIR"`. -/
def toRemove : List Action := List.replicate 7 (.run 0)

def emptyPod : World String :=
  ⟨0, none, OrderedMap.empty, [], OrderedMap.empty, OrderedMap.empty, []⟩

/-- A cache in use is whole. -/
theorem caches_whole_while_running : ∃ w,
    Reachable (.ofStep World.initial (guarded (removesWhole twoFiles) (step twoFiles))) w ∧
      w.lock = none ∧ w.caches.has someDigest = true ∧
      (w.caches.get someDigest = none ∨ w.caches.get someDigest = some (twoFiles someDigest)) := by
  have hinit : World.initial emptyPod := rfl
  obtain ⟨w, hw, hrun⟩ : ∃ w,
      Reachable (.ofStep World.initial (guarded (removesWhole twoFiles) (step twoFiles))) w ∧
        decide (w.lock = none ∧ w.caches.has someDigest = true) = true :=
    exists_reachable_of_runActions hinit toRunning _ (by decide +kernel)
  obtain ⟨hlock, hhas⟩ := of_decide_eq_true hrun
  exact ⟨w, hw, hlock, hhas, caches_whole_when_free hw hlock someDigest⟩

/-- The cleanup of the only leaf is killed after it removed one of the two files: the lock is free,
and the next leaf will find the directory. -/
theorem killed_cleanup_leaves_part : ∃ w,
    Reachable (.ofStep World.initial (step twoFiles)) w ∧ w.lock = none ∧
      ¬ (w.caches.get someDigest = none ∨
        w.caches.get someDigest = some (twoFiles someDigest)) := by
  have hinit : World.initial emptyPod := rfl
  obtain ⟨w, hw, hrun⟩ : ∃ w, Reachable (.ofStep World.initial (step twoFiles)) w ∧
      decide (w.lock = none ∧ w.caches.get someDigest = some ["skills/notes/SKILL.md"]) = true :=
    exists_reachable_of_runActions hinit (toRunning ++ toRemove ++ [.remove 0 0, .kill 0 false]) _
      (by decide +kernel)
  obtain ⟨hlock, hget⟩ := of_decide_eq_true hrun
  refine ⟨w, hw, hlock, ?_⟩
  rw [hget]
  decide

end ServerlessHarness.ConfigOverlay
