import ServerlessHarness.Library.Slots
import ServerlessHarness.Model.ConfigOverlay.Scripts

/-!
# What a command does

`Move` says once what the step function can do, command by command; `step_moves` is the inversion.
The commands that only lead on are one kind of move (`Onward`), as are those that take the lock and
those that free it.
-/

set_option autoImplicit false

namespace ServerlessHarness.ConfigOverlay

variable {ε : Type}

/-! ## Moves -/

/-- Commands that change nothing but where the leaf is. -/
inductive Onward (bundle : String → List ε) (w : World ε) (leaf : Leaf ε) : Pc → Pc → Prop where
  | noDir (missing : leaf.digest ∉ w.refsDirs) : Onward bundle w leaf .acquireRef .failing
  | hit (found : w.caches.has leaf.digest = true) :
      Onward bundle w leaf .acquireTest (.acquired true)
  | miss (absent : w.caches.has leaf.digest = false) :
      Onward bundle w leaf .acquireTest (.acquired false)
  | present (found : w.caches.has leaf.digest = true) :
    Onward bundle w leaf .populateTest .populated
  | absent (absent : w.caches.has leaf.digest = false) :
      Onward bundle w leaf .populateTest .populateStage
  | extracted (all : (bundle leaf.digest)[leaf.staging.length]? = none) :
      Onward bundle w leaf .populateExtract .populateScripts
  | scripts : Onward bundle w leaf .populateScripts .populateSeal
  | sealing : Onward bundle w leaf .populateSeal .populateMove
  | broken : Onward bundle w leaf .populateExtract .failing
  | turn : Onward bundle w leaf .running .cleanupUnlink
  | last (empty : w.noRefs leaf.digest = true) : Onward bundle w leaf .cleanupTest .cleanupChmod
  | shared (held : w.noRefs leaf.digest = false) : Onward bundle w leaf .cleanupTest .cleaned
  | chmod : Onward bundle w leaf .cleanupChmod .cleanupRemove

inductive Takes : Pc → Pc → Prop where
  | acquire : Takes .acquireLock .acquireMkdir
  | populate : Takes .populateLock .populateTest
  | cleanup : Takes .cleanupLock .cleanupRef

inductive Releases : Pc → Pc → Prop where
  | hit : Releases (.acquired true) .bindLink
  | miss : Releases (.acquired false) .populateLock
  | populated : Releases .populated .bindLink
  | failing : Releases .failing .cleanupUnlink
  | cleaned : Releases .cleaned .finished

inductive Sweeps : Pc → Pc → Prop where
  | acquire : Sweeps .acquireSweep .acquireRef
  | cleanup : Sweeps .cleanupSweep .cleanupTest

inductive Move (bundle : String → List ε) (w : World ε) : Action → World ε → Prop where
  | tick (seconds : ℕ) : Move bundle w (.tick seconds) { w with now := w.now + seconds }
  | start (sessionId digest : String) : Move bundle w (.start sessionId digest)
      { w with leaves := w.leaves ++ [⟨sessionId, digest, w.now, .acquireLock, []⟩] }
  | onward {a : Action} {k : ℕ} {leaf : Leaf ε} {q : Pc}
      (here : w.leaves[k]? = some leaf) (next : Onward bundle w leaf leaf.pc q) :
      Move bundle w a (w.go k leaf q)
  | take {a : Action} {k : ℕ} {leaf : Leaf ε} {q : Pc}
      (here : w.leaves[k]? = some leaf) (next : Takes leaf.pc q) (free : w.lock = none) :
      Move bundle w a { w.go k leaf q with lock := some k }
  | release {a : Action} {k : ℕ} {leaf : Leaf ε} {q : Pc}
      (here : w.leaves[k]? = some leaf) (next : Releases leaf.pc q) :
      Move bundle w a (w.release k leaf q)
  | mkdir {a : Action} {k : ℕ} {leaf : Leaf ε}
      (here : w.leaves[k]? = some leaf) (next : leaf.pc = .acquireMkdir) :
      Move bundle w a { w.go k leaf .acquireSweep with refsDirs := leaf.digest :: w.refsDirs }
  | sweep {a : Action} {k : ℕ} {leaf : Leaf ε} {q : Pc}
      (here : w.leaves[k]? = some leaf) (next : Sweeps leaf.pc q) :
      Move bundle w a ((w.sweep leaf.digest).go k leaf q)
  | ref {a : Action} {k : ℕ} {leaf : Leaf ε}
      (here : w.leaves[k]? = some leaf) (next : leaf.pc = .acquireRef)
      (dir : leaf.digest ∈ w.refsDirs) :
      Move bundle w a
        { w.go k leaf .acquireTest with refs := w.refs.set (leaf.digest, leaf.sessionId) w.now }
  | stage {a : Action} {k : ℕ} {leaf : Leaf ε}
      (here : w.leaves[k]? = some leaf) (next : leaf.pc = .populateStage) :
      Move bundle w a (w.setLeaf k { leaf with pc := .populateExtract, staging := [] })
  | extract {a : Action} {k : ℕ} {leaf : Leaf ε}
      (here : w.leaves[k]? = some leaf) (next : leaf.pc = .populateExtract) {file : ε}
      (held : (bundle leaf.digest)[leaf.staging.length]? = some file) :
      Move bundle w a (w.setLeaf k { leaf with staging := leaf.staging ++ [file] })
  | move {a : Action} {k : ℕ} {leaf : Leaf ε}
      (here : w.leaves[k]? = some leaf) (next : leaf.pc = .populateMove) :
      Move bundle w a
        { w.go k leaf .populated with caches := w.caches.set leaf.digest leaf.staging }
  | link {a : Action} {k : ℕ} {leaf : Leaf ε}
      (here : w.leaves[k]? = some leaf) (next : leaf.pc = .bindLink) :
      Move bundle w a
        { w.go k leaf .running with links := w.links.set leaf.sessionId leaf.digest }
  | unlink {a : Action} {k : ℕ} {leaf : Leaf ε}
      (here : w.leaves[k]? = some leaf) (next : leaf.pc = .cleanupUnlink) :
      Move bundle w a { w.go k leaf .cleanupLock with links := w.links.erase leaf.sessionId }
  | unref {a : Action} {k : ℕ} {leaf : Leaf ε}
      (here : w.leaves[k]? = some leaf) (next : leaf.pc = .cleanupRef) :
      Move bundle w a
        { w.go k leaf .cleanupSweep with refs := w.refs.erase (leaf.digest, leaf.sessionId) }
  | removeFile {a : Action} {k : ℕ} {leaf : Leaf ε}
      (here : w.leaves[k]? = some leaf) (next : leaf.pc = .cleanupRemove) {files : List ε}
      (held : w.caches.get leaf.digest = some files) (i : ℕ) :
      Move bundle w a { w with caches := w.caches.set leaf.digest (files.eraseIdx i) }
  | removeDir {a : Action} {k : ℕ} {leaf : Leaf ε}
      (here : w.leaves[k]? = some leaf) (next : leaf.pc = .cleanupRemove) :
      Move bundle w a { w.go k leaf .cleanupRmdir with caches := w.caches.erase leaf.digest }
  | rmdir {a : Action} {k : ℕ} {leaf : Leaf ε}
      (here : w.leaves[k]? = some leaf) (next : leaf.pc = .cleanupRmdir) :
      Move bundle w a
        { w.go k leaf .cleaned with
          refsDirs := if w.noRefs leaf.digest then w.refsDirs.filter (· ≠ leaf.digest)
            else w.refsDirs }
  | kill {k : ℕ} {leaf : Leaf ε}
      (here : w.leaves[k]? = some leaf) (survives : Bool) :
      Move bundle w (.kill k survives)
        { w.go k leaf (if survives then leaf.pc.afterKill else .gone) with
          lock := if w.lock = some k then none else w.lock }

variable {bundle : String → List ε} {w w' : World ε} {leaf : Leaf ε} {k j : ℕ} {q : Pc} {a : Action}

theorem take_eq_some (h : w.take k leaf q = some w') :
    w.lock = none ∧ w' = { w.go k leaf q with lock := some k } := by
  unfold World.take at h
  cases hlock : w.lock with
  | some j =>
    rw [hlock] at h
    cases h
  | none =>
    rw [hlock] at h
    cases h
    exact ⟨rfl, rfl⟩

theorem acquire_moves (here : w.leaves[k]? = some leaf) (h : acquire w k leaf leaf.pc = some w') :
    Move bundle w a w' := by
  unfold acquire at h
  split at h
  · rename_i hpc
    obtain ⟨hfree, rfl⟩ := take_eq_some h
    exact .take here (hpc ▸ .acquire) hfree
  · rename_i hpc
    cases h
    exact .mkdir here hpc
  · rename_i hpc
    cases h
    exact .sweep here (hpc ▸ .acquire)
  · rename_i hpc
    split at h
    · rename_i hdir
      cases h
      exact .ref here hpc hdir
    · rename_i hdir
      cases h
      exact .onward here (hpc ▸ .noDir hdir)
  · rename_i hpc
    cases h
    cases hhas : w.caches.has leaf.digest with
    | true => exact .onward here (hpc ▸ .hit hhas)
    | false => exact .onward here (hpc ▸ .miss hhas)
  · rename_i hit hpc
    cases h
    cases hit with
    | true => exact .release here (hpc ▸ .hit)
    | false => exact .release here (hpc ▸ .miss)
  · cases h

theorem populate_moves (here : w.leaves[k]? = some leaf)
    (h : populate bundle w k leaf leaf.pc = some w') : Move bundle w a w' := by
  unfold populate at h
  split at h
  · rename_i hpc
    obtain ⟨hfree, rfl⟩ := take_eq_some h
    exact .take here (hpc ▸ .populate) hfree
  · rename_i hpc
    cases h
    cases hhas : w.caches.has leaf.digest with
    | true => exact .onward here (hpc ▸ .present hhas)
    | false => exact .onward here (hpc ▸ .absent hhas)
  · rename_i hpc
    cases h
    exact .stage here hpc
  · rename_i hpc
    split at h
    · rename_i file hfile
      cases h
      exact .extract here hpc hfile
    · rename_i hall
      cases h
      exact .onward here (hpc ▸ .extracted hall)
  · rename_i hpc
    cases h
    exact .onward here (hpc ▸ .scripts)
  · rename_i hpc
    cases h
    exact .onward here (hpc ▸ .sealing)
  · rename_i hpc
    cases h
    exact .move here hpc
  · rename_i hpc
    cases h
    exact .release here (hpc ▸ .populated)
  · rename_i hpc
    cases h
    exact .release here (hpc ▸ .failing)
  · cases h

theorem cleanup_moves (here : w.leaves[k]? = some leaf) (h : cleanup w k leaf leaf.pc = some w') :
    Move bundle w a w' := by
  unfold cleanup at h
  split at h
  · rename_i hpc
    cases h
    exact .unlink here hpc
  · rename_i hpc
    obtain ⟨hfree, rfl⟩ := take_eq_some h
    exact .take here (hpc ▸ .cleanup) hfree
  · rename_i hpc
    cases h
    exact .unref here hpc
  · rename_i hpc
    cases h
    exact .sweep here (hpc ▸ .cleanup)
  · rename_i hpc
    cases h
    cases hrefs : w.noRefs leaf.digest with
    | true => exact .onward here (hpc ▸ .last hrefs)
    | false => exact .onward here (hpc ▸ .shared hrefs)
  · rename_i hpc
    cases h
    exact .onward here (hpc ▸ .chmod)
  · rename_i hpc
    split at h
    · cases h
      exact .removeDir here hpc
    · cases h
  · rename_i hpc
    cases h
    exact .rmdir here hpc
  · rename_i hpc
    cases h
    exact .release here (hpc ▸ .cleaned)
  · cases h

theorem execute_moves (here : w.leaves[k]? = some leaf)
    (h : execute bundle w k leaf leaf.pc = some w') : Move bundle w a w' := by
  unfold execute at h
  split at h
  · rename_i hpc
    cases h
    exact .link here hpc
  · rename_i hpc
    cases h
    exact .onward here (hpc ▸ .turn)
  · rcases Option.or_eq_some_iff.mp h with h | ⟨_, h⟩
    · rcases Option.or_eq_some_iff.mp h with h | ⟨_, h⟩
      · exact acquire_moves here h
      · exact populate_moves here h
    · exact cleanup_moves here h

/-- INTERNAL: **everything a step can do.** -/
theorem step_moves (h : step bundle w a = some w') : Move bundle w a w' := by
  cases a with
  | tick seconds =>
    cases h
    exact .tick seconds
  | start sessionId digest =>
    rw [step] at h
    split at h
    · cases h
      exact .start sessionId digest
    · cases h
  | run k =>
    obtain ⟨leaf, here, h⟩ := Option.bind_eq_some_iff.mp h
    exact execute_moves here h
  | remove k i =>
    obtain ⟨leaf, here, h⟩ := Option.bind_eq_some_iff.mp h
    split at h
    · rename_i hpc
      obtain ⟨files, hfiles, h⟩ := Option.bind_eq_some_iff.mp h
      split at h
      · cases h
        exact .removeFile here hpc hfiles i
      · cases h
    · cases h
  | fail k =>
    obtain ⟨leaf, here, h⟩ := Option.bind_eq_some_iff.mp h
    split at h
    · rename_i hpc
      cases h
      exact .onward here (hpc ▸ .broken)
    · cases h
  | kill k survives =>
    obtain ⟨leaf, here, h⟩ := Option.bind_eq_some_iff.mp h
    split at h
    · cases h
    · cases h
      exact .kill here survives

end ServerlessHarness.ConfigOverlay
