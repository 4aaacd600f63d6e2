import ServerlessHarness.Interface.ConfigOverlay.Moves

/-!
# Under the lock

What holds in every run, with scripts killed at any command: a leaf is between `flock` and the end
of its subshell exactly if it holds the lock, and what the holder found is still so (`Working`),
since only the holder changes the caches and the directories of refs. A staged tree is whole when
it is moved.
-/

set_option autoImplicit false

namespace ServerlessHarness.ConfigOverlay

open Library

variable {ε : Type} {bundle : String → List ε} {w w' : World ε} {leaf leaf' : Leaf ε} {k j : ℕ}
  {p q : Pc}

/-- Between `flock` and the end of the subshell. -/
def Pc.inside : Pc → Bool
  | .acquireLock => false
  | .populateLock => false
  | .bindLink => false
  | .running => false
  | .cleanupUnlink => false
  | .cleanupLock => false
  | .finished => false
  | .gone => false
  | _ => true

/-- Between the test of `populate` and its `mv`. -/
def Pc.stages : Pc → Bool
  | .populateStage => true
  | .populateExtract => true
  | .populateScripts => true
  | .populateSeal => true
  | .populateMove => true
  | _ => false

/-- After the archive was extracted. -/
def Pc.staged : Pc → Bool
  | .populateScripts => true
  | .populateSeal => true
  | .populateMove => true
  | _ => false

/-- What the holder of the lock may rely on. -/
structure Working (bundle : String → List ε) (w : World ε) (leaf : Leaf ε) : Prop where
  dir : leaf.pc = .acquireSweep ∨ leaf.pc = .acquireRef → leaf.digest ∈ w.refsDirs
  absent : leaf.pc.stages = true → w.caches.get leaf.digest = none
  partway : leaf.pc = .populateExtract →
    leaf.staging = (bundle leaf.digest).take leaf.staging.length
  staged : leaf.pc.staged = true → leaf.staging = bundle leaf.digest

structure Locked (bundle : String → List ε) (w : World ε) : Prop where
  inside : ∀ k leaf, w.leaves[k]? = some leaf → (leaf.pc.inside = true ↔ w.lock = some k)
  holder : ∀ k, w.lock = some k → ∃ leaf, w.leaves[k]? = some leaf ∧ Working bundle w leaf

/-- At most places there is nothing to rely on. -/
theorem working_of_pc (hdir : leaf.pc ≠ .acquireSweep ∧ leaf.pc ≠ .acquireRef)
    (hstages : leaf.pc.stages = false) : Working bundle w leaf where
  dir h := by
    rcases h with h | h
    · exact absurd h hdir.1
    · exact absurd h hdir.2
  absent h := by
    rw [hstages] at h
    cases h
  partway h := by
    rw [h] at hstages
    cases hstages
  staged h := by
    have hsub : ∀ p : Pc, p.staged = true → p.stages = true := by
      intro p hp
      cases p <;> first | rfl | cases hp
    rw [hsub _ h] at hstages
    cases hstages

theorem Working.congr (h : Working bundle w leaf) (hcaches : w'.caches = w.caches)
    (hdirs : w'.refsDirs = w.refsDirs) : Working bundle w' leaf where
  dir hp := by
    rw [hdirs]
    exact h.dir hp
  absent hp := by
    rw [hcaches]
    exact h.absent hp
  partway := h.partway
  staged := h.staged

/-! ## One leaf moves -/

theorem Locked.of_inside (h : Locked bundle w) (here : w.leaves[k]? = some leaf)
    (hin : leaf.pc.inside = true) (hin' : leaf'.pc.inside = true)
    (hleaves : w'.leaves = w.leaves.set k leaf') (hlock : w'.lock = w.lock)
    (hwork : Working bundle w' leaf') : Locked bundle w' where
  inside j l hl := by
    rw [hleaves] at hl
    rw [hlock]
    rcases slot_of_set hl with ⟨rfl, rfl⟩ | ⟨_, hl⟩
    · exact iff_of_true hin' ((h.inside k leaf here).mp hin)
    · exact h.inside j l hl
  holder j hj := by
    rw [hlock, (h.inside k leaf here).mp hin] at hj
    cases hj
    exact ⟨leaf', by rw [hleaves]; exact slot_set_self here, hwork⟩

/-- A leaf without the lock leaves the holder alone. -/
theorem Locked.of_outside (h : Locked bundle w) (here : w.leaves[k]? = some leaf)
    (hout : leaf.pc.inside = false) (hout' : leaf'.pc.inside = false)
    (hleaves : w'.leaves = w.leaves.set k leaf') (hlock : w'.lock = w.lock)
    (hcaches : w'.caches = w.caches) (hdirs : w'.refsDirs = w.refsDirs) : Locked bundle w' where
  inside j l hl := by
    rw [hleaves] at hl
    rw [hlock]
    rcases slot_of_set hl with ⟨rfl, rfl⟩ | ⟨_, hl⟩
    · rw [hout', ← h.inside k leaf here, hout]
    · exact h.inside j l hl
  holder j hj := by
    rw [hlock] at hj
    obtain ⟨l, hl, hwork⟩ := h.holder j hj
    have hne : k ≠ j := by
      rintro rfl
      rw [← h.inside k leaf here, hout] at hj
      cases hj
    refine ⟨l, ?_, hwork.congr hcaches hdirs⟩
    rw [hleaves, List.getElem?_set_ne hne]
    exact hl

theorem Locked.of_take (h : Locked bundle w) (hfree : w.lock = none)
    (here : w.leaves[k]? = some leaf) (hin' : leaf'.pc.inside = true)
    (hleaves : w'.leaves = w.leaves.set k leaf') (hlock : w'.lock = some k)
    (hwork : Working bundle w' leaf') : Locked bundle w' where
  inside j l hl := by
    rw [hleaves] at hl
    rw [hlock]
    rcases slot_of_set hl with ⟨rfl, rfl⟩ | ⟨hne, hl⟩
    · exact iff_of_true hin' rfl
    · rw [h.inside j l hl, hfree]
      simp [hne]
  holder j hj := by
    rw [hlock] at hj
    cases hj
    exact ⟨leaf', by rw [hleaves]; exact slot_set_self here, hwork⟩

/-- The holder's script ends, or is killed. -/
theorem Locked.of_release (h : Locked bundle w) (here : w.leaves[k]? = some leaf)
    (hin : leaf.pc.inside = true) (hout' : leaf'.pc.inside = false)
    (hleaves : w'.leaves = w.leaves.set k leaf') (hlock : w'.lock = none) : Locked bundle w' where
  inside j l hl := by
    rw [hleaves] at hl
    rw [hlock]
    rcases slot_of_set hl with ⟨rfl, rfl⟩ | ⟨hne, hl⟩
    · rw [hout']
      simp
    · rw [h.inside j l hl, (h.inside k leaf here).mp hin]
      simp [hne]
  holder j hj := by
    rw [hlock] at hj
    cases hj

/-! ## Every run -/

theorem Onward.inside_eq (h : Onward bundle w leaf p q) : p.inside = q.inside := by
  cases h <;> rfl

theorem Onward.working (h : Onward bundle w leaf leaf.pc q) (hwork : Working bundle w leaf) :
    Working bundle w { leaf with pc := q } := by
  generalize hp : leaf.pc = p at h
  cases h with
  | absent habsent =>
    refine ⟨by simp, fun _ => ?_, by simp, by simp [Pc.staged]⟩
    rw [OrderedMap.has, Option.isSome_eq_false_iff, Option.isNone_iff_eq_none] at habsent
    exact habsent
  | extracted hall =>
    have hpart := hwork.partway hp
    refine ⟨by simp, fun _ => hwork.absent (by rw [hp]; rfl), by simp, fun _ => ?_⟩
    rw [List.getElem?_eq_none_iff] at hall
    rw [List.take_of_length_le hall] at hpart
    exact hpart
  | scripts | sealing =>
    exact ⟨by simp, fun _ => hwork.absent (by rw [hp]; rfl), by simp,
      fun _ => hwork.staged (by rw [hp]; rfl)⟩
  | _ => exact working_of_pc ⟨by simp, by simp⟩ rfl

theorem afterKill_outside (p : Pc) (survives : Bool) :
    (if survives then p.afterKill else .gone).inside = false := by
  cases survives with
  | false => rfl
  | true => cases p <;> rfl

theorem Takes.inside (h : Takes p q) : q.inside = true ∧ q.stages = false ∧
    q ≠ .acquireSweep ∧ q ≠ .acquireRef := by
  cases h <;> decide

theorem Releases.inside (h : Releases p q) : p.inside = true ∧ q.inside = false := by
  cases h <;> decide

theorem Sweeps.inside (h : Sweeps p q) : p.inside = true ∧ q.inside = true := by
  cases h <;> decide

theorem Sweeps.working (h : Sweeps leaf.pc q) (hwork : Working bundle w leaf) :
    Working bundle w { leaf with pc := q } := by
  generalize hp : leaf.pc = p at h
  cases h with
  | acquire =>
    exact ⟨fun _ => hwork.dir (Or.inl hp), by simp [Pc.stages], by simp, by simp [Pc.staged]⟩
  | cleanup => exact working_of_pc ⟨by simp, by simp⟩ rfl

/-- The one who is inside works. -/
theorem Locked.working (h : Locked bundle w) (here : w.leaves[k]? = some leaf)
    (hin : leaf.pc.inside = true) : Working bundle w leaf := by
  obtain ⟨l, hl, hwork⟩ := h.holder k ((h.inside k leaf here).mp hin)
  cases here.symm.trans hl
  exact hwork

theorem Locked.start (h : Locked bundle w) (hout : leaf.pc.inside = false) :
    Locked bundle { w with leaves := w.leaves ++ [leaf] } where
  inside j l hl := by
    rcases slot_of_append hl with hl | ⟨rfl, rfl⟩
    · exact h.inside j l hl
    · rw [hout]
      refine iff_of_false Bool.false_ne_true ?_
      intro hlock
      obtain ⟨l, hl, _⟩ := h.holder _ hlock
      exact absurd (lt_of_slot hl) (Nat.lt_irrefl _)
  holder j hj := by
    obtain ⟨l, hl, hwork⟩ := h.holder j hj
    exact ⟨l, slot_append hl _, hwork.congr rfl rfl⟩

/-- INTERNAL: **every command keeps what the holder relies on.** -/
theorem Locked.move (h : Locked bundle w) {a : Action} (hmove : Move bundle w a w') :
    Locked bundle w' := by
  cases hmove with
  | tick seconds =>
    refine ⟨h.inside, fun k hk => ?_⟩
    obtain ⟨l, hl, hwork⟩ := h.holder k hk
    exact ⟨l, hl, hwork.congr rfl rfl⟩
  | start sessionId digest => exact h.start rfl
  | @onward _ k leaf q here next =>
    cases hin : leaf.pc.inside with
    | true =>
      exact h.of_inside here hin (next.inside_eq ▸ hin) rfl rfl
        ((next.working (h.working here hin)).congr rfl rfl)
    | false => exact h.of_outside here hin (next.inside_eq ▸ hin) rfl rfl rfl rfl
  | take here next free =>
    obtain ⟨hin, hstages, hdir⟩ := next.inside
    exact h.of_take free here hin rfl rfl (working_of_pc hdir hstages)
  | release here next => exact h.of_release here next.inside.1 next.inside.2 rfl rfl
  | mkdir here next =>
    exact h.of_inside here (by rw [next]; rfl) rfl rfl rfl
      ⟨fun _ => List.mem_cons_self, by simp [Pc.stages], by simp, by simp [Pc.staged]⟩
  | sweep here next =>
    exact h.of_inside here next.inside.1 next.inside.2 rfl rfl
      ((next.working (h.working here next.inside.1)).congr rfl rfl)
  | ref here next dir =>
    exact h.of_inside here (by rw [next]; rfl) rfl rfl rfl (working_of_pc (by simp) rfl)
  | stage here next =>
    have hwork := h.working here (by rw [next]; rfl)
    refine h.of_inside here (by rw [next]; rfl) rfl rfl rfl
      ⟨by simp, fun _ => hwork.absent (by rw [next]; rfl), fun _ => rfl, by simp [Pc.staged]⟩
  | extract here next held =>
    have hwork := h.working here (by rw [next]; rfl)
    refine h.of_inside here (by rw [next]; rfl) (by rw [next]; rfl) rfl rfl
      ⟨?_, fun _ => hwork.absent (by rw [next]; rfl), fun _ => ?_, ?_⟩
    · rw [next]
      simp
    · have hpart := hwork.partway next
      rw [List.length_append, List.length_singleton, List.take_add_one, held, ← hpart]
      rfl
    · rw [next]
      simp [Pc.staged]
  | move here next =>
    exact h.of_inside here (by rw [next]; rfl) rfl rfl rfl (working_of_pc (by simp) rfl)
  | link here next => exact h.of_outside here (by rw [next]; rfl) rfl rfl rfl rfl rfl
  | unlink here next => exact h.of_outside here (by rw [next]; rfl) rfl rfl rfl rfl rfl
  | unref here next =>
    exact h.of_inside here (by rw [next]; rfl) rfl rfl rfl (working_of_pc (by simp) rfl)
  | removeFile here next held i =>
    exact h.of_inside here (by rw [next]; rfl) (by rw [next]; rfl) (set_slot_self here).symm rfl
      (working_of_pc (by rw [next]; simp) (by rw [next]; rfl))
  | removeDir here next =>
    exact h.of_inside here (by rw [next]; rfl) rfl rfl rfl (working_of_pc (by simp) rfl)
  | rmdir here next =>
    exact h.of_inside here (by rw [next]; rfl) rfl rfl rfl (working_of_pc (by simp) rfl)
  | @kill k leaf here survives =>
    cases hin : leaf.pc.inside with
    | true =>
      exact h.of_release here hin (afterKill_outside leaf.pc survives) rfl
        (if_pos ((h.inside k leaf here).mp hin))
    | false =>
      have hlock : w.lock ≠ some k := by
        rw [Ne, ← h.inside k leaf here, hin]
        exact Bool.false_ne_true
      exact h.of_outside here hin (afterKill_outside leaf.pc survives) rfl (if_neg hlock) rfl rfl

/-- The lock is that of the leaf inside a script. -/
theorem locked_of_reachable (h : Reachable (.ofStep World.initial (step bundle)) w) :
    Locked bundle w := by
  refine Reachable.invariant (P := Locked bundle) ?_ ?_ h
  · rintro w rfl
    refine ⟨?_, ?_⟩
    · intro k leaf hleaf
      cases hleaf
    · intro k hk
      cases hk
  · rintro w w' _ hw ⟨a, ha⟩
    exact hw.move (step_moves ha)

end ServerlessHarness.ConfigOverlay
