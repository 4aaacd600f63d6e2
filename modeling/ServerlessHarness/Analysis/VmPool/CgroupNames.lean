import ServerlessHarness.Analysis.VmPool.Names
import ServerlessHarness.Library.Crew
import ServerlessHarness.Library.Histories
import ServerlessHarness.Model.VmPool.CgroupPool

/-!
# A cgroup has one holder

The counter `issued` never goes back, so each name is minted once. From then on it is in one place:
with the goroutine that creates it or holds it or releases it, or on the free list, or nowhere any
more (`CgroupSys.Kept`). The lock is given up in between, but what it guards is only the list and
the counter: a name that was popped is with nobody else.
-/

set_option autoImplicit false

namespace ServerlessHarness.VmPool

open Library

/-- The name that the goroutine creates, holds or releases. -/
def HolderPc.owned : HolderPc → List SlashPath
  | .stat rel | .mkdir rel | .write rel | .holding rel | .releaseStat rel | .readProcs rel | .push
    rel => [rel]
  | _ => []

/-- The name that the goroutine has, if it is one that the pool has bounded. -/
def HolderPc.bounded : HolderPc → List SlashPath
  | .stat rel | .holding rel | .releaseStat rel | .readProcs rel | .push rel => [rel]
  | _ => []

/-- `memory.max` was written since the pool last created the directory. -/
def Bounded (log : List CgroupEvent) (rel : SlashPath) : Prop :=
  Since log (.wrote rel) (.created rel)

/-- What was right at the time of an event: a minted name is new, and a name that is handed out is
bounded. -/
def CgroupEvent.Ok (before : List CgroupEvent) : CgroupEvent → Prop
  | .minted rel => .minted rel ∉ before ∧ .handed rel ∉ before
  | .handed rel => Bounded before rel
  | _ => True

/-- The invariant of the pool: every name is in one place, was minted with a number below `issued`,
and is bounded unless a goroutine is still creating it. -/
structure CgroupSys.Kept (s : CgroupSys) : Prop where
  nodup : (s.pool.free ++ s.holders.flatMap HolderPc.owned).Nodup
  issued : ∀ rel ∈ s.pool.free ++ s.holders.flatMap HolderPc.owned, ∃ k < s.pool.issued,
    rel = s.pool.name k
  logged : ∀ rel, .minted rel ∈ s.log ∨ .handed rel ∈ s.log → ∃ k < s.pool.issued,
    rel = s.pool.name k
  bounded : ∀ rel ∈ s.pool.free ++ s.holders.flatMap HolderPc.bounded, Bounded s.log rel
  justified : Justified CgroupEvent.Ok s.log

theorem pooledName_ordinary (n : Nat) : SlashPath.Ordinary (pooledCgroupPrefix ++ toString n) := by
  have hlist : (pooledCgroupPrefix ++ toString n).toList =
      'p' :: ("ool-".toList ++ n.repr.toList) := by
    simp [pooledCgroupPrefix]
  refine ordinary_of_head hlist (by decide) ?_
  rw [hlist]
  intro hslash
  rcases List.mem_cons.mp hslash with hslash | hslash
  · exact absurd hslash (by decide)
  · rcases List.mem_append.mp hslash with hslash | hslash
    · exact absurd hslash (by decide)
    · exact noSlash_repr n hslash

theorem cgroupName_inj (p : CgroupPool) {j k : Nat} (h : p.name j = p.name k) : j = k := by
  have hstring := (SlashPath.join_inj (pooledName_ordinary j) (pooledName_ordinary k)).mp h
  have hlist := congrArg String.toList hstring
  rw [String.toList_append, String.toList_append] at hlist
  have hdigits : Nat.toDigits 10 j = Nat.toDigits 10 k := by
    rw [← Nat.toList_repr, ← Nat.toList_repr]
    exact List.append_cancel_left hlist
  have hvalue := congrArg (fun ds => Nat.ofDigitChars 10 ds 0) hdigits
  rwa [Nat.ofDigitChars_ten_toDigits, Nat.ofDigitChars_ten_toDigits] at hvalue

/-! ## One step -/

/-- What a step of a holder does: it takes a name from the free list or mints one, it hands one
out, it creates a directory, it puts a name back, or it moves on, with its name or without it. -/
inductive HolderMove (p : CgroupPool) : HolderPc → CgroupPool → List CgroupEvent → HolderPc →
  Prop where
  | pop {rel : SlashPath} {rest : List SlashPath} (h : p.free = rest ++ [rel]) :
      HolderMove p .acquire { p with free := rest } [] (.stat rel)
  | mint (h : p.free = []) :
      HolderMove p .acquire { p with issued := p.issued + 1 } [.minted (p.name p.issued)]
        (.mkdir (p.name p.issued))
  | reuse {rel : SlashPath} : HolderMove p (.stat rel) p [.handed rel] (.holding rel)
  | create {rel : SlashPath} : HolderMove p (.mkdir rel) p [.created rel] (.write rel)
  | bound {rel : SlashPath} : HolderMove p (.write rel) p [.wrote rel, .handed rel] (.holding rel)
  | push {rel : SlashPath} : HolderMove p (.push rel) { p with free := p.free ++ [rel] }
    [] .released
  | keep {pc pc' : HolderPc} {n : Nat} (howned : pc'.owned.Sublist pc.owned)
      (hbounded : pc'.bounded.Sublist pc.bounded) : HolderMove p pc { p with leaked := n } [] pc'

variable {p : CgroupPool}

/-- INTERNAL: **what a step of a holder can do**. -/
theorem holderStep_moves {fs : Cgroups} {pc : HolderPc} {c : CgroupChoice} {t : CgroupTurn}
    (h : holderStep p fs pc c = some t) : HolderMove p pc t.pool t.events t.pc := by
  have hkeep : ∀ {pc pc' : HolderPc}, pc'.owned.Sublist pc.owned → pc'.bounded.Sublist pc.bounded →
      HolderMove p pc p [] pc' := fun howned hbounded => .keep (n := p.leaked) howned hbounded
  unfold holderStep at h
  split at h
  -- acquire
  · split at h
    · rename_i rel hlast
      cases h
      exact .pop (List.dropLast_append_getLast? rel hlast).symm
    · rename_i hnone
      cases h
      exact .mint (List.getLast?_eq_none_iff.mp hnone)
  -- stat
  · split at h
    · cases h
      exact .reuse
    · cases h
      exact hkeep (List.Sublist.refl _) (List.nil_sublist _)
  · cases h
    exact hkeep (List.Sublist.refl _) (List.nil_sublist _)
  -- mkdir
  · split at h
    · cases h
      exact hkeep (List.Sublist.refl _) (List.Sublist.refl _)
    · cases h
      exact .create
  · cases h
    exact hkeep (List.nil_sublist _) (List.Sublist.refl _)
  -- write
  · split at h
    · cases h
      exact .keep (List.nil_sublist _) (List.Sublist.refl _)
    · cases h
      exact .bound
  · cases h
    exact .keep (List.nil_sublist _) (List.Sublist.refl _)
  -- releaseStat
  · split at h
    · cases h
      exact hkeep (List.Sublist.refl _) (List.Sublist.refl _)
    · cases h
      exact hkeep (List.nil_sublist _) (List.nil_sublist _)
  · cases h
    exact hkeep (List.nil_sublist _) (List.nil_sublist _)
  -- readProcs
  · split at h
    · cases h
      exact .keep (List.nil_sublist _) (List.nil_sublist _)
    · cases h
      exact hkeep (List.Sublist.refl _) (List.Sublist.refl _)
  · cases h
    exact .keep (List.nil_sublist _) (List.nil_sublist _)
  -- push
  · cases h
    exact .push
  · cases h

theorem HolderPc.bounded_sublist (pc : HolderPc) : pc.bounded.Sublist pc.owned := by
  cases pc with
  | mkdir | write => exact List.nil_sublist _
  | _ => exact List.Sublist.refl _

section Turn

variable {s : CgroupSys} {p' : CgroupPool} {pc pc' : HolderPc} {events : List CgroupEvent} {i : Nat}

theorem HolderMove.name_eq (h : HolderMove p pc p' events pc') (k : Nat) :
    p'.name k = p.name k := by
  cases h with
  | _ => rfl

theorem HolderMove.balance (h : HolderMove p pc p' events pc') :
    ∃ new : List SlashPath, (new = [] ∨ new = [p.name p.issued] ∧ p'.issued = p.issued + 1) ∧
      p.issued ≤ p'.issued ∧ ∀ x,
        (p'.free ++ pc'.owned).count x ≤ (new ++ p.free ++ pc.owned).count x := by
  cases h with
  | @pop rel rest h =>
    refine ⟨[], .inl rfl, le_refl _, fun x => ?_⟩
    rw [List.nil_append, h]
    show (rest ++ [rel]).count x ≤ (rest ++ [rel] ++ []).count x
    rw [List.append_nil]
  | mint h =>
    refine ⟨[p.name p.issued], .inr ⟨rfl, rfl⟩, Nat.le_succ _, fun x => ?_⟩
    show (p.free ++ [p.name p.issued]).count x ≤ ([p.name p.issued] ++ p.free ++ []).count x
    rw [h]
    exact le_refl _
  | push =>
    refine ⟨[], .inl rfl, le_refl _, fun x => ?_⟩
    show (p.free ++ _ ++ []).count x ≤ ([] ++ p.free ++ _).count x
    rw [List.append_nil, List.nil_append]
    exact le_refl _
  | keep howned =>
    exact ⟨[], .inl rfl, le_refl _, fun x => ((List.Sublist.refl _).append howned).count_le x⟩
  | reuse | create | bound => exact ⟨[], .inl rfl, le_refl _, fun x => le_refl _⟩

/-- No leaf has two owners after a turn. -/
theorem CgroupSys.Kept.turn_names (h : s.Kept) (hi : s.holders[i]? = some pc)
    (hmove : HolderMove s.pool pc p' events pc') :
    (p'.free ++ (s.holders.set i pc').flatMap HolderPc.owned).Nodup ∧
    ∀ rel ∈ p'.free ++ (s.holders.set i pc').flatMap HolderPc.owned, ∃ k < p'.issued,
      rel = p'.name k := by
  obtain ⟨new, hnew, hmono, hcount⟩ := hmove.balance
  have hold : ∀ rel ∈ s.pool.free ++ s.holders.flatMap HolderPc.owned, ∃ k < p'.issued,
      rel = p'.name k := by
    intro rel hrel
    obtain ⟨k, hk, rfl⟩ := h.issued rel hrel
    exact ⟨k, lt_of_lt_of_le hk hmono, (hmove.name_eq k).symm⟩
  have hfresh : (new ++ s.pool.free ++ s.holders.flatMap HolderPc.owned).Nodup := by
    rcases hnew with rfl | ⟨rfl, -⟩
    · exact h.nodup
    · refine List.nodup_cons.mpr ⟨?_, h.nodup⟩
      intro hmem
      obtain ⟨k, hk, heq⟩ := h.issued _ hmem
      exact absurd (cgroupName_inj _ heq) (Nat.ne_of_gt hk)
  refine ⟨nodup_turn pc' hi hfresh hcount, ?_⟩
  intro rel hrel
  have hturn : rel ∈ p'.free ++ pc'.owned → ∃ k < p'.issued, rel = p'.name k := by
    intro hmem
    have hpos := lt_of_lt_of_le (List.count_pos_iff.mpr hmem) (hcount rel)
    rcases List.mem_append.mp (List.count_pos_iff.mp hpos) with hmem | hmem
    · rcases List.mem_append.mp hmem with hmem | hmem
      · rcases hnew with rfl | ⟨rfl, hissued⟩
        · cases hmem
        · rw [List.eq_of_mem_singleton hmem, hissued]
          exact ⟨s.pool.issued, Nat.lt_succ_self _, (hmove.name_eq _).symm⟩
      · exact hold rel (List.mem_append_left _ hmem)
    · exact hold rel (List.mem_append_right _
        (List.mem_flatMap.mpr ⟨pc, List.mem_of_getElem? hi, hmem⟩))
  rcases List.mem_append.mp hrel with hrel | hrel
  · exact hturn (List.mem_append_left _ hrel)
  · rcases mem_flatMap_set hrel with hrel | ⟨j, u, -, hj, hrel⟩
    · exact hturn (List.mem_append_right _ hrel)
    · exact hold rel (List.mem_append_right _
        (List.mem_flatMap.mpr ⟨u, List.mem_of_getElem? hj, hrel⟩))

theorem CgroupSys.Kept.others (h : s.Kept) (hi : s.holders[i]? = some pc) {rel : SlashPath}
    (hrel : rel ∈ s.pool.free ∨ ∃ j u, j ≠ i ∧ s.holders[j]? = some u ∧ rel ∈ u.bounded) :
    Bounded s.log rel ∧ rel ∉ pc.owned := by
  obtain ⟨hfree, hholders, hapart⟩ := List.nodup_append.mp h.nodup
  rcases hrel with hrel | ⟨j, u, hne, hj, hrel⟩
  · refine ⟨h.bounded rel (List.mem_append_left _ hrel), ?_⟩
    intro hmem
    exact hapart rel hrel rel (List.mem_flatMap.mpr ⟨pc, List.mem_of_getElem? hi, hmem⟩) rfl
  · refine ⟨h.bounded rel (List.mem_append_right _
      (List.mem_flatMap.mpr ⟨u, List.mem_of_getElem? hj, hrel⟩)), ?_⟩
    intro hmem
    exact hne (eq_of_mem_flatMap hholders hj hi (u.bounded_sublist.mem hrel) hmem)

theorem Bounded.snoc {log : List CgroupEvent} {rel : SlashPath} (h : Bounded log rel)
    {e : CgroupEvent}
    (he : e ≠ .created rel) : Bounded (log ++ [e]) rel :=
  Since.snoc h he

/-- A turn frees no leaf without its bound. -/
theorem CgroupSys.Kept.turn_bounded (h : s.Kept) (hi : s.holders[i]? = some pc)
    (hmove : HolderMove s.pool pc p' events pc') :
    ∀ rel ∈ p'.free ++ (s.holders.set i pc').flatMap HolderPc.bounded,
      Bounded (s.log ++ events) rel := by
  have hself : ∀ rel ∈ pc.bounded, Bounded s.log rel := fun rel hrel =>
    h.bounded rel (List.mem_append_right _
      (List.mem_flatMap.mpr ⟨pc, List.mem_of_getElem? hi, hrel⟩))
  intro rel hrel
  -- the free names and those of the other holders, then the names that this step adds
  have hsplit : (Bounded s.log rel ∧ rel ∉ pc.owned) ∨ rel ∈ p'.free ∧ rel ∉ s.pool.free ∨
      rel ∈ pc'.bounded := by
    rcases List.mem_append.mp hrel with hrel | hrel
    · by_cases hold : rel ∈ s.pool.free
      · exact .inl (h.others hi (.inl hold))
      · exact .inr (.inl ⟨hrel, hold⟩)
    · rcases mem_flatMap_set hrel with hrel | hother
      · exact .inr (.inr hrel)
      · exact .inl (h.others hi (.inr hother))
  cases hmove with
  | @pop new rest hfree =>
    rw [List.append_nil]
    rcases hsplit with hold | ⟨hin, hout⟩ | hnew
    · exact hold.1
    · refine absurd ?_ hout
      rw [hfree]
      exact List.mem_append_left _ hin
    · rw [List.eq_of_mem_singleton hnew]
      refine h.bounded new (List.mem_append_left _ ?_)
      rw [hfree]
      exact List.mem_append_right _ List.mem_cons_self
  | mint =>
    rcases hsplit with hold | ⟨hin, hout⟩ | hnew
    · exact hold.1.snoc (fun heq => nomatch heq)
    · exact absurd hin hout
    · cases hnew
  | reuse =>
    rcases hsplit with hold | ⟨hin, hout⟩ | hnew
    · exact hold.1.snoc (fun heq => nomatch heq)
    · exact absurd hin hout
    · exact (hself rel hnew).snoc (fun heq => nomatch heq)
  | @create new =>
    rcases hsplit with ⟨hold, hne⟩ | ⟨hin, hout⟩ | hnew
    · refine hold.snoc ?_
      intro heq
      cases heq
      exact hne List.mem_cons_self
    · exact absurd hin hout
    · cases hnew
  | @bound new =>
    have hwrote : ∀ {log : List CgroupEvent} {rel : SlashPath}, Bounded (log ++ [.wrote new]) rel →
        Bounded (log ++ [.wrote new, .handed new]) rel := by
      intro log rel hlog
      rw [← List.singleton_append, ← List.append_assoc]
      exact hlog.snoc (fun heq => nomatch heq)
    apply hwrote
    rcases hsplit with hold | ⟨hin, hout⟩ | hnew
    · exact hold.1.snoc (fun heq => nomatch heq)
    · exact absurd hin hout
    · rw [List.eq_of_mem_singleton hnew]
      exact since_snoc_self ..
  | @push new =>
    rw [List.append_nil]
    rcases hsplit with hold | ⟨hin, hout⟩ | hnew
    · exact hold.1
    · rcases List.mem_append.mp hin with hin | hin
      · exact absurd hin hout
      · exact hself rel hin
    · cases hnew
  | keep _ hbounded =>
    rw [List.append_nil]
    rcases hsplit with hold | ⟨hin, hout⟩ | hnew
    · exact hold.1
    · exact absurd hin hout
    · exact hself rel (hbounded.mem hnew)

/-- A turn logs only what the log before it allows. -/
theorem CgroupSys.Kept.turn_log (h : s.Kept) (hi : s.holders[i]? = some pc)
    (hmove : HolderMove s.pool pc p' events pc') :
    Justified CgroupEvent.Ok (s.log ++ events) ∧
    ∀ rel, .minted rel ∈ s.log ++ events ∨ .handed rel ∈ s.log ++ events →
      ∃ k < p'.issued, rel = p'.name k := by
  have hissued : ∀ rel ∈ pc.owned, ∃ k < s.pool.issued, rel = s.pool.name k := fun rel hrel =>
    h.issued rel (List.mem_append_right _
      (List.mem_flatMap.mpr ⟨pc, List.mem_of_getElem? hi, hrel⟩))
  cases hmove with
  | pop | push | keep =>
    rw [List.append_nil]
    exact ⟨h.justified, h.logged⟩
  | mint =>
    have hnew : ∀ {rel : SlashPath}, .minted rel ∈ s.log ∨ .handed rel ∈ s.log →
        rel ≠ s.pool.name s.pool.issued := by
      rintro rel hrel rfl
      obtain ⟨k, hk, heq⟩ := h.logged _ hrel
      exact absurd (cgroupName_inj _ heq) (Nat.ne_of_gt hk)
    refine ⟨h.justified.snoc ⟨fun hmem => hnew (.inl hmem) rfl, fun hmem => hnew (.inr hmem) rfl⟩,
      ?_⟩
    intro rel hrel
    have hcases : (.minted rel ∈ s.log ∨ .handed rel ∈ s.log) ∨
        rel = s.pool.name s.pool.issued := by
      simpa [or_assoc, or_comm, or_left_comm] using hrel
    rcases hcases with hold | rfl
    · obtain ⟨k, hk, heq⟩ := h.logged rel hold
      exact ⟨k, Nat.lt_succ_of_lt hk, heq⟩
    · exact ⟨s.pool.issued, Nat.lt_succ_self _, rfl⟩
  | @reuse rel =>
    refine ⟨h.justified.snoc ?_, ?_⟩
    · exact h.bounded rel (List.mem_append_right _
        (List.mem_flatMap.mpr ⟨_, List.mem_of_getElem? hi, List.mem_cons_self⟩))
    · intro x hx
      have hcases : (.minted x ∈ s.log ∨ .handed x ∈ s.log) ∨ x = rel := by
        simpa [or_assoc] using hx
      rcases hcases with hold | rfl
      · exact h.logged x hold
      · exact hissued x List.mem_cons_self
  | @create rel =>
    refine ⟨h.justified.snoc trivial, ?_⟩
    intro x hx
    exact h.logged x (by simpa using hx)
  | @bound rel =>
    constructor
    · have hwrote : Justified CgroupEvent.Ok (s.log ++ [.wrote rel]) := h.justified.snoc trivial
      have hbounded : Bounded (s.log ++ [.wrote rel]) rel := since_snoc_self ..
      have hhanded := hwrote.snoc (a := CgroupEvent.handed rel) hbounded
      rwa [List.append_assoc] at hhanded
    · intro x hx
      have hcases : (.minted x ∈ s.log ∨ .handed x ∈ s.log) ∨ x = rel := by
        simpa [or_assoc] using hx
      rcases hcases with hold | rfl
      · exact h.logged x hold
      · exact hissued x List.mem_cons_self

end Turn

/-! ## Every run -/

/-- The invariant of the cgroup pool, over one step. -/
theorem CgroupSys.Kept.step {s s' : CgroupSys} {a : CgroupAction} (h : s.Kept)
    (hstep : cgroupStep s a = some s') : s'.Kept := by
  unfold cgroupStep at hstep
  split at hstep
  -- a new call of `acquire` has no name
  · cases hstep
    refine ⟨?_, ?_, h.logged, ?_, h.justified⟩
    · rw [List.flatMap_append]
      simpa [HolderPc.owned] using h.nodup
    · intro rel hrel
      rw [List.flatMap_append] at hrel
      exact h.issued rel (by simpa [HolderPc.owned] using hrel)
    · intro rel hrel
      rw [List.flatMap_append] at hrel
      exact h.bounded rel (by simpa [HolderPc.bounded] using hrel)
  -- the holder that releases its name goes on having it
  · split at hstep
    · rename_i i _ rel hi
      cases hstep
      have hmove : HolderMove s.pool (.holding rel) s.pool [] (.releaseStat rel) :=
        .keep (n := s.pool.leaked) (List.Sublist.refl _) (List.Sublist.refl _)
      obtain ⟨hnodup, hissued⟩ := h.turn_names hi hmove
      have hbounded := h.turn_bounded hi hmove
      rw [List.append_nil] at hbounded
      exact ⟨hnodup, hissued, h.logged, hbounded, h.justified⟩
    · cases hstep
  · cases hstep
    exact ⟨h.nodup, h.issued, h.logged, h.bounded, h.justified⟩
  · split at hstep
    · cases hstep
    · rename_i pc hi
      obtain ⟨t, hturn, rfl⟩ := Option.map_eq_some_iff.mp hstep
      have hmove := holderStep_moves hturn
      obtain ⟨hnodup, hissued⟩ := h.turn_names hi hmove
      obtain ⟨hjustified, hlogged⟩ := h.turn_log hi hmove
      exact ⟨hnodup, hissued, hlogged, h.turn_bounded hi hmove, hjustified⟩

theorem kept_of_reachable {parent : String} {memMax : Int} {s : CgroupSys}
    (h : Reachable (cgroupSystem parent memMax) s) : s.Kept := by
  refine h.invariant (P := CgroupSys.Kept) ?_ ?_
  · rintro s ⟨fs, rfl⟩
    refine ⟨List.nodup_nil, ?_, ?_, ?_, justified_nil _⟩
    · intro rel hrel
      cases hrel
    · rintro rel (hrel | hrel)
      · cases hrel
      · cases hrel
    · intro rel hrel
      cases hrel
  · rintro s s' - hs ⟨a, ha⟩
    exact hs.step ha

/-- **A cgroup has one holder.** In every interleaving of `acquire` and `release`, with any
failures of the filesystem and any removal of directories by someone else, where each holder
releases its name at most once: no two holders have the same name; a minted name was neither minted
nor handed out before; and when a name is handed out, its `memory.max` was written since the pool
last created its directory.
SRCLINE: cgroup_pool.go:37-162 -/
theorem cgroup_has_one_holder {parent : String} {memMax : Int} {s : CgroupSys}
    (h : Reachable (cgroupSystem parent memMax) s) :
    (∀ (i j : Nat) (rel : SlashPath),
      s.holders[i]? = some (.holding rel) → s.holders[j]? = some (.holding rel) → i = j) ∧
    (∀ (before after : List CgroupEvent) (rel : SlashPath), s.log = before ++ .minted rel :: after →
      .minted rel ∉ before ∧ .handed rel ∉ before) ∧
    ∀ (before after : List CgroupEvent) (rel : SlashPath), s.log = before ++ .handed rel :: after →
      ∃ older newer, before = older ++ .wrote rel :: newer ∧ .created rel ∉ newer := by
  have hkept := kept_of_reachable h
  refine ⟨?_, ?_, ?_⟩
  · intro i j rel hi hj
    exact eq_of_mem_flatMap (List.nodup_append.mp hkept.nodup).2.1 hi hj List.mem_cons_self
      List.mem_cons_self
  · intro before after rel heq
    exact hkept.justified before _ after heq
  · intro before after rel heq
    exact hkept.justified before _ after heq

/-- A first holder acquires and releases a name; its directory is removed while it is free; a
second holder acquires it. -/
def reuseFirst : List CgroupAction :=
  [.callAcquire, .run 0 .go, .run 0 .go, .run 0 .go, .callRelease 0, .run 0 .go, .run 0 (.procs 0),
    .run 0 .go,
    .remove ⟨false, ["slice", "pool-0"]⟩, .callAcquire, .run 1 .go, .run 1 .go, .run 1 .go,
      .run 1 .go]

/-- The second holder gets the same name, with a directory that was created and bounded again. -/
theorem cgroup_has_one_holder_again :
    ∃ s before older newer, Reachable (cgroupSystem "slice" 1) s ∧
      s.holders = [.released, .holding ⟨false, ["slice", "pool-0"]⟩] ∧
      s.log = before ++ [.handed ⟨false, ["slice", "pool-0"]⟩] ∧
      before = older ++ .wrote ⟨false, ["slice", "pool-0"]⟩ :: newer ∧
      .created ⟨false, ["slice", "pool-0"]⟩ ∉ newer := by
  have hinit : (cgroupSystem "slice" 1).init ⟨newCgroupPool "slice" 1, fun _ => none, [], []⟩ :=
    ⟨_, rfl⟩
  have hrun : (runActions cgroupStep
      ⟨newCgroupPool "slice" 1, fun _ => none, [], []⟩ reuseFirst).map
        (fun s => decide (s.holders = [.released, .holding ⟨false, ["slice", "pool-0"]⟩] ∧
          s.log = s.log.dropLast ++ [.handed ⟨false, ["slice", "pool-0"]⟩])) = some true := by
    decide +kernel
  obtain ⟨s, hs, hP⟩ := exists_reachable_of_runActions hinit reuseFirst _ hrun
  obtain ⟨hholders, hlog⟩ := of_decide_eq_true hP
  obtain ⟨older, newer, heq, hnew⟩ := (cgroup_has_one_holder hs).2.2 _ [] _ hlog
  exact ⟨s, _, older, newer, hs, hholders, hlog, heq, hnew⟩

end ServerlessHarness.VmPool
