import ServerlessHarness.Analysis.VmPool.Books

/-!
# Which directory a VM is bound to

A VM is bound to the inode that was at its run's directory when it was restored. While the
run is in the map that inode is at the run's directory or nowhere; after the run was dropped
it is under a tombstone or nowhere. So an inode belongs to one run: a run that is re-created
under the same key gets a new directory.
-/

set_option autoImplicit false

namespace ServerlessHarness.VmPool

open Library

/-- The invariant of the directories. -/
structure Directories (L : Ledger) : Prop where
  allocated : ∀ v ∈ L.hist.restored, v.inode < L.dirs.next
  created : ∀ v ∈ L.hist.restored, ∀ g, v.run = some g → g < L.nextRun
  runs : ∀ v ∈ L.hist.restored, ∀ g, v.run = some g → ∀ p, L.dirs.lookup p = some v.inode →
    (∃ k, (k, g) ∈ L.live ∧ p = (workspaceRoot L.cfg).join k) ∨
      g ∉ L.live.map Prod.snd ∧ IsTombstone L.cfg p
  probe : ∀ v ∈ L.hist.restored, v.run = none → ∀ p, L.dirs.lookup p = some v.inode →
    p = probeDir L.cfg
  sameRun : ∀ v ∈ L.hist.restored, ∀ w ∈ L.hist.restored, v.inode = w.inode → v.run = w.run

variable {cfg : Config} {e : Key × Nat} {k : Key}

theorem IsTombstone.ne_join {d : SlashPath} (h : IsTombstone cfg d) (hk : validKey k = true) :
    d ≠ (workspaceRoot cfg).join k := by
  rintro rfl
  exact h.not_below hk (SlashPath.below_refl _)

theorem IsTombstone.ne_probeDir {d : SlashPath} (h : IsTombstone cfg d) :
    d ≠ probeDir cfg := by
  rintro rfl
  exact h.not_below_probeDir (SlashPath.below_refl _)

theorem join_ne_probeDir (hk : validKey k = true) :
    (workspaceRoot cfg).join k ≠ probeDir cfg := by
  intro h
  have hbelow : ¬ SlashPath.below ((workspaceRoot cfg).join k) (probeDir cfg) :=
    not_below_probeDir hk
  rw [h] at hbelow
  exact hbelow (SlashPath.below_refl _)

section Steps

variable {L L' : Ledger} {l : List Stake} {st st' : Stake} (d : Directories L) (b : Books L l)
include d b

theorem Directories.run_at {v : VM} (hv : v ∈ L.hist.restored) (he : e ∈ L.live)
    (hp : L.dirs.lookup (L.acct e.2).dir = some v.inode) : v.run = some e.2 := by
  obtain ⟨valid, dir⟩ := b.names e he
  rw [dir] at hp
  cases hrun : v.run with
  | none => exact absurd (d.probe v hv hrun _ hp) (join_ne_probeDir valid)
  | some g =>
    rcases d.runs v hv g hrun _ hp with ⟨k, hk, heq⟩ | ⟨-, tomb⟩
    · have hkey : e.1 = k :=
        (SlashPath.join_inj (validKey_ordinary valid) (validKey_ordinary (b.names _ hk).1)).mp heq
      rw [b.entry_eq_of_key he hk hkey]
    · exact absurd rfl (tomb.ne_join valid)

theorem Directories.run_at_probeDir {v : VM} (hv : v ∈ L.hist.restored)
    (hp : L.dirs.lookup (probeDir L.cfg) = some v.inode) : v.run = none := by
  cases hrun : v.run with
  | none => rfl
  | some g =>
    rcases d.runs v hv g hrun _ hp with ⟨k, hk, heq⟩ | ⟨-, tomb⟩
    · exact absurd heq.symm (join_ne_probeDir (b.names _ hk).1)
    · exact absurd rfl tomb.ne_probeDir

omit b in
theorem Directories.openRun {p : SlashPath} : Directories (L.openRun k p) :=
  { d with
    created := fun v hv g hg => Nat.lt_succ_of_lt (d.created v hv g hg)
    runs := fun v hv g hg q hq => by
      rcases d.runs v hv g hg q hq with ⟨k', hk', heq⟩ | ⟨hnot, tomb⟩
      · exact .inl ⟨k', List.mem_append_left _ hk', heq⟩
      · have hlt := d.created v hv g hg
        refine .inr ⟨?_, tomb⟩
        simp only [Ledger.openRun, List.map_append, List.map_cons, List.map_nil, List.mem_append,
          List.mem_singleton, not_or]
        exact ⟨hnot, by omega⟩ }

omit b in
theorem Directories.mkdir (p : SlashPath) : Directories { L with dirs := L.dirs.mkdirAll p } := by
  have old {v : VM} (hv : v ∈ L.hist.restored) {q : SlashPath}
      (hq : (L.dirs.mkdirAll p).lookup q = some v.inode) : L.dirs.lookup q = some v.inode := by
    rcases DirTree.lookup_mkdirAll hq with hq | ⟨-, -, hi⟩
    · exact hq
    · have := d.allocated v hv
      omega
  exact
    { d with
      allocated := fun v hv => (d.allocated v hv).trans_le (L.dirs.next_le_mkdirAll p)
      runs := fun v hv g hg q hq => d.runs v hv g hg q (old hv hq)
      probe := fun v hv hnone q hq => d.probe v hv hnone q (old hv hq) }

omit b in
theorem Directories.removeDir (p : SlashPath) (ok : Bool) (h : History)
    (hh : h.restored = L.hist.restored) :
    Directories { L with dirs := if ok then L.dirs.removeAll p else L.dirs, hist := h } := by
  have old {v : VM} {q : SlashPath}
      (hq : (if ok then L.dirs.removeAll p else L.dirs).lookup q = some v.inode) :
      L.dirs.lookup q = some v.inode := by
    cases ok with
    | true => exact (DirTree.lookup_removeAll hq).2
    | false => exact hq
  constructor
  · intro v hv
    rw [hh] at hv
    cases ok <;> exact d.allocated v hv
  · simpa only [hh] using d.created
  · simp only [hh]
    exact fun v hv g hg q hq => d.runs v hv g hg q (old hq)
  · simp only [hh]
    exact fun v hv hnone q hq => d.probe v hv hnone q (old hq)
  · simpa only [hh] using d.sameRun

theorem Directories.dropRun (he : e ∈ L.live) (h : History) (hh : h.restored = L.hist.restored)
    (absent : L.dirs.lookup (L.acct e.2).dir = none) :
    Directories { L with live := L.live.filter fun x => x.1 ≠ e.1, hist := h } := by
  constructor
  · simpa only [hh] using d.allocated
  · simpa only [hh] using d.created
  · simp only [hh]
    intro v hv g hg q hq
    rcases d.runs v hv g hg q hq with ⟨k, hk, heq⟩ | ⟨hnot, tomb⟩
    · by_cases hkey : k = e.1
      · have hdir : q = (L.acct e.2).dir := by rw [(b.names e he).2, heq, hkey]
        rw [hdir, absent] at hq
        cases hq
      · exact .inl ⟨k, List.mem_filter.mpr ⟨hk, by simpa using hkey⟩, heq⟩
    · exact .inr ⟨fun hmem => hnot ((List.filter_sublist.map Prod.snd).subset hmem), tomb⟩
  · simpa only [hh] using d.probe
  · simpa only [hh] using d.sameRun

theorem Directories.detachRun (he : e ∈ L.live) (h : History) (hh : h.restored = L.hist.restored)
    {tomb : SlashPath} (htomb : IsTombstone L.cfg tomb) :
    Directories { L with
      live := L.live.filter fun x => x.1 ≠ e.1
      dirs := L.dirs.rename (L.acct e.2).dir tomb
      hist := h } := by
  constructor
  · simpa only [hh, DirTree.next_rename] using d.allocated
  · simpa only [hh] using d.created
  · simp only [hh]
    intro v hv g hg q hq
    rcases DirTree.lookup_rename hq with ⟨rfl, hold⟩ | ⟨-, hne, hq⟩
    · -- the moved directory was that of the dropped run
      obtain rfl : g = e.2 := Option.some.inj (hg.symm.trans (d.run_at b hv he hold))
      refine .inr ⟨fun hmem => ?_, htomb⟩
      obtain ⟨x, hx, heq⟩ := List.mem_map.mp hmem
      obtain ⟨hx, hkey⟩ := List.mem_filter.mp hx
      simp [b.entry_eq hx he heq] at hkey
    · rcases d.runs v hv g hg q hq with ⟨k, hk, heq⟩ | ⟨hnot, tomb⟩
      · refine .inl ⟨k, List.mem_filter.mpr ⟨hk, ?_⟩, heq⟩
        have hkey : k ≠ e.1 := by
          rintro rfl
          exact hne (by rw [heq, (b.names e he).2])
        simpa using hkey
      · exact .inr ⟨fun hmem => hnot ((List.filter_sublist.map Prod.snd).subset hmem), tomb⟩
  · simp only [hh]
    intro v hv hnone q hq
    rcases DirTree.lookup_rename hq with ⟨rfl, hold⟩ | ⟨-, -, hq⟩
    · simp [d.run_at b hv he hold] at hnone
    · exact d.probe v hv hnone q hq
  · simpa only [hh] using d.sameRun

theorem Directories.restore (ok : st.Ok L) (hst : st ∈ l) {vm : VM} {p : SlashPath}
    (uses : st.Restores L p vm.run) (inode : L.dirs.lookup p = some vm.inode) :
    Directories
      { L with hist := { L.hist with restored := L.hist.restored ++ [vm] } } := by
  -- where the request's directory is, and whose inode can be there
  have place : (∃ e ∈ L.live, vm.run = some e.2 ∧ p = (L.acct e.2).dir) ∨
      vm.run = none ∧ p = probeDir L.cfg := by
    rcases uses with ⟨w, hw, hdir, hrun⟩ | ⟨-, -, hdir, hrun⟩
    · exact .inl ⟨w.entry, (b.warm_live hst hw).1, hrun, by
        rw [← hdir, (ok.warm w hw).2.2.2.2.2.2.1]⟩
    · exact .inr ⟨hrun, hdir⟩
  have owner {v : VM} (hv : v ∈ L.hist.restored) (heq : v.inode = vm.inode) : v.run = vm.run := by
    rcases place with ⟨e, he, hrun, rfl⟩ | ⟨hrun, rfl⟩
    · rw [hrun, d.run_at b hv he (heq ▸ inode)]
    · rw [hrun, d.run_at_probeDir b hv (heq ▸ inode)]
  have only {q : SlashPath} (hq : L.dirs.lookup q = some vm.inode) : q = p :=
    L.dirs.unique q p vm.inode hq inode
  refine ⟨?_, ?_, ?_, ?_, ?_⟩
  · exact forall_mem_concat d.allocated (L.dirs.fresh p vm.inode inode)
  · refine forall_mem_concat d.created fun g hg => ?_
    rcases place with ⟨e, he, hrun, -⟩ | ⟨hrun, -⟩
    · obtain rfl : g = e.2 := Option.some.inj (hg.symm.trans hrun)
      exact b.fresh e he
    · simp [hrun] at hg
  · refine forall_mem_concat d.runs fun g hg q hq => ?_
    rcases place with ⟨e, he, hrun, hp⟩ | ⟨hrun, -⟩
    · obtain rfl : g = e.2 := Option.some.inj (hg.symm.trans hrun)
      exact .inl ⟨e.1, he, by rw [only hq, hp, (b.names e he).2]⟩
    · simp [hrun] at hg
  · refine forall_mem_concat d.probe fun hnone q hq => ?_
    rcases place with ⟨e, -, hrun, -⟩ | ⟨-, hp⟩
    · simp [hrun] at hnone
    · rw [only hq, hp]
  · refine forall_mem_concat
      (fun v hv => forall_mem_concat (d.sameRun v hv) fun heq => owner hv heq)
      (forall_mem_concat (fun w hw heq => (owner hw heq.symm).symm) fun _ => rfl)

theorem Directories.step (hst : st ∈ l) (h : Effect L st L' st') : Directories L' := by
  have ok := b.stakes st hst
  cases h with
  | openRun => exact d.openRun
  | mkdir => exact d.mkdir _
  | restore uses _ inode => exact d.restore b ok hst uses inode
  | dropRun tomb live _ _ _ absent => exact d.dropRun b live _ rfl absent
  | @detachRun e tomb nano seq live _ _ _ name =>
    obtain ⟨valid, dir⟩ := b.names e live
    have htomb : IsTombstone L.cfg tomb := ⟨e.1, nano, seq, valid, by rw [name, dir]⟩
    refine d.detachRun b live _ ?_ htomb
    rfl
  | removeDir _ ok => exact d.removeDir _ ok _ rfl
  | _ => exact { d with }

end Steps

/-- INTERNAL: **the invariant of the directories holds in every reachable state**. -/
theorem directories_of_reachable {x : Ledger × List Stake} (h : Reachable ledgerSystem x) :
    Directories x.1 := by
  refine h.invariant (P := fun x => Directories x.1) ?_ ?_
  · intro x init
    have hnone : x.1.hist.restored = [] := by rw [LedgerInit.hist init]
    constructor <;> simp [hnone]
  · rintro _ _ hr d (⟨hi, step⟩ | ⟨-⟩)
    · exact d.step (books_of_reachable hr) (List.mem_of_getElem? hi) step
    · exact d

end ServerlessHarness.VmPool
