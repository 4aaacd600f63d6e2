import ServerlessHarness.Interface.VmPool.Observations
import ServerlessHarness.Interface.VmPool.Sections

/-!
# One pass of the sweep

`sweepOnce` walks the map of runs with a budget of VMs, in an order that Go's runtime picks, and
stops when the budget is spent. A visit settles the fate of its entry and leaves every other entry
alone (`Visits`), so the entries of a pass can be read off one by one (`Swept`), and what the pass
takes in all depends on the order no more than a sum does: the budget, or everything there is to
take.
-/

set_option autoImplicit false

namespace ServerlessHarness.VmPool

open Library

/-- The standbys that a sweep at `now` may take from all runs of the map. -/
def Pool.dueTotal (p : Pool) (now : Int) : Int := total (fun e => p.due now e.2) p.runs

/-- What holds of the map and the configuration of a pool at any time: a key has one entry, a run
is in one entry, and `Normalize` has left a positive `MaxReclaimsPerScan`. -/
structure Pool.Sound (p : Pool) : Prop where
  keys : (p.runs.map Prod.fst).Nodup
  refs : (p.runs.map Prod.snd).Nodup
  perScan : 0 < p.cfg.maxReclaimsPerScan

theorem sound_of_pool {cfg : Config} {lc : Launcher} {s : Sys}
    (h : Reachable (poolSystem cfg lc) s) :
    s.pool.Sound where
  keys := (books_of_pool h).keys
  refs := (books_of_pool h).refs
  perScan := maxReclaimsPerScan_pos_of_normalize (frame_of_pool h).1

/-! ## The loop -/

/-- What a sweep at `now` may take from the run of `key`. -/
def Pool.dueOf (p : Pool) (now : Int) (key : Key) : Int := (p.runs.lookup key).elim 0 (p.due now)

/-- What a pass over the entries of `keys` does. -/
structure Swept (now : Int) (keys : List Key) (budget : Int) (b : ReclaimBatch) (p : Pool)
    (b' : ReclaimBatch) (p' : Pool) : Prop where
  count : (b'.vms.length : Int) = b.vms.length + min budget (total (p.dueOf now) keys)
  untouched : ∀ g, (∀ e ∈ p.runs, e.2 = g → e.1 ∉ keys) → p'.heap g = p.heap g
  kept : ∀ e ∈ p.runs, e.1 ∉ keys → e ∈ p'.runs
  spared : ∀ e ∈ p.runs, p.sweepable now e.2 = false → e ∈ p'.runs ∧ p'.heap e.2 = p.heap e.2
  parked : ∀ g, (p'.heap g).parked = true → (p.heap g).parked = true ∨ (p'.heap g).ready = []
  dropped : ∀ e ∈ p.runs, e ∉ p'.runs →
    (p'.heap e.2).ready = [] ∧ p.cfg.workspaceIdle ≤ now - (p.heap e.2).lastExec
  conserved : ∀ l : List (Key × Nat), (l.map Prod.snd).Nodup → p.runs ⊆ l → ∀ u : VM → ℤ,
    total u b'.vms + total (fun x => total u (p'.heap x.2).ready) l =
      total u b.vms + total (fun x => total u (p.heap x.2).ready) l

variable {order : List (Key × Detach)}

section Loop

variable {p mid p' : Pool} {now budget budget' : Int} {b b' b'' : ReclaimBatch} {e : Key × Nat}
  {keys : List Key}

theorem Pool.due_nonneg (p : Pool) (now : Int) (g : Nat) : 0 ≤ p.due now g := by
  unfold due
  split
  · exact Int.natCast_nonneg _
  · exact le_refl _

theorem Pool.dueOf_nonneg (p : Pool) (now : Int) (key : Key) : 0 ≤ p.dueOf now key := by
  unfold dueOf
  cases p.runs.lookup key with
  | none => exact le_refl _
  | some g => exact p.due_nonneg now g

theorem Pool.dueOf_eq (hkeys : (p.runs.map Prod.fst).Nodup) (he : e ∈ p.runs) :
    p.dueOf now e.1 = p.due now e.2 := by
  unfold dueOf
  rw [(lookup_eq_some_iff hkeys).mpr he]
  rfl

theorem Swept.stop (h : min budget (total (p.dueOf now) keys) = 0) :
    Swept now keys budget b p b p where
  count := by
    rw [h, add_zero]
  untouched := fun _ _ => rfl
  kept := fun _ he _ => he
  spared := fun _ he _ => ⟨he, rfl⟩
  parked := fun _ => .inl
  dropped := fun _ he hnot => absurd he hnot
  conserved := fun _ _ _ _ => rfl

theorem Visits.mem_runs (hv : Visits now e budget b p budget' b' mid) {x : Key × Nat}
    (hx : x ∈ p.runs)
    (hne : x.1 ≠ e.1) : x ∈ mid.runs := by
  rcases hv.runs with hruns | ⟨hruns, -⟩
  · rw [hruns]
    exact hx
  · rw [hruns]
    exact List.mem_filter.mpr ⟨hx, decide_eq_true hne⟩

theorem Visits.runs_sublist (hv : Visits now e budget b p budget' b' mid) :
    mid.runs.Sublist p.runs := by
  rcases hv.runs with hruns | ⟨hruns, -⟩
  · rw [hruns]
  · rw [hruns]
    exact List.filter_sublist

theorem Visits.dueOf_eq (hv : Visits now e budget b p budget' b' mid)
    (hp : (p.runs.map Prod.fst).Nodup)
    (hrefs : (p.runs.map Prod.snd).Nodup) (he : e ∈ p.runs) {key : Key}
      (hkey : key ∈ p.runs.map Prod.fst)
    (hne : key ≠ e.1) : mid.dueOf now key = p.dueOf now key := by
  obtain ⟨x, hx, rfl⟩ := List.mem_map.mp hkey
  have hxmid := hv.mem_runs hx hne
  have hg : x.2 ≠ e.2 := by
    intro heq
    exact hne (congrArg Prod.fst (List.inj_on_of_nodup_map hrefs hx he heq))
  rw [Pool.dueOf_eq ((hv.runs_sublist.map _).nodup hp) hxmid, Pool.dueOf_eq hp hx]
  unfold Pool.due Pool.sweepable
  rw [hv.others _ hg, hv.cfg]

theorem Visits.conserved (hv : Visits now e budget b p budget' b' mid) {l : List (Key × Nat)}
    (hl : (l.map Prod.snd).Nodup) (he : e ∈ l) (u : VM → ℤ) :
    total u b'.vms + total (fun x => total u (mid.heap x.2).ready) l =
      total u b.vms + total (fun x => total u (p.heap x.2).ready) l := by
  obtain ⟨taken, hvms, hready, -, -⟩ := hv.taken
  have hsum := total_update (fun _ rp => total u (RunPool.ready rp)) p.heap (mid.heap e.2) hl he
  rw [← hv.heap_eq, hready, total_append] at hsum
  rw [hvms, total_append]
  omega

/-- One more visit before a sweep is a sweep. -/
theorem Swept.cons (hkeys : (p.runs.map Prod.fst).Nodup) (hrefs : (p.runs.map Prod.snd).Nodup)
    (he : e ∈ p.runs) (hnew : e.1 ∉ keys) (hsub : ∀ k ∈ keys, k ∈ p.runs.map Prod.fst)
    (hv : Visits now e budget b p budget' b' mid) (hs : Swept now keys budget' b' mid b'' p') :
    Swept now (e.1 :: keys) budget b p b'' p' := by
  have hmem : ∀ x ∈ p.runs, x ≠ e → x ∈ mid.runs := by
    intro x hx hne
    refine hv.mem_runs hx ?_
    intro heq
    exact hne (List.inj_on_of_nodup_map hkeys hx he heq)
  have hne : ∀ x ∈ p.runs, x ≠ e → x.2 ≠ e.2 := by
    intro x hx hxe heq
    exact hxe (List.inj_on_of_nodup_map hrefs hx he heq)
  have hself : p'.heap e.2 = mid.heap e.2 := by
    refine hs.untouched e.2 ?_
    intro x hx heq
    rw [List.inj_on_of_nodup_map hrefs (hv.runs_sublist.subset hx) he heq]
    exact hnew
  refine ⟨?_, ?_, ?_, ?_, ?_, ?_, ?_⟩
  · obtain ⟨taken, hvms, -, htaken, hbudget⟩ := hv.taken
    have hrest : total (mid.dueOf now) keys = total (p.dueOf now) keys := by
      refine total_congr ?_
      intro k hk
      refine hv.dueOf_eq hkeys hrefs he (hsub k hk) ?_
      intro heq
      exact hnew (heq ▸ hk)
    have hcount := hs.count
    have hdue := p.due_nonneg now e.2
    have htotal : 0 ≤ total (p.dueOf now) keys := total_nonneg fun k _ => p.dueOf_nonneg now k
    rw [hrest, hvms, List.length_append, hbudget] at hcount
    rw [total_cons, Pool.dueOf_eq hkeys he]
    push_cast at hcount
    omega
  · intro g hg
    have hge : g ≠ e.2 := by
      intro heq
      exact hg e he heq.symm List.mem_cons_self
    rw [← hv.others g hge]
    refine hs.untouched g ?_
    intro x hx hxg hxk
    exact hg x (hv.runs_sublist.subset hx) hxg (List.mem_cons_of_mem _ hxk)
  · intro x hx hxk
    rw [List.mem_cons, not_or] at hxk
    exact hs.kept x (hv.mem_runs hx hxk.1) hxk.2
  · intro x hx hsweep
    by_cases hxe : x = e
    · subst hxe
      have hmid := hv.spared hsweep
      rw [hself, hmid]
      refine ⟨hs.kept x ?_ hnew, rfl⟩
      rw [hmid]
      exact hx
    · have hheap := hv.others x.2 (hne x hx hxe)
      rw [← hheap]
      refine hs.spared x (hmem x hx hxe) ?_
      unfold Pool.sweepable at hsweep ⊢
      rw [hheap, hv.cfg]
      exact hsweep
  · intro g hg
    by_cases hge : g = e.2
    · subst hge
      rw [hself] at hg ⊢
      rcases hv.parked with hsame | ⟨-, hready⟩
      · rw [hsame] at hg
        exact .inl hg
      · exact .inr hready
    · rw [← hv.others g hge]
      exact hs.parked g hg
  · intro x hx hgone
    by_cases hxe : x = e
    · subst hxe
      rcases hv.runs with hruns | ⟨-, -, hready, hold⟩
      · refine absurd (hs.kept x ?_ hnew) hgone
        rw [hruns]
        exact hx
      · rw [hself]
        exact ⟨hready, hold⟩
    · obtain ⟨hready, hold⟩ := hs.dropped x (hmem x hx hxe) hgone
      rw [hv.cfg, hv.others x.2 (hne x hx hxe)] at hold
      exact ⟨hready, hold⟩
  · intro l hl hsubl u
    rw [hs.conserved l hl (List.Subset.trans hv.runs_sublist.subset hsubl) u]
    exact hv.conserved hl (hsubl he) u

/-- INTERNAL: **the loop**, by induction on the order of the visits. -/
theorem swept_of_sweepLoop :
    ∀ {p p' : Pool} {budget budget' : Int} {b b' : ReclaimBatch}, (p.runs.map Prod.fst).Nodup →
      (p.runs.map Prod.snd).Nodup → (order.map Prod.fst).Nodup →
      (∀ k ∈ order.map Prod.fst, k ∈ p.runs.map Prod.fst) → 0 ≤ budget →
      Pool.sweepLoop now order p budget b = (budget', b', p') →
        Swept now (order.map Prod.fst) budget b p b' p' := by
  induction order with
  | nil =>
    intro p p' budget budget' b b' _ _ _ _ hb h
    cases h
    exact .stop (min_eq_right hb)
  | cons x rest ih =>
    intro p p' budget budget' b b' hkeys hrefs horder hsub hb h
    obtain ⟨key, d⟩ := x
    rw [List.map_cons, List.nodup_cons] at horder
    obtain ⟨e, he, rfl⟩ := List.mem_map.mp (hsub key List.mem_cons_self)
    have hrest : ∀ k ∈ rest.map Prod.fst, k ∈ p.runs.map Prod.fst := fun k hk =>
      hsub k (List.mem_cons_of_mem _ hk)
    unfold Pool.sweepLoop at h
    split at h
    · rename_i hspent
      cases h
      refine .stop ?_
      have htotal : 0 ≤ total (p.dueOf now) (((e.1, d) :: rest).map Prod.fst) :=
        total_nonneg fun k _ => p.dueOf_nonneg now k
      omega
    · split at h
      rename_i budget₁ b₁ mid hvisit
      have hv := visits_of_sweepVisit ((lookup_eq_some_iff hkeys).mpr he) hb hvisit
      obtain ⟨taken, -, -, htaken, hbudget⟩ := hv.taken
      refine .cons hkeys hrefs he horder.1 hrest hv (ih ((hv.runs_sublist.map _).nodup hkeys)
        ((hv.runs_sublist.map _).nodup hrefs) horder.2 ?_ ?_ h)
      · intro k hk
        obtain ⟨y, hy, rfl⟩ := List.mem_map.mp (hrest k hk)
        refine List.mem_map_of_mem (hv.mem_runs hy ?_)
        intro heq
        exact horder.1 (heq ▸ hk)
      · omega

end Loop

/-- **One pass of the sweep**: whatever the order of the visits, `sweepOnce` detaches
`MaxReclaimsPerScan` VMs or all the standbys of the runs that are not busy and have been idle for
`StandbyIdle`, whichever is less; it detaches them from the ready lists; it changes no other run; a
run that it marks parked has no standby left; and a run that it drops has none left either and has
been idle for `WorkspaceIdle`.
SRCLINE: sweep.go:30-99, runpool.go:66-70 -/
theorem sweepOnce_takes_budget_or_all {p : Pool} (hp : p.Sound) (now : Int)
    (order : List (Key × Detach))
    (horder : (order.map Prod.fst).Perm (p.runs.map Prod.fst)) {b : ReclaimBatch} {p' : Pool}
    (h : p.sweepOnce now order = (b, p')) :
    (b.vms.length : Int) = min p.cfg.maxReclaimsPerScan (p.dueTotal now) ∧
    (b.vms ++ p.runs.flatMap fun e => (p'.heap e.2).ready).Perm p.standbys ∧
    (∀ e ∈ p.runs, (p.heap e.2).busy = true ∨ now - (p.heap e.2).lastExec < p.cfg.standbyIdle →
      e ∈ p'.runs ∧ p'.heap e.2 = p.heap e.2) ∧
    (∀ g, (p.heap g).parked = false → (p'.heap g).parked = true → (p'.heap g).ready = []) ∧
    ∀ e ∈ p.runs, e ∉ p'.runs →
      (p'.heap e.2).ready = [] ∧ p.cfg.workspaceIdle ≤ now - (p.heap e.2).lastExec := by
  have hswept : Swept now (order.map Prod.fst) p.cfg.maxReclaimsPerScan ⟨[], []⟩ p b p' := by
    refine swept_of_sweepLoop hp.keys hp.refs (horder.nodup_iff.mpr hp.keys) ?_
      (le_of_lt hp.perScan)
      (Prod.ext rfl h)
    intro k hk
    exact horder.mem_iff.mp hk
  refine ⟨?_, ?_, ?_, ?_, hswept.dropped⟩
  · have hdue : total (p.dueOf now) (order.map Prod.fst) = p.dueTotal now := by
      rw [total_perm _ horder, total_map]
      exact total_congr fun e he => Pool.dueOf_eq hp.keys he
    have hcount := hswept.count
    rw [hdue] at hcount
    rw [hcount]
    exact zero_add _
  · rw [List.perm_iff_count]
    intro v
    have hlaw := hswept.conserved p.runs hp.refs (List.Subset.refl _) (unit v)
    rw [← total_flatMap, ← total_flatMap] at hlaw
    simp only [total_unit, List.count_nil] at hlaw
    rw [List.count_append]
    unfold Pool.standbys
    omega
  · intro e he hbusy
    refine hswept.spared e he ?_
    unfold Pool.sweepable
    rcases hbusy with hbusy | hidle
    · rw [hbusy]
      rfl
    · rw [decide_eq_false (not_le.mpr hidle), Bool.and_false]
  · intro g hnot hparked
    rcases hswept.parked g hparked with hold | hready
    · rw [hnot] at hold
      cases hold
    · exact hready

/-- Two runs have a standby each, and the clock is 90 seconds past their last `Exec`. -/
def standbysAB : List Action :=
  .callExec "a" 0 :: List.replicate 17 (.run 1 .go) ++
    .callExec "b" 0 :: .run 2 .go :: .run 2 .go :: .run 2 (.visit "a" ⟨0, false⟩) ::
    List.replicate 15 (.run 2 .go) ++
    [.tick 200000000, .fireReplenish ⟨0, "a", 200000000⟩] ++ List.replicate 6 (.run 3 .go) ++
    .fireReplenish ⟨1, "b", 200000000⟩ :: List.replicate 6 (.run 4 .go) ++ [.tick 90000000000]

/-- The budget is one VM, so that one of the two standbys is left. -/
theorem sweepOnce_takes_one_of_two :
    ∃ s, Reachable (poolSystem (smallConfig 0) smallLauncher) s ∧ s.pool.dueTotal s.pool.now = 2 ∧
      ((s.pool.sweepOnce s.pool.now [("b", ⟨0, false⟩), ("a", ⟨0, false⟩)]).1.vms.length : Int) =
        1 := by
  obtain ⟨s, hs, hP⟩ := exists_reachable_of_runSmall 0 standbysAB
    (fun s => decide (s.pool.runs.map Prod.fst = ["a", "b"] ∧ s.pool.cfg.maxReclaimsPerScan = 1 ∧
      s.pool.dueTotal s.pool.now = 2)) (by decide +kernel)
  obtain ⟨hruns, hscan, hdue⟩ := of_decide_eq_true hP
  have horder : ([("b", (⟨0, false⟩ : Detach)), ("a", ⟨0, false⟩)].map Prod.fst).Perm
      (s.pool.runs.map Prod.fst) := by
    rw [hruns]
    exact .swap _ _ _
  have hcount := (sweepOnce_takes_budget_or_all (sound_of_pool hs) s.pool.now _ horder rfl).1
  refine ⟨s, hs, hdue, hcount.trans ?_⟩
  rw [hscan, hdue]
  rfl

/-! ## The sweeping goroutine -/

/-- The steps of a sweep compute the loop. -/
theorem sweepStep_runs_sweepLoop (me : Nat) (now : Int) :
    ∀ (p : Pool) {todo : List Key} (budget : Int) (b : ReclaimBatch),
      (order.map Prod.fst).Perm todo →
      ∃ n, runActions (fun x ch => sweepStep x.1 me x.2 ch) (p, .visiting now todo budget b)
          ((order.take n).map (fun x => Choice.visit x.1 x.2) ++ [.go]) =
        some ({ (Pool.sweepLoop now order p budget b).2.2 with mu := none },
          .ofBatch (Pool.sweepLoop now order p budget b).2.1) := by
  induction order with
  | nil =>
    intro p todo budget b hperm
    rw [List.map_nil, List.nil_perm] at hperm
    subst hperm
    refine ⟨0, ?_⟩
    simp [runActions, sweepStep, Pool.sweepLoop]
  | cons x rest ih =>
    intro p todo budget b hperm
    obtain ⟨key, d⟩ := x
    unfold Pool.sweepLoop
    by_cases hspent : budget ≤ 0
    · refine ⟨0, ?_⟩
      simp [runActions, sweepStep, hspent]
    · rw [List.map_cons, List.cons_perm_iff_perm_erase] at hperm
      obtain ⟨hmem, hrest⟩ := hperm
      obtain ⟨n, hn⟩ := ih (p.sweepVisit now key d budget b).2.2
        (p.sweepVisit now key d budget b).1 (p.sweepVisit now key d budget b).2.1 hrest
      refine ⟨n + 1, ?_⟩
      rw [if_neg hspent, List.take_succ_cons, List.map_cons, List.cons_append, runActions]
      have hstep : sweepStep p me (.visiting now todo budget b) (.visit key d) =
          some ((p.sweepVisit now key d budget b).2.2, .visiting now (todo.erase key)
            (p.sweepVisit now key d budget b).1 (p.sweepVisit now key d budget b).2.1) := by
        unfold sweepStep
        exact if_neg (not_or.mpr ⟨hspent, not_not.mpr hmem⟩)
      rw [hstep]
      exact hn

/-- INTERNAL: **a sweeping goroutine that is scheduled from its lock to its unlock runs
`sweepOnce`**, in any order of the visits. -/
theorem sweepStep_runs_sweepOnce {p : Pool} {me : Nat} {now : Int} (free : p.mu = none)
    (horder : (order.map Prod.fst).Perm (p.runs.map Prod.fst)) :
    ∃ n, runActions (fun x ch => sweepStep x.1 me x.2 ch) (p, .lock now)
        (.go :: (order.take n).map (fun x => Choice.visit x.1 x.2) ++ [.go]) =
      some ({ (({ p with mu := some me } : Pool).sweepOnce now order).2 with mu := none },
        .ofBatch (({ p with mu := some me } : Pool).sweepOnce now order).1) := by
  obtain ⟨n, hn⟩ := sweepStep_runs_sweepLoop me now { p with mu := some me }
    p.cfg.maxReclaimsPerScan ⟨[], []⟩ horder
  refine ⟨n, ?_⟩
  have hlock : sweepStep p me (.lock now) .go = some ({ p with mu := some me },
      .visiting now (p.runs.map Prod.fst) p.cfg.maxReclaimsPerScan ⟨[], []⟩) := by
    unfold sweepStep
    rw [free]
    rfl
  rw [List.cons_append, runActions, hlock]
  exact hn

end ServerlessHarness.VmPool
