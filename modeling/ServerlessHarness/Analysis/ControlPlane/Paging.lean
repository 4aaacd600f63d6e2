import ServerlessHarness.Model.ControlPlane.Listing

/-!
# What paging leaves out

A page that ends between members of equal creation time loses the rest of them: the next page
begins below that time. A walk over all pages returns every recorded session once exactly if the
limit is at least one and no page ends before a recorded session of the same time
(`walk_complete`).
-/

set_option autoImplicit false

namespace ServerlessHarness.ControlPlane

open Library

variable {r : Redis} {subjectHash : String → String} {subject : String} {requested : Option Number}
  {limit : ℕ} {members : List (String × Int)} {m x : String × Int}

instance : IsTrans (String × Int) newerFirst where
  trans a b c := by
    rintro (hab | ⟨hab, hab'⟩) (hbc | ⟨hbc, hbc'⟩)
    · exact .inl (hbc.trans hab)
    · exact .inl (hbc ▸ hab)
    · exact .inl (hab ▸ hbc)
    · exact .inr ⟨hab.trans hbc, hbc'.trans hab'⟩

instance : Std.Total newerFirst where
  total a b := by
    rcases lt_trichotomy a.2 b.2 with hlt | heq | hgt
    · exact .inr (.inl hlt)
    · exact (le_total a.1 b.1).elim (fun h => .inr (.inr ⟨heq.symm, h⟩)) fun h =>
        .inl (.inr ⟨heq, h⟩)
    · exact .inl (.inl hgt)

/-- The member stands last on a full page of a walk over the members. -/
inductive EndsPage (limit : ℕ) : List (String × Int) → String × Int → Prop where
  | here {members : List (String × Int)} {m : String × Int}
    (full : (members.take limit).length = limit)
      (last : (members.take limit).getLast? = some m) : EndsPage limit members m
  | later {members : List (String × Int)} {m x : String × Int}
      (full : (members.take limit).length = limit) (last : (members.take limit).getLast? = some m)
      (next : EndsPage limit (below (some m.2) members) x) : EndsPage limit members x

/-- No page ends before a recorded session that is as old as its last member. -/
def TiesKept (r : Redis) (limit : ℕ) (members : List (String × Int)) : Prop :=
  ∀ last x, EndsPage limit members last → x ∈ members → x.2 = last.2 → x.1 < last.1 →
    r.getSession x.1 = none

theorem EndsPage.mem (h : EndsPage limit members m) : m ∈ members := by
  induction h with
  | here _ last => exact List.mem_of_mem_take (List.mem_of_getLast? last)
  | later _ _ _ ih => exact List.mem_of_mem_filter ih

/-- The sessions of some members that have a record. -/
def Redis.records (r : Redis) (members : List (String × Int)) : List SessionRecord :=
  members.filterMap fun m => r.getSession m.1

/-! ## One page -/

/-- What the order and the distinctness of the members come to. -/
def Ordered (members : List (String × Int)) : Prop :=
  members.Pairwise fun a b => newerFirst a b ∧ a.1 ≠ b.1

/-- INTERNAL: **a full page** splits the members: those on it, those as old as its last, those
below. -/
theorem split_full (h : Ordered members) (hlast : (members.take limit).getLast? = some m) :
    (∀ x ∈ members.take limit, m.2 < x.2 ∨ x.2 = m.2 ∧ m.1 ≤ x.1) ∧
      ∀ x ∈ members.drop limit, x.2 < m.2 ∨ x.2 = m.2 ∧ x.1 < m.1 := by
  obtain ⟨front, hfront⟩ := List.getLast?_eq_some_iff.mp hlast
  rw [Ordered, ← List.take_append_drop limit members, List.pairwise_append] at h
  obtain ⟨hpage, _, hacross⟩ := h
  constructor
  · intro x hx
    rw [hfront] at hx hpage
    rcases List.mem_append.mp hx with hin | hin
    · have hlater := (List.pairwise_append.mp hpage).2.2 x hin m (List.mem_singleton_self m)
      rcases hlater.1 with hlt | ⟨heq, hle⟩
      · exact .inl hlt
      · exact .inr ⟨heq, hle⟩
    · cases List.mem_singleton.mp hin
      exact .inr ⟨rfl, le_refl _⟩
  · intro x hx
    obtain ⟨hnewer, hne⟩ := hacross m (List.mem_of_getLast? hlast) x hx
    rcases hnewer with hlt | ⟨heq, hle⟩
    · exact .inl hlt
    · exact .inr ⟨heq.symm, lt_of_le_of_ne hle (Ne.symm hne)⟩

/-- The members after a full page that are as old as its last one. -/
def ties (limit : ℕ) (m : String × Int) (members : List (String × Int)) : List (String × Int) :=
  (members.drop limit).filter fun x => !decide (x.2 < m.2)

theorem below_last (h : Ordered members) (hlast : (members.take limit).getLast? = some m) :
    below (some m.2) members = (members.drop limit).filter fun x => x.2 < m.2 := by
  have hpage : (members.take limit).filter (fun x => x.2 < m.2) = [] := by
    rw [List.filter_eq_nil_iff]
    intro x hx
    rcases (split_full h hlast).1 x hx with hlt | ⟨heq, _⟩
    · simpa using hlt.le
    · simp [heq]
  rw [below, ← List.take_append_drop limit members, List.filter_append, List.take_append_drop]
  simp only [Option.all_some]
  rw [hpage, List.nil_append]

theorem records_split (h : Ordered members) (hlast : (members.take limit).getLast? = some m) :
    (r.records members).Perm (r.records (members.take limit) ++
      (r.records (ties limit m members) ++ r.records (below (some m.2) members))) := by
  have hrest : (r.records (members.drop limit)).Perm
      (r.records (ties limit m members) ++ r.records (below (some m.2) members)) := by
    rw [Redis.records, Redis.records, Redis.records, ← List.filterMap_append, below_last h hlast,
      ties]
    refine List.Perm.filterMap _ (List.perm_append_comm.trans ?_).symm
    exact List.filter_append_perm (fun x : String × Int => decide (x.2 < m.2)) (members.drop limit)
  have hall : r.records members = r.records (members.take limit) ++
      r.records (members.drop limit) := by
    rw [Redis.records, Redis.records, Redis.records, ← List.filterMap_append, List.take_append_drop]
  rw [hall]
  exact hrest.append_left _

/-- INTERNAL: **ties are kept** if the page loses no record, and so on below. -/
theorem tiesKept_iff (h : Ordered members) (hfull : (members.take limit).length = limit)
    (hlast : (members.take limit).getLast? = some m) :
    TiesKept r limit members ↔
      r.records (ties limit m members) = [] ∧ TiesKept r limit (below (some m.2) members) := by
  obtain ⟨hpage, hrest⟩ := split_full h hlast
  constructor
  · intro hkept
    constructor
    · rw [Redis.records, List.filterMap_eq_nil_iff]
      intro x hx
      obtain ⟨hdrop, hnot⟩ := List.mem_filter.mp hx
      rcases hrest x hdrop with hlt | ⟨heq, hid⟩
      · simp [hlt] at hnot
      · exact hkept m x (.here hfull hlast) (List.mem_of_mem_drop hdrop) heq hid
    · intro last x hends hx
      exact hkept last x (.later hfull hlast hends) (List.mem_of_mem_filter hx)
  · rintro ⟨hties, hkept⟩ last x hends hx heq hid
    cases hends with
    | here _ hlast' =>
      cases Option.some.inj (hlast.symm.trans hlast')
      rw [← List.take_append_drop limit members, List.mem_append] at hx
      rcases hx with hx | hx
      · rcases hpage x hx with hlt | ⟨_, hle⟩
        · exact absurd heq hlt.ne'
        · exact absurd hid (not_lt.mpr hle)
      · refine List.filterMap_eq_nil_iff.mp hties x (List.mem_filter.mpr ⟨hx, ?_⟩)
        simp [heq]
    | later _ hlast' hnext =>
      cases Option.some.inj (hlast.symm.trans hlast')
      have hlast_lt := (List.mem_filter.mp hnext.mem).2
      refine hkept last x hnext (List.mem_filter.mpr ⟨hx, ?_⟩) heq hid
      rwa [heq]

/-! ## The sorted set -/

theorem ordered_members (r : Redis) (key : String) : Ordered (r.members key) := by
  have hnodup : ((r.members key).map Prod.fst).Nodup := by
    refine (List.Perm.nodup_iff ?_).mpr ((r.zsets.get key).getD .empty).nodup
    exact (List.perm_insertionSort newerFirst _).map Prod.fst
  exact (List.pairwise_insertionSort newerFirst _).and (List.pairwise_map.mp hnodup)

theorem Ordered.below (h : Ordered members) (cursor : Option Int) :
    Ordered (below cursor members) :=
  h.sublist List.filter_sublist

variable {cursor : Option Int}

theorem below_below {c : Int} (hc : ∀ bound, cursor = some bound → c ≤ bound) :
    below (some c) (below cursor members) = below (some c) members := by
  rw [below, below, below, List.filter_filter]
  refine List.filter_congr ?_
  intro x _
  cases cursor with
  | none => simp
  | some bound =>
    have := hc bound rfl
    by_cases hx : x.2 < c
    · simp [hx, hx.trans_le this]
    · simp [hx]

/-- A page in terms of the members below its cursor. -/
theorem listByOwner_eq (hpos : 0 < pageLimit requested) {key : String}
    (hkey : key = ownerKey subjectHash subject)
    (hmembers : members = below cursor (r.members key)) :
    r.listByOwner subjectHash subject requested cursor =
      some ⟨r.records (members.take (pageLimit requested)),
        if (members.take (pageLimit requested)).length = pageLimit requested then
          (members.take (pageLimit requested)).getLast?.map Prod.snd
        else none⟩ := by
  have hscore : ∀ x ∈ members, r.zScore key x.1 = some x.2 := by
    intro x hx
    rw [hmembers] at hx
    have hentry := (List.perm_insertionSort newerFirst _).mem_iff.mp (List.mem_of_mem_filter hx)
    exact OrderedMap.get_eq_some.mpr hentry
  subst hkey hmembers
  simp only [Redis.listByOwner, Redis.zRange, Redis.records, List.filterMap_map, List.length_map]
  split
  · next hfull =>
    obtain ⟨x, hlast⟩ : ∃ x, ((below cursor (r.members (ownerKey subjectHash subject))).take
        (pageLimit requested)).getLast? = some x := by
      refine ⟨_, List.getLast?_eq_getLast_of_ne_nil ?_⟩
      exact List.ne_nil_of_length_pos (hpos.trans_eq hfull.symm)
    have hx := hscore x (List.mem_of_mem_take (List.mem_of_getLast? hlast))
    simp only [List.getLast?_map, hlast, Option.map_some, hx, Option.some_or]
    rfl
  · rfl

theorem listByOwner_of_zero (h : pageLimit requested = 0) (cursor : Option Int) :
    r.listByOwner subjectHash subject requested cursor = none := by
  simp [Redis.listByOwner, Redis.zRange, h]

/-! ## The walk -/

theorem walkPages_unique {fuel fuel' : ℕ} {a b : List SessionRecord}
    (ha : r.walkPages subjectHash subject requested fuel cursor = some a)
    (hb : r.walkPages subjectHash subject requested fuel' cursor = some b) : a = b := by
  induction fuel generalizing fuel' cursor a b with
  | zero => cases ha
  | succ fuel ih =>
    cases fuel' with
    | zero => cases hb
    | succ fuel' =>
      rw [Redis.walkPages] at ha hb
      obtain ⟨page, hpage, ha⟩ := Option.bind_eq_some_iff.mp ha
      rw [hpage, Option.bind_some] at hb
      cases hnext : page.nextCursor with
      | none =>
        simp only [hnext] at ha hb
        exact Option.some.inj (ha.symm.trans hb)
      | some next =>
        simp only [hnext, Option.map_eq_some_iff] at ha hb
        obtain ⟨rest, hrest, rfl⟩ := ha
        obtain ⟨rest', hrest', rfl⟩ := hb
        rw [ih hrest hrest']

/-- A list that holds no more than the second part is the whole only if the first part is empty. -/
theorem perm_append_iff {α : Type} {l a b : List α} (h : l.Subperm b) :
    l.Perm (a ++ b) ↔ a = [] ∧ l.Perm b := by
  constructor
  · intro hperm
    have hlen := hperm.length_eq
    have hle := h.length_le
    rw [List.length_append] at hlen
    have ha : a = [] := List.eq_nil_of_length_eq_zero (by omega)
    subst ha
    exact ⟨rfl, hperm⟩
  · rintro ⟨rfl, hperm⟩
    exact hperm

/-- INTERNAL: **every walk ends**, returns no session twice, and is complete if the ties are
kept. -/
theorem walk_complete (hpos : 0 < pageLimit requested) (n : ℕ) :
    ∀ (cursor : Option Int) (members : List (String × Int)),
    members = below cursor (r.members (ownerKey subjectHash subject)) → members.length ≤ n →
    ∃ fuel sessions, r.walkPages subjectHash subject requested fuel cursor = some sessions ∧
      sessions.Subperm (r.records members) ∧
      (sessions.Perm (r.records members) ↔ TiesKept r (pageLimit requested) members) := by
  induction n with
  | zero =>
    intro cursor members hmembers hlen
    have hnil : members = [] := List.eq_nil_of_length_eq_zero (Nat.le_zero.mp hlen)
    have hpage := listByOwner_eq hpos rfl hmembers
    subst hnil
    refine ⟨1, [], ?_, List.Subperm.refl _, ?_⟩
    · simp only [Redis.walkPages, hpage, Option.bind_some, List.take_nil, List.getLast?_nil,
        Option.map_none, ite_self]
      rfl
    · refine ⟨fun _ last x hends => ?_, fun _ => List.Perm.refl _⟩
      cases hends.mem
  | succ n ih =>
    intro cursor members hmembers hlen
    have hpage := listByOwner_eq hpos rfl hmembers
    have hordered : Ordered members := by
      rw [hmembers]
      exact (ordered_members r _).below cursor
    by_cases hfull : (members.take (pageLimit requested)).length = pageLimit requested
    · have hne : members.take (pageLimit requested) ≠ [] := by
        intro hnil
        rw [hnil] at hfull
        exact hpos.ne hfull
      obtain ⟨m, hlast⟩ : ∃ m, (members.take (pageLimit requested)).getLast? = some m :=
        ⟨_, List.getLast?_eq_getLast_of_ne_nil hne⟩
      have hm := List.mem_of_mem_take (List.mem_of_getLast? hlast)
      have hcursor : ∀ bound, cursor = some bound → m.2 ≤ bound := by
        rintro bound rfl
        rw [hmembers] at hm
        have := (List.mem_filter.mp hm).2
        simp only [Option.all_some, decide_eq_true_eq] at this
        exact this.le
      have hnext : below (some m.2) members = below (some m.2)
          (r.members (ownerKey subjectHash subject)) := by
        rw [hmembers, below_below hcursor]
      have hshorter : (below (some m.2) members).length ≤ n := by
        have : (below (some m.2) members).length < members.length := by
          rw [below, List.length_filter_lt_length_iff_exists]
          exact ⟨m, hm, by simp⟩
        omega
      obtain ⟨fuel, rest, hwalk, hsub, hiff⟩ := ih (some m.2) _ hnext hshorter
      have hsplit := records_split (r := r) hordered hlast
      refine ⟨fuel + 1, r.records (members.take (pageLimit requested)) ++ rest, ?_, ?_, ?_⟩
      · simp only [Redis.walkPages, hpage, Option.bind_some, if_pos hfull, hlast, Option.map_some,
          hwalk]
      · refine List.Subperm.trans ?_ hsplit.symm.subperm
        refine (List.subperm_append_left _).mpr (hsub.trans ?_)
        exact (List.sublist_append_right _ _).subperm
      · rw [tiesKept_iff hordered hfull hlast, ← hiff, ← perm_append_iff hsub]
        constructor
        · exact fun h => (List.perm_append_left_iff _).mp (h.trans hsplit)
        · exact fun h => ((List.perm_append_left_iff _).mpr h).trans hsplit.symm
    · have htake : members.take (pageLimit requested) = members := by
        rw [List.length_take] at hfull
        exact List.take_of_length_le (by omega)
      refine ⟨1, r.records members, ?_, List.Subperm.refl _, ?_⟩
      · simp only [Redis.walkPages, hpage, Option.bind_some, if_neg hfull]
        rw [htake]
      · refine ⟨fun _ last x hends => ?_, fun _ => List.Perm.refl _⟩
        cases hends with
        | here full _ => exact absurd full hfull
        | later full _ _ => exact absurd full hfull

/-- Following the cursors returns every session of the owner that has a record exactly once. -/
def WalkReturnsAll (r : Redis) (subjectHash : String → String) (subject : String)
    (requested : Option Number) : Prop :=
  ∃ fuel sessions, r.walkPages subjectHash subject requested fuel none = some sessions ∧
    sessions.Perm (r.records (r.members (ownerKey subjectHash subject)))

theorem walkReturnsAll_iff : WalkReturnsAll r subjectHash subject requested ↔
    0 < pageLimit requested ∧
      TiesKept r (pageLimit requested) (r.members (ownerKey subjectHash subject)) := by
  rcases Nat.eq_zero_or_pos (pageLimit requested) with hzero | hpos
  · refine iff_of_false ?_ fun h => h.1.ne' hzero
    rintro ⟨fuel, sessions, hwalk, _⟩
    cases fuel with
    | zero => cases hwalk
    | succ fuel =>
      rw [Redis.walkPages, listByOwner_of_zero hzero] at hwalk
      cases hwalk
  · have hall : r.members (ownerKey subjectHash subject) =
        below none (r.members (ownerKey subjectHash subject)) := by
      rw [below, eq_comm, List.filter_eq_self]
      exact fun _ _ => rfl
    obtain ⟨fuel, sessions, hwalk, _, hiff⟩ := walk_complete hpos _ none _ hall (Nat.le_refl _)
    rw [← hiff]
    constructor
    · rintro ⟨fuel', sessions', hwalk', hperm⟩
      rw [walkPages_unique hwalk hwalk']
      exact ⟨hpos, hperm⟩
    · exact fun h => ⟨fuel, sessions, hwalk, h.2⟩

/-- INTERNAL: **when paging is complete.** Following `nextCursor` returns every recorded session of
an owner once exactly if the limit, without its fraction, is at least one, and no member that ends
a full page is followed by a recorded one of the same creation time.
SRCLINE: ownership.ts:143-186 -/
theorem paging_complete_iff (r : Redis) (subjectHash : String → String) (subject : String)
    (requested : Option Number) :
    WalkReturnsAll r subjectHash subject requested ↔ 0 < pageLimit requested ∧
      ∀ last x, EndsPage (pageLimit requested) (r.members (ownerKey subjectHash subject)) last →
        x ∈ r.members (ownerKey subjectHash subject) → x.2 = last.2 → x.1 < last.1 →
        r.getSession x.1 = none :=
  walkReturnsAll_iff

/-- An old session and two that were created in the same millisecond. -/
def twins : Redis :=
  [("c", 5), ("a", 7), ("b", 7)].foldl
    (fun r (sid, time) =>
      (r.createRecord ⟨sid, "o", "o", time, false, none, "c", false⟩).zAdd
        (ownerKey id "o") time sid)
    .empty

/-- On pages of one a twin is in no page, and a limit below one has no pages. -/
theorem twin_left_out : ¬WalkReturnsAll twins id "o" (some (.finite 1)) ∧
    ¬WalkReturnsAll twins id "o" (some (.finite (1 / 2))) := by
  constructor
  · rw [walkReturnsAll_iff]
    rintro ⟨_, hkept⟩
    have hends : EndsPage (pageLimit (some (.finite 1))) (twins.members (ownerKey id "o"))
        ("b", 7) :=
      .here (by decide +kernel) (by decide +kernel)
    have hnone := hkept ("b", 7) ("a", 7) hends (by decide +kernel) rfl (by decide)
    exact absurd hnone (by decide +kernel)
  · rw [walkReturnsAll_iff]
    exact fun h => absurd h.1 (by decide +kernel)

/-- On pages of two the twins stay together, and the old session is on the second page. -/
theorem paging_complete_iff_twins : WalkReturnsAll twins id "o" (some (.finite (5 / 2))) := by
  have hlimit : pageLimit (some (.finite (5 / 2))) = 2 := by decide +kernel
  have hmembers : twins.members (ownerKey id "o") = [("b", 7), ("a", 7), ("c", 5)] := by
    decide +kernel
  rw [paging_complete_iff, hlimit, hmembers]
  refine ⟨Nat.zero_lt_two, fun last x hends hx htime hless => ?_⟩
  cases hends with
  | here _ hlast =>
    cases hlast
    simp only [List.mem_cons, List.not_mem_nil, or_false] at hx
    rcases hx with rfl | rfl | rfl
    · exact absurd hless (by decide)
    · exact absurd hless (by decide)
    · cases htime
  | later _ hlast hnext =>
    cases hlast
    cases hnext with
    | here full _ => cases full
    | later full _ _ => cases full

end ServerlessHarness.ControlPlane
