import ServerlessHarness.Library.Stream

/-!
# A stream with one consumer group

A Redis stream read through a consumer group: the last id delivered, the pending list (one
row for each entry that was delivered and not acknowledged, in the order of the ids), and the
registered consumers with the time of their last command. A value carries that its rows are
in order, name entries of the stream and are not above the last id delivered.

Each command has one equation for `Holds`, the relation between a consumer and the ids of its
rows; proofs about a program on top of the group go through these and not through the rows.
-/

set_option autoImplicit false

namespace ServerlessHarness.Library

universe u v

/-- A row of the pending list. -/
structure Row (C : Type v) where
  id : StreamId
  consumer : C
  deliveredAt : ℕ
  count : ℕ

/-- How long ago a row was last delivered. -/
def Row.idle {C : Type v} (row : Row C) (now : ℕ) : ℕ := now - row.deliveredAt

/-- The row after a claim; with `JUSTID` the claim is not counted as a delivery. -/
def Row.claimedBy {C : Type v} (row : Row C) (name : C) (now : ℕ) (justId : Bool) : Row C :=
  { row with
    consumer := name, deliveredAt := now, count := if justId then row.count else row.count + 1 }

/-- A stream and its consumer group. -/
structure GroupStream (β : Type u) (C : Type v) where
  stream : Stream β
  last : StreamId
  pel : List (Row C)
  consumers : List (C × ℕ)
  sorted : (pel.map Row.id).Pairwise (· < ·)
  stored : ∀ id ∈ pel.map Row.id, id ∈ stream.entries.map Prod.fst
  delivered : ∀ id ∈ pel.map Row.id, id ≤ last
  last_le : last ≤ stream.lastId

namespace GroupStream

variable {β : Type u} {C : Type v}

/-- `XGROUP CREATE … 0 MKSTREAM` on a new stream. -/
def empty : GroupStream β C where
  stream := .empty
  last := .mk 0 0
  pel := []
  consumers := []
  sorted := by simp
  stored := by simp
  delivered := by simp
  last_le := le_refl _

/-- `name` has a row for the entry `id`. -/
def Holds (g : GroupStream β C) (name : C) (id : StreamId) : Prop :=
  ∃ row ∈ g.pel, row.id = id ∧ row.consumer = name

/-- The entry `id` is in the pending list. -/
def Pending (g : GroupStream β C) (id : StreamId) : Prop := ∃ name, g.Holds name id

theorem pending_iff {g : GroupStream β C} {id : StreamId} :
    g.Pending id ↔ id ∈ g.pel.map Row.id := by
  constructor
  · rintro ⟨name, row, hrow, rfl, -⟩
    exact List.mem_map_of_mem hrow
  · intro h
    obtain ⟨row, hrow, rfl⟩ := List.mem_map.mp h
    exact ⟨row.consumer, row, hrow, rfl, rfl⟩

theorem Pending.le_last {g : GroupStream β C} {id : StreamId} (h : g.Pending id) : id ≤ g.last :=
  g.delivered id (pending_iff.mp h)

theorem Pending.exists_lookup {g : GroupStream β C} {id : StreamId} (h : g.Pending id) :
    ∃ v, g.stream.lookup id = some (id, v) := by
  obtain ⟨⟨_, v⟩, he, rfl⟩ := List.mem_map.mp (g.stored id (pending_iff.mp h))
  exact ⟨v, Stream.lookup_eq_some_iff.mpr ⟨he, rfl⟩⟩

theorem Holds.unique {g : GroupStream β C} {name name' : C} {id : StreamId} (h : g.Holds name id)
    (h' : g.Holds name' id) : name = name' := by
  obtain ⟨row, hrow, hid, rfl⟩ := h
  obtain ⟨row', hrow', hid', rfl⟩ := h'
  have nodup : (g.pel.map Row.id).Nodup := g.sorted.imp fun hlt => ne_of_lt hlt
  rw [List.inj_on_of_nodup_map nodup hrow hrow' (hid.trans hid'.symm)]

/-- Other rows, for a part of the ids. -/
def withRows (g : GroupStream β C) (pel : List (Row C))
    (h : (pel.map Row.id).Sublist (g.pel.map Row.id)) : GroupStream β C :=
  { g with
    pel := pel
    sorted := g.sorted.sublist h
    stored := fun id hid => g.stored id (h.subset hid)
    delivered := fun id hid => g.delivered id (h.subset hid) }

/-! ## Commands on the rows -/

/-- `XADD` with the id `*`. -/
def xadd (g : GroupStream β C) (now : ℕ) (v : β) : GroupStream β C :=
  { g with
    stream := g.stream.xaddAuto now v
    stored := fun id hid => by
      have := g.stored id hid
      simp only [Stream.entries_xaddAuto, List.map_append, List.mem_append]
      exact .inl this
    last_le := g.last_le.trans (g.stream.lastId_lt_nextId now).le }

/-- The row of the entry `id` goes to `name`. -/
def claimRow (g : GroupStream β C) (id : StreamId) (name : C) (now : ℕ) (justId : Bool) :
    GroupStream β C :=
  g.withRows (g.pel.map fun row => if row.id = id then row.claimedBy name now justId else row) <| by
    have hids : (g.pel.map fun row =>
        if row.id = id then row.claimedBy name now justId else row).map Row.id =
          g.pel.map Row.id := by
      rw [List.map_map]
      refine List.map_congr_left fun row _ => ?_
      simp only [Function.comp_apply]
      split <;> rfl
    rw [hids]

/-- The entry that a reader of new entries is served next. -/
def unread (g : GroupStream β C) : Option (StreamId × β) := g.stream.firstAbove g.last

/-- Delivers the next entry. -/
def deliver (g : GroupStream β C) (name : C) (now : ℕ) (e : StreamId × β) (h : g.unread = some e) :
    GroupStream β C :=
  { g with
    last := e.1
    pel := g.pel ++ [⟨e.1, name, now, 1⟩]
    sorted := by
      rw [List.map_append, List.pairwise_append]
      refine ⟨g.sorted, by simp, fun a ha b hb => ?_⟩
      obtain rfl : b = e.1 := by simpa using hb
      exact lt_of_le_of_lt (g.delivered a ha) (Stream.firstAbove_eq_some h).2.1
    stored := fun id hid => by
      rw [List.map_append, List.mem_append] at hid
      rcases hid with hid | hid
      · exact g.stored id hid
      · obtain rfl : id = e.1 := by simpa using hid
        exact List.mem_map_of_mem (Stream.firstAbove_eq_some h).1
    delivered := fun id hid => by
      rw [List.map_append, List.mem_append] at hid
      rcases hid with hid | hid
      · exact ((g.delivered id hid).trans_lt (Stream.firstAbove_eq_some h).2.1).le
      · obtain rfl : id = e.1 := by simpa using hid
        exact le_refl _
    last_le := g.stream.bounded e (Stream.firstAbove_eq_some h).1 }

/-- `XACK`. -/
def xack (g : GroupStream β C) (id : StreamId) : GroupStream β C :=
  g.withRows (g.pel.filter fun row => row.id ≠ id) (List.filter_sublist.map Row.id)

/-- `XPENDING` from `-` to `+`: id, idle time and delivery count of the first `n` rows. -/
def xpendingRange (g : GroupStream β C) (n now : ℕ) : List (StreamId × ℕ × ℕ) :=
  (g.pel.take n).map fun row => (row.id, row.idle now, row.count)

/-- `XPENDING` of one entry: its delivery count. -/
def xpendingEntry (g : GroupStream β C) (id : StreamId) : Option ℕ :=
  (g.pel.find? fun row => row.id = id).map Row.count

variable {g g' : GroupStream β C} {name c caller : C} {id i : StreamId} {now : ℕ} {justId : Bool}
  {e : StreamId × β}

theorem holds_claimRow : (g.claimRow id name now justId).Holds c i ↔
    (i = id ∧ c = name ∧ g.Pending id) ∨ (i ≠ id ∧ g.Holds c i) := by
  constructor
  · rintro ⟨row', hrow', rfl, rfl⟩
    obtain ⟨row, hrow, rfl⟩ := List.mem_map.mp hrow'
    by_cases hid : row.id = id
    · rw [if_pos hid]
      exact .inl ⟨hid, rfl, pending_iff.mpr (hid ▸ List.mem_map_of_mem hrow)⟩
    · rw [if_neg hid]
      exact .inr ⟨hid, row, hrow, rfl, rfl⟩
  · rintro (⟨rfl, rfl, _, row, hrow, hid, -⟩ | ⟨hne, row, hrow, rfl, rfl⟩)
    · exact ⟨row.claimedBy c now justId, List.mem_map.mpr ⟨row, hrow, if_pos hid⟩, hid, rfl⟩
    · exact ⟨row, List.mem_map.mpr ⟨row, hrow, if_neg hne⟩, rfl, rfl⟩

theorem count_claimRow {row' : Row C}
    (h : row' ∈ (g.claimRow id name now justId).pel) :
    ∃ row ∈ g.pel, row.id = row'.id ∧
      row'.count = if row.id = id ∧ justId = false then row.count + 1 else row.count := by
  obtain ⟨row, hrow, rfl⟩ := List.mem_map.mp h
  refine ⟨row, hrow, ?_⟩
  by_cases hid : row.id = id
  · cases justId <;> simp [hid, Row.claimedBy]
  · simp [hid]

theorem holds_deliver (h : g.unread = some e) :
    (g.deliver name now e h).Holds c i ↔ g.Holds c i ∨ (i = e.1 ∧ c = name) := by
  constructor
  · rintro ⟨row, hrow, rfl, rfl⟩
    rcases List.mem_append.mp hrow with hrow | hrow
    · exact .inl ⟨row, hrow, rfl, rfl⟩
    · obtain rfl : row = ⟨e.1, name, now, 1⟩ := by simpa using hrow
      exact .inr ⟨rfl, rfl⟩
  · rintro (⟨row, hrow, rfl, rfl⟩ | ⟨rfl, rfl⟩)
    · exact ⟨row, List.mem_append_left _ hrow, rfl, rfl⟩
    · exact ⟨⟨e.1, c, now, 1⟩, List.mem_append_right _ (by simp), rfl, rfl⟩

/-- A command that keeps some of the rows. -/
theorem holds_filter {P : C → StreamId → Prop} [∀ c i, Decidable (P c i)]
    (hpel : g'.pel = g.pel.filter fun row => P row.consumer row.id) :
    g'.Holds c i ↔ P c i ∧ g.Holds c i := by
  rw [Holds, hpel]
  constructor
  · rintro ⟨row, hrow, rfl, rfl⟩
    obtain ⟨hrow, hkept⟩ := List.mem_filter.mp hrow
    exact ⟨of_decide_eq_true hkept, row, hrow, rfl, rfl⟩
  · rintro ⟨hkept, row, hrow, rfl, rfl⟩
    exact ⟨row, List.mem_filter.mpr ⟨hrow, decide_eq_true hkept⟩, rfl, rfl⟩

@[simp] theorem holds_xack : (g.xack id).Holds c i ↔ i ≠ id ∧ g.Holds c i :=
  holds_filter (P := fun _ i => i ≠ id) rfl

theorem xpendingEntry_eq_some {n : ℕ} :
    g.xpendingEntry id = some n ↔ ∃ row ∈ g.pel, row.id = id ∧ row.count = n := by
  have nodup : (g.pel.map Row.id).Nodup := g.sorted.imp fun hlt => ne_of_lt hlt
  rw [xpendingEntry, Option.map_eq_some_iff]
  constructor
  · rintro ⟨row, hfind, rfl⟩
    exact ⟨row, List.mem_of_find?_eq_some hfind, by simpa using List.find?_some hfind, rfl⟩
  · rintro ⟨row, hrow, rfl, rfl⟩
    cases hfind : g.pel.find? fun r => decide (r.id = row.id) with
    | none => simpa using List.find?_eq_none.mp hfind row hrow
    | some row' =>
      have hid : row'.id = row.id := by simpa using List.find?_some hfind
      have hmem := List.mem_of_find?_eq_some hfind
      exact ⟨row', rfl, by rw [List.inj_on_of_nodup_map nodup hmem hrow hid]⟩

/-! ## What others may rely on -/

/-- What a command of the consumer `caller` can do, seen by everyone else: entries are only
delivered, rows of other consumers are not added, and an entry that was delivered and is not
pending stays so. -/
structure Advances (g g' : GroupStream β C) (caller : C) : Prop where
  stream : g'.stream = g.stream
  last_mono : g.last ≤ g'.last
  others : ∀ c i, c ≠ caller → g'.Holds c i → g.Holds c i
  pending : ∀ i, g'.Pending i → g.Pending i ∨ g.last < i

theorem Advances.refl (g : GroupStream β C) (caller : C) : Advances g g caller :=
  ⟨rfl, le_refl _, fun _ _ _ h => h, fun _ h => .inl h⟩

theorem Advances.not_pending (h : Advances g g' name) (hle : i ≤ g.last)
    (hi : ¬ g.Pending i) : i ≤ g'.last ∧ ¬ g'.Pending i := by
  refine ⟨hle.trans h.last_mono, fun hpending => ?_⟩
  rcases h.pending i hpending with hpending | hlt
  · exact hi hpending
  · exact absurd hle hlt.not_ge

theorem Advances.of_subset (stream : g'.stream = g.stream)
    (last : g'.last = g.last) (rows : ∀ c i, g'.Holds c i → g.Holds c i) : Advances g g' name where
  stream := stream
  last_mono := last.ge
  others := fun c i _ => rows c i
  pending := fun i hpending => hpending.elim fun c h => .inl ⟨c, rows c i h⟩

@[simp] theorem pending_claimRow :
    (g.claimRow id name now justId).Pending i ↔ g.Pending i := by
  constructor
  · rintro ⟨c, h⟩
    rcases holds_claimRow.mp h with ⟨rfl, -, hpending⟩ | ⟨-, h⟩
    · exact hpending
    · exact ⟨c, h⟩
  · rintro ⟨c, h⟩
    by_cases hid : i = id
    · exact ⟨name, holds_claimRow.mpr (.inl ⟨hid, rfl, hid ▸ ⟨c, h⟩⟩)⟩
    · exact ⟨c, holds_claimRow.mpr (.inr ⟨hid, h⟩)⟩

theorem advances_claimRow : Advances g (g.claimRow id name now justId) name where
  stream := rfl
  last_mono := le_refl _
  others := by
    intro c i hne h
    rcases holds_claimRow.mp h with ⟨-, rfl, -⟩ | ⟨-, h⟩
    · exact absurd rfl hne
    · exact h
  pending := fun i h => .inl (pending_claimRow.mp h)

theorem advances_deliver (h : g.unread = some e) :
    Advances g (g.deliver name now e h) name where
  stream := rfl
  last_mono := (Stream.firstAbove_eq_some h).2.1.le
  others := by
    intro c i hne hholds
    rcases (holds_deliver h).mp hholds with hholds | ⟨-, rfl⟩
    · exact hholds
    · exact absurd rfl hne
  pending := by
    rintro i ⟨c, hholds⟩
    rcases (holds_deliver h).mp hholds with hholds | ⟨rfl, -⟩
    · exact .inl ⟨c, hholds⟩
    · exact .inr (Stream.firstAbove_eq_some h).2.1

theorem advances_xack (caller : C) : Advances g (g.xack id) caller :=
  .of_subset rfl rfl fun _ _ h => (holds_xack.mp h).2

/-! ## Commands that name a consumer -/

section Consumers

variable [DecidableEq C]

/-- A command names its consumer: the server registers it, or notes the time. -/
def see (g : GroupStream β C) (name : C) (now : ℕ) : GroupStream β C :=
  { g with
    consumers :=
      if name ∈ g.consumers.map Prod.fst then
        g.consumers.map fun c => if c.1 = name then (name, now) else c
      else g.consumers ++ [(name, now)] }

/-- `XCLAIM` of one entry, and whether the server replied with it. -/
def xclaim (g : GroupStream β C) (name : C) (minIdle now : ℕ) (justId : Bool) (id : StreamId) :
    Bool × GroupStream β C :=
  if g.pel.any fun row => row.id = id && minIdle ≤ row.idle now then
    (true, (g.see name now).claimRow id name now justId)
  else (false, g.see name now)

/-- `XAUTOCLAIM` from `0` with `COUNT 1`, which looks at ten rows, and the id of the entry it
took. -/
def xautoclaim (g : GroupStream β C) (name : C) (minIdle now : ℕ) :
    Option StreamId × GroupStream β C :=
  match (g.pel.take 10).find? fun row => minIdle ≤ row.idle now with
  | some row => (some row.id, (g.see name now).claimRow row.id name now false)
  | none => (none, g.see name now)

/-- `XREADGROUP` for one new entry; without one the reader is only registered. -/
def xreadgroup (g : GroupStream β C) (name : C) (now : ℕ) :
    Option (StreamId × β) × GroupStream β C :=
  match h : (g.see name now).unread with
  | some e => (some e, (g.see name now).deliver name now e h)
  | none => (none, g.see name now)

/-- `XGROUP DELCONSUMER`, which drops the consumer's rows. -/
def delConsumer (g : GroupStream β C) (name : C) : GroupStream β C :=
  { g.withRows (g.pel.filter fun row => row.consumer ≠ name) (List.filter_sublist.map Row.id) with
    consumers := g.consumers.filter fun c => c.1 ≠ name }

/-- `XINFO CONSUMERS`: name, number of rows and idle time. -/
def xinfoConsumers (g : GroupStream β C) (now : ℕ) : List (C × ℕ × ℕ) :=
  g.consumers.map fun c => (c.1, (g.pel.filter fun row => row.consumer = c.1).length, now - c.2)

theorem xclaim_cases (g : GroupStream β C) (name : C) (minIdle now : ℕ) (justId : Bool)
    (id : StreamId) :
    (g.Pending id ∧
      g.xclaim name minIdle now justId id = (true, (g.see name now).claimRow id name now justId)) ∨
    g.xclaim name minIdle now justId id = (false, g.see name now) := by
  unfold xclaim
  split
  · rename_i hany
    obtain ⟨row, hrow, hid⟩ := List.any_eq_true.mp hany
    simp only [Bool.and_eq_true, decide_eq_true_eq] at hid
    exact .inl ⟨pending_iff.mpr (hid.1 ▸ List.mem_map_of_mem hrow), rfl⟩
  · exact .inr rfl

theorem xautoclaim_cases (g : GroupStream β C) (name : C) (minIdle now : ℕ) :
    (∃ id, g.Pending id ∧
      g.xautoclaim name minIdle now = (some id, (g.see name now).claimRow id name now false)) ∨
    g.xautoclaim name minIdle now = (none, g.see name now) := by
  unfold xautoclaim
  split
  · rename_i row hfound
    have hrow := List.mem_of_mem_take (List.mem_of_find?_eq_some hfound)
    exact .inl ⟨row.id, pending_iff.mpr (List.mem_map_of_mem hrow), rfl⟩
  · exact .inr rfl

theorem xreadgroup_cases (g : GroupStream β C) (name : C) (now : ℕ) :
    (∃ e h, g.xreadgroup name now = (some e, (g.see name now).deliver name now e h)) ∨
    (g.unread = none ∧ g.xreadgroup name now = (none, g.see name now)) := by
  unfold xreadgroup
  split
  · rename_i e h
    exact .inl ⟨e, h, rfl⟩
  · rename_i h
    exact .inr ⟨h, rfl⟩

@[simp] theorem holds_delConsumer : (g.delConsumer name).Holds c i ↔ c ≠ name ∧ g.Holds c i :=
  holds_filter (P := fun c _ => c ≠ name) rfl

theorem advances_see (caller : C) : Advances g (g.see name now) caller :=
  .of_subset rfl rfl fun _ _ h => h

theorem Advances.of_see (h : Advances (g.see name now) g' caller) : Advances g g' caller :=
  ⟨h.stream, h.last_mono, h.others, h.pending⟩

theorem advances_delConsumer (caller : C) : Advances g (g.delConsumer name) caller :=
  .of_subset rfl rfl fun _ _ h => (holds_delConsumer.mp h).2

/-- `name` has no rows. -/
def rowless (g : GroupStream β C) (name : C) : Bool := g.pel.all fun row => row.consumer ≠ name

theorem rowless_iff : g.rowless name = true ↔ ∀ i, ¬ g.Holds name i := by
  simp only [rowless, ne_eq, decide_not, List.all_eq_true, Bool.not_eq_true',
    decide_eq_false_iff_not]
  constructor
  · rintro h i ⟨row, hrow, -, hname⟩
    exact h row hrow hname
  · intro h row hrow hname
    exact h row.id ⟨row, hrow, rfl, hname⟩

end Consumers

end GroupStream

end ServerlessHarness.Library
