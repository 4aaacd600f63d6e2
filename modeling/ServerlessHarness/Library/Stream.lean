import Mathlib.Data.List.Nodup
import Mathlib.Data.Prod.Lex
import Mathlib.Order.Basic

/-!
# Append-only streams with ordered ids

A Redis stream: entries under strictly increasing two-part ids, and the last id ever given
out. An addition under an explicit id is refused unless the id is above the last one. A
value of `Stream` carries the order of its ids.
-/

set_option autoImplicit false

namespace ServerlessHarness.Library

universe u v

/-- An entry id: milliseconds and a sequence number, compared lexicographically. -/
abbrev StreamId : Type := ℕ ×ₗ ℕ

/-- The id `ms-seq`. -/
def StreamId.mk (ms seq : ℕ) : StreamId := toLex (ms, seq)

instance StreamId.lawfulBEq : LawfulBEq StreamId := inferInstance

@[simp] theorem StreamId.mk_lt_mk {a b n : ℕ} : StreamId.mk a n < StreamId.mk b n ↔ a < b := by
  simp [StreamId.mk, Prod.Lex.toLex_lt_toLex]

@[simp] theorem StreamId.mk_inj {a b n : ℕ} : StreamId.mk a n = StreamId.mk b n ↔ a = b := by
  simp [StreamId.mk]

/-- A stream: its entries in the order of their ids, and the last id given out. -/
structure Stream (β : Type u) where
  entries : List (StreamId × β)
  lastId : StreamId
  sorted : (entries.map Prod.fst).Pairwise (· < ·)
  bounded : ∀ e ∈ entries, e.1 ≤ lastId

namespace Stream

variable {β : Type u} {id : StreamId} {s : Stream β} {e : StreamId × β}

/-- A stream that was never written to. -/
def empty : Stream β := ⟨[], StreamId.mk 0 0, by simp, by simp⟩

/-- Adds an entry under an id above the last one. -/
def push (s : Stream β) (id : StreamId) (v : β) (h : s.lastId < id) : Stream β where
  entries := s.entries ++ [(id, v)]
  lastId := id
  sorted := by
    rw [List.map_append, List.pairwise_append]
    refine ⟨s.sorted, by simp, ?_⟩
    intro a ha b hb
    obtain ⟨e, he, rfl⟩ := List.mem_map.mp ha
    obtain rfl : b = id := by simpa using hb
    exact lt_of_le_of_lt (s.bounded e he) h
  bounded := by
    intro e he
    rcases List.mem_append.mp he with he | he
    · exact (lt_of_le_of_lt (s.bounded e he) h).le
    · obtain rfl : e = (id, v) := by simpa using he
      exact le_refl _

/-- `XADD` with an explicit id; `none` is the server's refusal. -/
def xadd (s : Stream β) (id : StreamId) (v : β) : Option (Stream β) :=
  if h : s.lastId < id then some (s.push id v h) else none

theorem xadd_eq_none_iff {v : β} :
    s.xadd id v = none ↔ id ≤ s.lastId := by
  unfold xadd
  split <;> simp_all

theorem entries_of_xadd {t : Stream β} {v : β} (h : s.xadd id v = some t) :
    s.lastId < id ∧ t.entries = s.entries ++ [(id, v)] ∧ t.lastId = id := by
  unfold xadd at h
  split at h
  · rename_i hlt
    cases h
    exact ⟨hlt, rfl, rfl⟩
  · cases h

theorem entry_unique (s : Stream β) {e' : StreamId × β} (he : e ∈ s.entries)
    (he' : e' ∈ s.entries) (h : e.1 = e'.1) : e = e' :=
  List.inj_on_of_nodup_map (s.sorted.imp fun hlt => ne_of_lt hlt) he he' h

/-- The id that `XADD` with the id `*` gives out at the time `now`: the clock's milliseconds, or
the next sequence number while the clock is not past the last id. -/
def nextId (s : Stream β) (now : ℕ) : StreamId :=
  if (ofLex s.lastId).1 < now then .mk now 0
  else .mk (ofLex s.lastId).1 ((ofLex s.lastId).2 + 1)

theorem lastId_lt_nextId (s : Stream β) (now : ℕ) : s.lastId < s.nextId now := by
  unfold nextId
  split <;> simp [StreamId.mk, Prod.Lex.lt_iff, *]

/-- `XADD` with the id `*`. -/
def xaddAuto (s : Stream β) (now : ℕ) (v : β) : Stream β :=
  s.push (s.nextId now) v (s.lastId_lt_nextId now)

@[simp] theorem entries_xaddAuto (s : Stream β) (now : ℕ) (v : β) :
    (s.xaddAuto now v).entries = s.entries ++ [(s.nextId now, v)] := rfl

/-- The entry with an id. -/
def lookup (s : Stream β) (id : StreamId) : Option (StreamId × β) :=
  s.entries.find? (·.1 = id)

theorem lookup_eq_some_iff :
    s.lookup id = some e ↔ e ∈ s.entries ∧ e.1 = id := by
  constructor
  · intro h
    exact ⟨List.mem_of_find?_eq_some h, by simpa using List.find?_some h⟩
  · rintro ⟨he, rfl⟩
    cases hfound : s.lookup e.1 with
    | none => simpa using List.find?_eq_none.mp hfound e he
    | some e' =>
      have heq : e'.1 = e.1 := by simpa using List.find?_some hfound
      rw [s.entry_unique (List.mem_of_find?_eq_some hfound) he heq]

/-- The first entry above an id. -/
def firstAbove (s : Stream β) (id : StreamId) : Option (StreamId × β) :=
  s.entries.find? (fun e => decide (id < e.1))

theorem firstAbove_eq_some (h : s.firstAbove id = some e) :
    e ∈ s.entries ∧ id < e.1 ∧ ∀ e' ∈ s.entries, id < e'.1 → e.1 ≤ e'.1 := by
  obtain ⟨habove, before, after, hentries, hbefore⟩ := List.find?_eq_some_iff_append.mp h
  refine ⟨by simp [hentries], by simpa using habove, fun e' he' habove' => ?_⟩
  have hsorted := s.sorted
  rw [hentries, List.map_append, List.map_cons] at hsorted
  rw [hentries] at he'
  rcases List.mem_append.mp he' with hmem | hmem
  · have := hbefore e' hmem
    simp only [habove', decide_true, Bool.not_true, Bool.false_eq_true] at this
  · rcases List.mem_cons.mp hmem with rfl | hmem
    · exact le_refl _
    · exact ((List.pairwise_cons.mp (List.pairwise_append.mp hsorted).2.1).1 _
        (List.mem_map_of_mem hmem)).le

end Stream

end ServerlessHarness.Library
