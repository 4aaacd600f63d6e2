import Mathlib.Data.List.Perm.Basic
import ServerlessHarness.Library.OrderedMap
import ServerlessHarness.Library.Slots

/-!
# Custody: who holds a numbered entry

Entries are numbered in the order of their arrival, and at any time each is held by at most one of
the holders that are listed, in no particular order, with their numbers. A law says what is true of
an entry together with what its holder knows (`some a`), or, when nobody holds it, of the entry
alone (`none`). Custody is kept when an entry arrives (`Custody.arrive`), when one holder goes on
or lets its entry go (`Custody.move`), and when the law only weakens (`Custody.mono`).

A directory lists live items by a key that they do not share: each is found under its key, and what
is found under a key is live. The last part is about a list that is changed in one place, seen as a
multiset.
-/

set_option autoImplicit false

namespace ServerlessHarness.Library

universe u v w

section Custody

variable {ρ : Type u} {α : Type v}

structure Custody (holders : List (ℕ × α)) (entries : List ρ) (law : ℕ → ρ → Option α → Prop) :
    Prop where
  distinct : (holders.map Prod.fst).Nodup
  held : ∀ n a, (n, a) ∈ holders → ∃ r, entries[n]? = some r ∧ law n r (some a)
  free : ∀ n r, entries[n]? = some r → n ∉ holders.map Prod.fst → law n r none

variable {holders holders' rest : List (ℕ × α)} {entries : List ρ}
  {law law' : ℕ → ρ → Option α → Prop}

theorem Custody.empty : Custody ([] : List (ℕ × α)) ([] : List ρ) law where
  distinct := List.nodup_nil
  held _ _ h := nomatch h
  free _ _ h _ := nomatch h

theorem Custody.mono (h : Custody holders entries law) (hperm : holders'.Perm holders)
    (hlaw : ∀ n r o, law n r o → law' n r o) : Custody holders' entries law' where
  distinct := (hperm.map Prod.fst).nodup_iff.mpr h.distinct
  held n a ha := by
    obtain ⟨r, hr, hl⟩ := h.held n a (hperm.mem_iff.mp ha)
    exact ⟨r, hr, hlaw n r _ hl⟩
  free n r hr hn := by
    have hn' : n ∉ holders.map Prod.fst := fun hin => hn ((hperm.map Prod.fst).mem_iff.mpr hin)
    exact hlaw n r none (h.free n r hr hn')

theorem Custody.lt_length (h : Custody holders entries law) {n : ℕ}
    (hn : n ∈ holders.map Prod.fst) : n < entries.length := by
  obtain ⟨⟨k, a⟩, ha, rfl⟩ := List.mem_map.mp hn
  obtain ⟨r, hr, _⟩ := h.held k a ha
  exact lt_of_slot hr

/-- INTERNAL: **an entry arrives**, with a holder or without one. -/
theorem Custody.arrive (h : Custody holders entries law) {r : ρ} {o : Option α}
    (hperm : holders'.Perm ((o.map (Prod.mk entries.length)).toList ++ holders))
    (hnew : law' entries.length r o)
    (hold : ∀ n r o, n < entries.length → law n r o → law' n r o) :
    Custody holders' (entries ++ [r]) law' := by
  have hfresh : entries.length ∉ holders.map Prod.fst := fun hin =>
    Nat.lt_irrefl _ (h.lt_length hin)
  have hkeep : ∀ n a, (n, a) ∈ holders → ∃ r', (entries ++ [r])[n]? = some r' ∧
      law' n r' (some a) := by
    intro n a ha
    obtain ⟨r', hr', hl⟩ := h.held n a ha
    exact ⟨r', slot_append hr' [r], hold n r' _ (lt_of_slot hr') hl⟩
  have hlast : (entries ++ [r])[entries.length]? = some r := List.getElem?_concat_length
  cases o with
  | none =>
    change holders'.Perm holders at hperm
    refine ⟨(hperm.map Prod.fst).nodup_iff.mpr h.distinct, ?_, ?_⟩
    · intro n a ha
      exact hkeep n a (hperm.mem_iff.mp ha)
    · intro n r' hr' hn
      have hn' : n ∉ holders.map Prod.fst := fun hin => hn ((hperm.map Prod.fst).mem_iff.mpr hin)
      rcases slot_of_append hr' with hbefore | ⟨hlen, heq⟩
      · exact hold n r' none (lt_of_slot hbefore) (h.free n r' hbefore hn')
      · rw [hlen, ← heq]
        exact hnew
  | some a =>
    change holders'.Perm ((entries.length, a) :: holders) at hperm
    refine ⟨?_, ?_, ?_⟩
    · rw [(hperm.map Prod.fst).nodup_iff]
      exact List.nodup_cons.mpr ⟨hfresh, h.distinct⟩
    · intro n b hb
      rcases List.mem_cons.mp (hperm.mem_iff.mp hb) with heq | hin
      · cases heq
        exact ⟨r, hlast, hnew⟩
      · exact hkeep n b hin
    · intro n r' hr' hn
      have hn' : n ∉ entries.length :: holders.map Prod.fst := fun hin =>
        hn ((hperm.map Prod.fst).mem_iff.mpr hin)
      rw [List.mem_cons, not_or] at hn'
      rcases slot_of_append hr' with hbefore | ⟨hlen, _⟩
      · exact hold n r' none (lt_of_slot hbefore) (h.free n r' hbefore hn'.2)
      · exact absurd hlen hn'.1

/-- INTERNAL: **a holder goes on**, or lets its entry go; its entry may be rewritten. -/
theorem Custody.move (h : Custody holders entries law) {n : ℕ} {a : α} {o : Option α} {g : ρ → ρ}
    (hperm : holders.Perm ((n, a) :: rest))
    (hperm' : holders'.Perm ((o.map (Prod.mk n)).toList ++ rest))
    (hmove : ∀ r, law n r (some a) → law' n (g r) o)
    (hother : ∀ j r o, j ≠ n → law j r o → law' j r o) :
    Custody holders' (entries.modify n g) law' := by
  have hdistinct : (n :: rest.map Prod.fst).Nodup := (hperm.map Prod.fst).nodup_iff.mp h.distinct
  obtain ⟨hnotin, hrest⟩ := List.nodup_cons.mp hdistinct
  obtain ⟨r, hr, hl⟩ := h.held n a (hperm.mem_iff.mpr List.mem_cons_self)
  have hself : (entries.modify n g)[n]? = some (g r) := slot_modify_self hr
  have hkeep : ∀ j b, (j, b) ∈ rest →
      ∃ r', (entries.modify n g)[j]? = some r' ∧ law' j r' (some b) := by
    intro j b hb
    have hne : j ≠ n := fun heq => hnotin (heq ▸ List.mem_map_of_mem hb)
    obtain ⟨r', hr', hl'⟩ := h.held j b (hperm.mem_iff.mpr (List.mem_cons_of_mem _ hb))
    refine ⟨r', ?_, hother j r' _ hne hl'⟩
    rw [slot_modify_ne hne.symm]
    exact hr'
  have hfree : ∀ j r', j ≠ n → (entries.modify n g)[j]? = some r' → j ∉ rest.map Prod.fst →
      law' j r' none := by
    intro j r' hne hr' hj
    rw [slot_modify_ne hne.symm] at hr'
    refine hother j r' none hne (h.free j r' hr' ?_)
    intro hin
    rcases List.mem_cons.mp ((hperm.map Prod.fst).mem_iff.mp hin) with heq | hin'
    · exact hne heq
    · exact hj hin'
  cases o with
  | none =>
    change holders'.Perm rest at hperm'
    refine ⟨(hperm'.map Prod.fst).nodup_iff.mpr hrest, ?_, ?_⟩
    · intro j b hb
      exact hkeep j b (hperm'.mem_iff.mp hb)
    · intro j r' hr' hj
      by_cases hne : j = n
      · subst hne
        rw [hself] at hr'
        cases hr'
        exact hmove r hl
      · exact hfree j r' hne hr' fun hin => hj ((hperm'.map Prod.fst).mem_iff.mpr hin)
  | some b =>
    change holders'.Perm ((n, b) :: rest) at hperm'
    refine ⟨(hperm'.map Prod.fst).nodup_iff.mpr hdistinct, ?_, ?_⟩
    · intro j b' hb'
      rcases List.mem_cons.mp (hperm'.mem_iff.mp hb') with heq | hin
      · cases heq
        exact ⟨g r, hself, hmove r hl⟩
      · exact hkeep j b' hin
    · intro j r' hr' hj
      have hj' : j ∉ n :: rest.map Prod.fst := fun hin =>
        hj ((hperm'.map Prod.fst).mem_iff.mpr hin)
      rw [List.mem_cons, not_or] at hj'
      exact hfree j r' hj'.1 hr' hj'.2

end Custody

section Directory

variable {α : Type u} {κ : Type v} {ι : Type w} [DecidableEq κ]

/-- The cell `i` that is listed under the key of a live item `a` is the cell of that item. -/
structure Directory (live : List α) (key : α → κ) (listed : OrderedMap κ ι) (cell : ι → α → Prop) :
    Prop where
  distinct : (live.map key).Nodup
  found : ∀ a ∈ live, ∃ i, listed.get (key a) = some i ∧ cell i a
  alive : ∀ k i, listed.get k = some i → ∃ a ∈ live, key a = k

variable {live live' : List α} {key : α → κ} {listed : OrderedMap κ ι} {cell cell' : ι → α → Prop}

theorem Directory.empty : Directory [] key (OrderedMap.empty : OrderedMap κ ι) cell where
  distinct := List.nodup_nil
  found _ h := nomatch h
  alive _ _ h := nomatch h

theorem Directory.mono (h : Directory live key listed cell) (hperm : live'.Perm live)
    (hcell : ∀ i a, cell i a → cell' i a) : Directory live' key listed cell' where
  distinct := (hperm.map key).nodup_iff.mpr h.distinct
  found a ha := by
    obtain ⟨i, hi, hc⟩ := h.found a (hperm.mem_iff.mp ha)
    exact ⟨i, hi, hcell i a hc⟩
  alive k i hi := by
    obtain ⟨a, ha, hk⟩ := h.alive k i hi
    exact ⟨a, hperm.mem_iff.mpr ha, hk⟩

theorem Directory.cell_of_get (h : Directory live key listed cell) {k : κ} {i : ι}
    (hi : listed.get k = some i) : ∃ a ∈ live, key a = k ∧ cell i a := by
  obtain ⟨a, ha, rfl⟩ := h.alive k i hi
  obtain ⟨j, hj, hc⟩ := h.found a ha
  rw [hi] at hj
  cases hj
  exact ⟨a, ha, rfl, hc⟩

theorem Directory.enter (h : Directory live key listed cell) {a : α} {i : ι}
    (hunused : listed.get (key a) = none) (hperm : live'.Perm (a :: live))
    (hnew : cell' i a) (hcell : ∀ j b, cell j b → cell' j b) :
    Directory live' key (listed.set (key a) i) cell' := by
  have hne : ∀ b ∈ live, key b ≠ key a := by
    intro b hb heq
    obtain ⟨j, hj, _⟩ := h.found b hb
    rw [heq, hunused] at hj
    cases hj
  refine ⟨?_, ?_, ?_⟩
  · rw [(hperm.map key).nodup_iff]
    refine List.nodup_cons.mpr ⟨?_, h.distinct⟩
    intro hin
    obtain ⟨b, hb, heq⟩ := List.mem_map.mp hin
    exact hne b hb heq
  · intro b hb
    rcases List.mem_cons.mp (hperm.mem_iff.mp hb) with rfl | hin
    · exact ⟨i, OrderedMap.get_set_self, hnew⟩
    · obtain ⟨j, hj, hc⟩ := h.found b hin
      refine ⟨j, ?_, hcell j b hc⟩
      rw [OrderedMap.get_set_ne (hne b hin)]
      exact hj
  · intro k j hj
    by_cases hk : k = key a
    · exact ⟨a, hperm.mem_iff.mpr List.mem_cons_self, hk.symm⟩
    · rw [OrderedMap.get_set_ne hk] at hj
      obtain ⟨b, hb, hkb⟩ := h.alive k j hj
      exact ⟨b, hperm.mem_iff.mpr (List.mem_cons_of_mem _ hb), hkb⟩

theorem Directory.leave (h : Directory live key listed cell) {a : α}
    (hperm : live.Perm (a :: live')) (hcell : ∀ j b, cell j b → cell' j b) :
    Directory live' key (listed.erase (key a)) cell' := by
  obtain ⟨hnotin, hrest⟩ := List.nodup_cons.mp ((hperm.map key).nodup_iff.mp h.distinct)
  refine ⟨hrest, ?_, ?_⟩
  · intro b hb
    obtain ⟨j, hj, hc⟩ := h.found b (hperm.mem_iff.mpr (List.mem_cons_of_mem _ hb))
    have hne : key b ≠ key a := fun heq => hnotin (heq ▸ List.mem_map_of_mem hb)
    refine ⟨j, ?_, hcell j b hc⟩
    rw [OrderedMap.get_erase_ne hne]
    exact hj
  · intro k j hj
    obtain ⟨hne, hj'⟩ := OrderedMap.get_erase_eq_some hj
    obtain ⟨b, hb, hkb⟩ := h.alive k j hj'
    rcases List.mem_cons.mp (hperm.mem_iff.mp hb) with rfl | hin
    · exact absurd hkb.symm hne
    · exact ⟨b, hin, hkb⟩

end Directory

section Place

variable {τ : Type u} {υ : Type v} {l : List τ} {i : ℕ} {t : τ}

theorem filterMap_perm_of_slot (f : τ → Option υ) (h : l[i]? = some t) :
    (l.filterMap f).Perm ((f t).toList ++ (l.eraseIdx i).filterMap f) := by
  obtain ⟨hlt, heq⟩ := List.getElem?_eq_some_iff.mp h
  have hperm : (t :: l.eraseIdx i).Perm l := heq ▸ List.getElem_cons_eraseIdx_perm hlt
  refine (hperm.symm.filterMap f).trans ?_
  rw [List.filterMap_cons]
  cases f t <;> exact .refl _

end Place

end ServerlessHarness.Library
