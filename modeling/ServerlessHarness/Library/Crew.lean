import Mathlib.Algebra.BigOperators.Group.List.Basic
import Mathlib.Algebra.Order.BigOperators.Group.List
import Mathlib.Algebra.Order.Group.Int
import Mathlib.Algebra.Order.Group.Nat
import Mathlib.Data.List.Nodup
import Mathlib.Logic.Function.Basic
import Mathlib.Tactic.Abel
import ServerlessHarness.Library.Splits
import ServerlessHarness.Library.Transition

/-!
# Crews: members that take turns on a shared state

`Interleave R joins` is the interleaving of the local steps `R` of the members of a list,
each of which reads and writes one shared state; new members join at the end. A quantity
of the shared state that balances a sum over the members (`total`) is kept by a step that
changes one member when it changes by what that member's share changes (`total_set`).

The second half sums over a map from names to references into a heap (`Function.update`
is a write through one reference): the sum changes by what the written cell changes, and
by the removed entry when one is deleted.
-/

set_option autoImplicit false

namespace ServerlessHarness.Library

universe u v w

/-- One member takes a local step, or a new one joins. -/
inductive Interleave {σ : Type u} {τ : Type v} (R : σ → τ → σ → τ → Prop) (joins : τ → Prop) :
    σ × List τ → σ × List τ → Prop where
  | act {s s' : σ} {l : List τ} {i : Nat} {t t' : τ} (at_i : l[i]? = some t)
      (step : R s t s' t') : Interleave R joins (s, l) (s', l.set i t')
  | join {s : σ} {l : List τ} {t : τ} (ok : joins t) : Interleave R joins (s, l) (s, l ++ [t])

section Members

variable {σ : Type u} {τ : Type v}
variable {l : List τ} {t t' : τ} {i : Nat} {p : τ → Bool} {f : τ → ℤ}

theorem Interleave.acts {R : σ → τ → σ → τ → Prop} (joins : τ → Prop) {a b : σ × τ}
    (hi : l[i]? = some a.2) (h : Relation.ReflTransGen (fun x y : σ × τ => R x.1 x.2 y.1 y.2) a b) :
    Relation.ReflTransGen (Interleave R joins) (a.1, l) (b.1, l.set i b.2) := by
  have hlen : i < l.length := (List.getElem?_eq_some_iff.mp hi).1
  have hself : l.set i a.2 = l := by
    obtain ⟨_, heq⟩ := List.getElem?_eq_some_iff.mp hi
    rw [← heq]
    exact List.set_getElem_self hlen
  induction h with
  | refl => rw [hself]
  | @tail m c _ hstep ih =>
    refine ih.tail ?_
    have hm : (l.set i m.2)[i]? = some m.2 := by simp [hlen]
    have hact : Interleave R joins (m.1, l.set i m.2) (c.1, (l.set i m.2).set i c.2) :=
      .act hm hstep
    simpa using hact

/-- The sum of a share over the members. -/
def total {M : Type w} [AddCommMonoid M] (f : τ → M) (l : List τ) : M := (l.map f).sum

section

variable {M : Type w} [AddCommMonoid M] (f : τ → M)

@[simp] theorem total_nil : total f [] = 0 := rfl

@[simp] theorem total_cons (t : τ) (l : List τ) : total f (t :: l) = f t + total f l := rfl

@[simp] theorem total_append (l l' : List τ) : total f (l ++ l') = total f l + total f l' := by
  simp [total]

theorem total_map {υ : Type u} (g : υ → τ) (l : List υ) :
    total f (l.map g) = total (fun t => f (g t)) l := by
  simp [total, Function.comp_def]

theorem total_flatMap {υ : Type u} (g : υ → List τ) (l : List υ) :
    total f (l.flatMap g) = total (fun t => total f (g t)) l := by
  induction l with
  | nil => rfl
  | cons t l ih => rw [List.flatMap_cons, total_append, ih, total_cons]

theorem total_filterMap {υ : Type u} (g : υ → Option τ) (l : List υ) :
    total f (l.filterMap g) = total (fun t => total f (g t).toList) l := by
  induction l with
  | nil => rfl
  | cons t l ih => cases h : g t <;> simp [h, ih]

theorem total_perm {l' : List τ} (h : l.Perm l') : total f l = total f l' :=
  (h.map f).sum_eq

theorem total_add (f g : τ → M) (l : List τ) :
    total (fun t => f t + g t) l = total f l + total g l := by
  induction l with
  | nil => simp
  | cons t l ih =>
    simp only [total_cons, ih]
    abel

/-- INTERNAL: **the balance of one turn**: replacing a member replaces its share. -/
theorem total_set (t' : τ) (hi : l[i]? = some t) :
    total f (l.set i t') + f t = total f l + f t' := by
  induction l generalizing i with
  | nil => simp at hi
  | cons x l ih =>
    cases i with
    | zero =>
      cases hi
      simp only [List.set_cons_zero, total_cons]
      abel
    | succ i =>
      simp only [List.getElem?_cons_succ] at hi
      have := ih hi
      simp only [List.set_cons_succ, total_cons]
      rw [add_assoc, this, add_assoc]

end

theorem exists_pos_of_total_pos {M : Type w} [AddCommMonoid M] [LinearOrder M]
    [IsOrderedAddMonoid M] {f : τ → M} (h : 0 < total f l) : ∃ t ∈ l, 0 < f t :=
  List.exists_lt_of_sum_lt (fun _ => 0) f (by simpa [total] using h)

theorem le_total (hf : ∀ t, 0 ≤ f t) (ht : t ∈ l) :
    f t ≤ total f l :=
  List.single_le_sum (by simpa using fun a _ => hf a) _ (List.mem_map_of_mem ht)

theorem total_nonneg (hf : ∀ t ∈ l, 0 ≤ f t) : 0 ≤ total f l :=
  List.sum_nonneg (by simpa using hf)

theorem total_le_total {g : τ → ℤ} (h : ∀ t ∈ l, f t ≤ g t) :
    total f l ≤ total g l :=
  List.sum_le_sum h

theorem total_congr {M : Type w} [AddCommMonoid M] {f g : τ → M} (h : ∀ t ∈ l, f t = g t) :
    total f l = total g l := by
  simp only [total]
  rw [List.map_congr_left h]

/-- A member that counts has share one. -/
def share (b : Bool) : ℤ := if b then 1 else 0

@[simp] theorem share_true : share true = 1 := rfl

@[simp] theorem share_false : share false = 0 := rfl

theorem share_nonneg (b : Bool) : 0 ≤ share b := by cases b <;> simp

/-- The number of members that `p` holds of. -/
def tally (p : τ → Bool) (l : List τ) : ℤ := total (fun t => share (p t)) l

theorem tally_set (p : τ → Bool) (t' : τ) (hi : l[i]? = some t) :
    tally p (l.set i t') + share (p t) = tally p l + share (p t') :=
  total_set (fun t => share (p t)) t' hi

theorem tally_append (p : τ → Bool) (l l' : List τ) :
    tally p (l ++ l') = tally p l + tally p l' := total_append _ l l'

theorem tally_pos (ht : t ∈ l) (hp : p t = true) :
    1 ≤ tally p l := by
  have h : share (p t) ≤ tally p l := le_total (fun t => share_nonneg (p t)) ht
  rwa [hp, share_true] at h

theorem tally_nonneg (p : τ → Bool) (l : List τ) : 0 ≤ tally p l :=
  total_nonneg fun t _ => share_nonneg (p t)

theorem tally_eq_zero (h : ∀ t ∈ l, p t = false) : tally p l = 0 := by
  have hzero : tally p l = total (fun _ => 0) l := total_congr fun t ht => by simp [h t ht]
  rw [hzero]
  simp [total]

theorem exists_of_tally_pos (h : 0 < tally p l) :
    ∃ t ∈ l, p t = true := by
  by_contra hnone
  have hzero : tally p l = 0 := tally_eq_zero fun t ht =>
    Bool.eq_false_of_not_eq_true fun hp => hnone ⟨t, ht, hp⟩
  omega

theorem eq_of_tally_le_one (h : tally p l ≤ 1) (ht : t ∈ l) (ht' : t' ∈ l) (hp : p t = true)
    (hp' : p t' = true) : t = t' := by
  induction l with
  | nil => simp at ht
  | cons x l ih =>
    have hcons : tally p (x :: l) = share (p x) + tally p l := total_cons _ x l
    rw [hcons] at h
    have hx := share_nonneg (p x)
    rcases List.mem_cons.mp ht with rfl | htl <;> rcases List.mem_cons.mp ht' with rfl | htl'
    · rfl
    · have := tally_pos htl' hp'
      simp only [hp, share_true] at h
      omega
    · have := tally_pos htl hp
      simp only [hp', share_true] at h
      omega
    · exact ih (by omega) htl htl'

theorem eq_of_mem_flatMap {υ : Type w} {f : τ → List υ} (h : (l.flatMap f).Nodup) {j : Nat}
    (hi : l[i]? = some t) (hj : l[j]? = some t') {x : υ} (hx : x ∈ f t) (hx' : x ∈ f t') :
    i = j := by
  obtain ⟨hilt, rfl⟩ := List.getElem?_eq_some_iff.mp hi
  obtain ⟨hjlt, rfl⟩ := List.getElem?_eq_some_iff.mp hj
  have apart := List.pairwise_iff_getElem.mp (List.nodup_flatMap.mp h).2
  rcases Nat.lt_trichotomy i j with hlt | heq | hlt
  · exact absurd hx' (apart i j hilt hjlt hlt hx)
  · exact heq
  · exact absurd hx (apart j i hjlt hilt hlt hx')

theorem mem_flatMap_set {υ : Type w} {f : τ → List υ} {x : υ} (h : x ∈ (l.set i t').flatMap f) :
    x ∈ f t' ∨ ∃ j u, j ≠ i ∧ l[j]? = some u ∧ x ∈ f u := by
  obtain ⟨u, hu, hx⟩ := List.mem_flatMap.mp h
  obtain ⟨j, hj⟩ := List.mem_iff_getElem?.mp hu
  by_cases hij : i = j
  · subst hij
    have hlt : i < l.length := by
      rw [← List.length_set]
      exact (List.getElem?_eq_some_iff.mp hj).1
    rw [List.getElem?_set_self hlt] at hj
    cases hj
    exact .inl hx
  · rw [List.getElem?_set_ne hij] at hj
    exact .inr ⟨j, u, fun heq => hij heq.symm, hj, hx⟩

/-- INTERNAL: **the balance of what is held**: no element comes twice when a member's turn gives
out what it held, what was shared, or something that nobody had. -/
theorem nodup_turn {υ : Type w} [DecidableEq υ] {f : τ → List υ} (t' : τ)
    {shared shared' new : List υ} (hi : l[i]? = some t) (h : (new ++ shared ++ l.flatMap f).Nodup)
    (hturn : ∀ x, (shared' ++ f t').count x ≤ (new ++ shared ++ f t).count x) :
    (shared' ++ (l.set i t').flatMap f).Nodup := by
  have hcount : ∀ (l : List τ) (x : υ),
      (l.flatMap f).count x = total (fun t => (f t).count x) l := by
    intro l x
    induction l with
    | nil => rfl
    | cons t l ih => rw [List.flatMap_cons, List.count_append, ih, total_cons]
  rw [List.nodup_iff_count_le_one] at h ⊢
  intro x
  have hx := h x
  have hset := total_set (fun t => (f t).count x) t' hi
  have hbalance := hturn x
  simp only [List.count_append, hcount] at hx hbalance ⊢
  omega

theorem filter_prefix_of_pairwise (h : l.Pairwise fun a b => p b = true → p a = true) :
    l.filter p <+: l := by
  induction l with
  | nil => simp
  | cons x l ih =>
    obtain ⟨hx, hl⟩ := List.pairwise_cons.mp h
    cases hp : p x with
    | true => simpa [List.filter_cons, hp] using ih hl
    | false =>
      have none_left : l.filter p = [] := by
        rw [List.filter_eq_nil_iff]
        intro b hb hpb
        simp [hx b hb hpb] at hp
      simp [hp, none_left]

theorem pairwise_of_filter_prefix {υ : Type w} {g : τ → υ} (nodup : (l.map g).Nodup)
    (h : (l.filter p).map g <+: l.map g) :
    l.Pairwise fun a b => p b = true → p a = true := by
  induction l with
  | nil => exact .nil
  | cons x l ih =>
    obtain ⟨hx, hl⟩ := List.nodup_cons.mp nodup
    cases hp : p x with
    | true =>
      rw [List.filter_cons_of_pos hp, List.map_cons, List.map_cons, List.cons_prefix_cons] at h
      exact List.pairwise_cons.mpr ⟨fun b _ _ => hp, ih hl h.2⟩
    | false =>
      rw [List.filter_cons_of_neg (by simp [hp])] at h
      -- a member that counts would have to be `x`
      have none_left : l.filter p = [] := by
        cases hf : l.filter p with
        | nil => rfl
        | cons y ys =>
          rw [hf, List.map_cons, List.map_cons, List.cons_prefix_cons] at h
          have hy : y ∈ l := (List.mem_filter.mp (hf ▸ List.mem_cons_self ..)).1
          exact absurd (h.1 ▸ List.mem_map_of_mem hy) hx
      have none_counts : ∀ b ∈ l, ¬ p b = true := List.filter_eq_nil_iff.mp none_left
      refine List.pairwise_cons.mpr ⟨fun b hb hpb => absurd hpb (none_counts b hb), ?_⟩
      exact List.pairwise_of_forall_mem_list fun a _ b hb hpb => absurd hpb (none_counts b hb)

theorem eq_of_length_le_one (h : l.length ≤ 1) (ht : t ∈ l) (ht' : t' ∈ l) :
    t = t' := by
  match l, h with
  | [x], _ => rw [List.mem_singleton.mp ht, List.mem_singleton.mp ht']

theorem set_map_self {υ : Type w} (f : τ → υ) (hi : l[i]? = some t) :
    (l.map f).set i (f t) = l.map f := by
  rw [← List.map_set]
  obtain ⟨hlen, heq⟩ := List.getElem?_eq_some_iff.mp hi
  rw [← heq, List.set_getElem_self hlen]

theorem mem_set_of_ne {x : τ} (hi : l[i]? = some t) (hx : x ∈ l) (hne : x ≠ t) :
    x ∈ l.set i t' := by
  obtain ⟨j, hj⟩ := List.mem_iff_getElem?.mp hx
  have hij : i ≠ j := by
    rintro rfl
    exact hne (Option.some.inj (hj.symm.trans hi))
  exact List.mem_of_getElem? ((List.getElem?_set_ne hij).trans hj)

theorem mem_set_self (t' : τ) (hi : l[i]? = some t) :
    t' ∈ l.set i t' := by
  obtain ⟨hlt, -⟩ := List.getElem?_eq_some_iff.mp hi
  exact List.mem_of_getElem? (List.getElem?_set_self hlt)

theorem map_set_of_eq {υ : Type w} {f : τ → υ} (hi : l[i]? = some t) (hf : f t' = f t) :
    (l.set i t').map f = l.map f := by
  obtain ⟨hlt, rfl⟩ := List.getElem?_eq_some_iff.mp hi
  rw [List.map_set, hf, ← List.getElem_map f (h := by simpa using hlt), List.set_getElem_self]

theorem mem_set_of_nodup {υ : Type w} {f : τ → υ} {x : τ} (nodup : (l.map f).Nodup)
    (hi : l[i]? = some t) (hx : x ∈ l.set i t') :
    x = t' ∨ (x ∈ l ∧ f x ≠ f t) := by
  obtain ⟨j, hj⟩ := List.mem_iff_getElem?.mp hx
  by_cases hij : i = j
  · subst hij
    rw [List.getElem?_set_self (List.getElem?_eq_some_iff.mp hi).1] at hj
    exact .inl (Option.some.inj hj).symm
  · rw [List.getElem?_set_ne hij] at hj
    refine .inr ⟨List.mem_of_getElem? hj, fun hname => hij ?_⟩
    refine (List.getElem?_inj (by simpa using (List.getElem?_eq_some_iff.mp hi).1) nodup).mp ?_
    rw [List.getElem?_map, List.getElem?_map, hi, hj, Option.map_some, Option.map_some, hname]

theorem forall_mem_set {P : τ → Prop} (h : ∀ t ∈ l, P t) (ht' : P t') : ∀ t ∈ l.set i t', P t := by
  intro t ht
  rcases List.mem_or_eq_of_mem_set ht with ht | rfl
  · exact h t ht
  · exact ht'

end Members

section References

variable {κ α : Type} {M : Type} [AddCommMonoid M]

theorem total_update_of_notMem (h : κ × Nat → α → M) (f : Nat → α) {g : Nat} (a : α)
    {l : List (κ × Nat)} (hg : g ∉ l.map Prod.snd) :
    total (fun e => h e (Function.update f g a e.2)) l = total (fun e => h e (f e.2)) l := by
  apply total_congr
  intro e he
  have : e.2 ≠ g := fun heq => hg (heq ▸ List.mem_map_of_mem he)
  rw [Function.update_of_ne this]

theorem total_update (h : κ × Nat → α → M) (f : Nat → α) (a : α) {l : List (κ × Nat)}
    (hl : (l.map Prod.snd).Nodup) {e : κ × Nat} (he : e ∈ l) :
    total (fun x => h x (Function.update f e.2 a x.2)) l + h e (f e.2) =
      total (fun x => h x (f x.2)) l + h e a := by
  induction l with
  | nil => simp at he
  | cons x l ih =>
    simp only [List.map_cons, List.nodup_cons] at hl
    simp only [total_cons]
    rcases List.mem_cons.mp he with rfl | he
    · rw [total_update_of_notMem h f a hl.1, Function.update_self]
      abel
    · have hne : x.2 ≠ e.2 := fun heq => hl.1 (heq ▸ List.mem_map_of_mem he)
      rw [Function.update_of_ne hne, add_assoc, ih hl.2 he, add_assoc]

theorem total_filter_key [DecidableEq κ] (h : κ × Nat → M) {l : List (κ × Nat)}
    (hl : (l.map Prod.fst).Nodup) {e : κ × Nat} (he : e ∈ l) :
    total h (l.filter fun x => x.1 ≠ e.1) + h e = total h l := by
  induction l with
  | nil => simp at he
  | cons x l ih =>
    simp only [List.map_cons, List.nodup_cons] at hl
    rcases List.mem_cons.mp he with rfl | he
    · have hall : l.filter (fun x => decide (x.1 ≠ e.1)) = l := by
        apply List.filter_eq_self.mpr
        intro y hy
        simp only [ne_eq, decide_not, Bool.not_eq_eq_eq_not, Bool.not_true, decide_eq_false_iff_not]
        exact fun heq => hl.1 (heq ▸ List.mem_map_of_mem hy)
      simp only [List.filter_cons, ne_eq, not_true_eq_false, decide_false, Bool.false_eq_true,
        if_false, total_cons] at hall ⊢
      rw [hall, add_comm]
    · have hne : x.1 ≠ e.1 := fun heq => hl.1 (heq ▸ List.mem_map_of_mem he)
      simp only [List.filter_cons, ne_eq, hne, not_false_eq_true, decide_true, if_true, total_cons]
      rw [add_assoc, ih hl.2 he]

theorem lookup_eq_some_iff [DecidableEq κ] {l : List (κ × Nat)} (hl : (l.map Prod.fst).Nodup)
    {k : κ} {g : Nat} : l.lookup k = some g ↔ (k, g) ∈ l := by
  induction l with
  | nil => simp
  | cons x l ih =>
    obtain ⟨k', g'⟩ := x
    simp only [List.map_cons, List.nodup_cons] at hl
    by_cases hk : k = k'
    · subst hk
      have hnot : ∀ g, (k, g) ∉ l := fun g hg => hl.1 (List.mem_map_of_mem hg)
      simp [hnot, eq_comm]
    · have hbeq : (k == k') = false := by simpa using hk
      simp [List.lookup_cons, hbeq, hk, ih hl.2]

theorem lookup_eq_none_iff [DecidableEq κ] {l : List (κ × Nat)} {k : κ} :
    l.lookup k = none ↔ k ∉ l.map Prod.fst := by
  induction l with
  | nil => simp
  | cons x l ih =>
    obtain ⟨k', g'⟩ := x
    by_cases hk : k = k'
    · subst hk
      simp
    · have hbeq : (k == k') = false := by simpa using hk
      simp [List.lookup_cons, hbeq, hk, ih]

end References

end ServerlessHarness.Library
