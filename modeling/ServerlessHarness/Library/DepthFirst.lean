import Mathlib.Data.List.Basic
import Mathlib.Logic.Relation

/-!
# Depth-first walks over aliased places

A place may have several paths. A walk enters a path if the place it leads to, its key, was not
visited before, and emits what it finds on the way. With finitely many keys it ends (`exists_dfs`);
what it emits is found on a path that leads there (`Post.sound`), and nothing that is found at a
visited place is left out (`Post.fresh`, `Post.settled`).
-/

set_option autoImplicit false

namespace ServerlessHarness.Library

universe u v w

/-- What stands at a path: something to emit, or a place to enter. -/
inductive Found (π : Type u) (κ : Type v) (ε : Type w) where
  | emit (e : ε)
  | enter (key : κ) (path : π)

namespace DepthFirst

variable {π : Type u} {κ : Type v} {ε : Type w}

structure State (κ : Type v) (ε : Type w) where
  visited : List κ
  emitted : List ε

variable {children : π → List (Found π κ ε)} {n : ℕ} {s t t' : State κ ε} {p q : π}
  {c : Found π κ ε} {cs : List (Found π κ ε)}

/-- `q` is on the way of a walk from `p`. -/
def Leads (children : π → List (Found π κ ε)) (p q : π) : Prop :=
  ∃ key, .enter key q ∈ children p

def Reach (children : π → List (Found π κ ε)) : π → π → Prop :=
  Relation.ReflTransGen (Leads children)

/-- A walk that came to `t` needs not look at `c` again. -/
def Settled (t : State κ ε) : Found π κ ε → Prop
  | .emit e => e ∈ t.emitted
  | .enter key _ => key ∈ t.visited

/-- What a walk over some of the children of `p` does. -/
structure Post (children : π → List (Found π κ ε)) (p : π) (cs : List (Found π κ ε))
    (s t : State κ ε) : Prop where
  visited : ∀ key ∈ s.visited, key ∈ t.visited
  emitted : ∀ e ∈ s.emitted, e ∈ t.emitted
  settled : ∀ c ∈ cs, Settled t c
  fresh : ∀ key ∈ t.visited, key ∈ s.visited ∨
    ∃ p' q, Reach children p p' ∧ .enter key q ∈ children p' ∧ ∀ c ∈ children q, Settled t c
  sound : ∀ e ∈ t.emitted, e ∈ s.emitted ∨ ∃ q, Reach children p q ∧ .emit e ∈ children q

theorem Settled.mono (h : Settled t c) (hvisited : ∀ key ∈ t.visited, key ∈ t'.visited)
    (hemitted : ∀ e ∈ t.emitted, e ∈ t'.emitted) : Settled t' c := by
  cases c with
  | emit e => exact hemitted e h
  | enter key path => exact hvisited key h

theorem Post.nil : Post children p [] s s where
  visited _ h := h
  emitted _ h := h
  settled _ h := by cases h
  fresh _ h := Or.inl h
  sound _ h := Or.inl h

/-- One child, and then the others. -/
theorem Post.cons (h : Post children p [c] s t) (h' : Post children p cs t t') :
    Post children p (c :: cs) s t' where
  visited key hkey := h'.visited key (h.visited key hkey)
  emitted e he := h'.emitted e (h.emitted e he)
  settled d hd := by
    rcases List.mem_cons.mp hd with rfl | hd
    · exact (h.settled d List.mem_cons_self).mono h'.visited h'.emitted
    · exact h'.settled d hd
  fresh key hkey := by
    rcases h'.fresh key hkey with hkey | hkey
    · rcases h.fresh key hkey with hkey | ⟨p', q, hp', hq, hall⟩
      · exact Or.inl hkey
      · exact Or.inr ⟨p', q, hp', hq, fun d hd => (hall d hd).mono h'.visited h'.emitted⟩
    · exact Or.inr hkey
  sound e he := by
    rcases h'.sound e he with he | he
    · exact h.sound e he
    · exact Or.inr he

theorem Post.emit {e : ε} (h : .emit e ∈ children p) :
    Post children p [.emit e] s { s with emitted := s.emitted ++ [e] } where
  visited _ hkey := hkey
  emitted _ he := List.mem_append_left _ he
  settled d hd := by
    rw [List.mem_singleton.mp hd]
    exact List.mem_append_right _ (List.mem_singleton_self e)
  fresh _ hkey := Or.inl hkey
  sound e' he' := by
    rcases List.mem_append.mp he' with he' | he'
    · exact Or.inl he'
    · rw [List.mem_singleton.mp he']
      exact Or.inr ⟨p, .refl, h⟩

/-- A place that is entered is walked through before the next child. -/
theorem Post.enter {key : κ} (h : .enter key q ∈ children p)
    (hq : Post children q (children q) { s with visited := key :: s.visited } t) :
    Post children p [.enter key q] s t where
  visited k hk := hq.visited k (List.mem_cons_of_mem key hk)
  emitted := hq.emitted
  settled d hd := by
    rw [List.mem_singleton.mp hd]
    exact hq.visited key List.mem_cons_self
  fresh k hk := by
    rcases hq.fresh k hk with hk | ⟨p', q', hp', hq', hall⟩
    · rcases List.mem_cons.mp hk with rfl | hk
      · exact Or.inr ⟨p, q, .refl, h, hq.settled⟩
      · exact Or.inl hk
    · exact Or.inr ⟨p', q', .head ⟨key, h⟩ hp', hq', hall⟩
  sound e he := by
    rcases hq.sound e he with he | ⟨q', hq', he⟩
    · exact Or.inl he
    · exact Or.inr ⟨q', .head ⟨key, h⟩ hq', he⟩

theorem Post.skip {key : κ} (h : key ∈ s.visited) : Post children p [.enter key q] s s where
  visited _ hk := hk
  emitted _ he := he
  settled d hd := by
    rw [List.mem_singleton.mp hd]
    exact h
  fresh _ hk := Or.inl hk
  sound _ he := Or.inl he

variable [DecidableEq κ]

def visit (inner : State κ ε → π → Option (State κ ε)) (s : State κ ε) :
    Found π κ ε → Option (State κ ε)
  | .emit e => some { s with emitted := s.emitted ++ [e] }
  | .enter key path =>
    if key ∈ s.visited then some s else inner { s with visited := key :: s.visited } path

/-- The walk from a path, with a bound on the nesting. -/
def dfs (children : π → List (Found π κ ε)) : ℕ → State κ ε → π → Option (State κ ε)
  | 0, _, _ => none
  | n + 1, s, path => (children path).foldlM (visit (dfs children n)) s

/-- INTERNAL: **what a walk does**, by induction on the nesting and over the children. -/
theorem dfs_post (h : dfs children n s p = some t) : Post children p (children p) s t := by
  induction n generalizing s p t with
  | zero => cases h
  | succ n ih =>
    have hfold : ∀ cs, (∀ c ∈ cs, c ∈ children p) → ∀ s t,
        cs.foldlM (visit (dfs children n)) s = some t → Post children p cs s t := by
      intro cs
      induction cs with
      | nil =>
        intro _ s t hst
        cases hst
        exact Post.nil
      | cons c cs ihcs =>
        intro hcs s t hst
        rw [List.foldlM_cons] at hst
        obtain ⟨mid, hvisit, hrest⟩ := Option.bind_eq_some_iff.mp hst
        refine Post.cons ?_ (ihcs (fun d hd => hcs d (List.mem_cons_of_mem c hd)) mid t hrest)
        have hc := hcs c List.mem_cons_self
        cases c with
        | emit e =>
          cases hvisit
          exact Post.emit hc
        | enter key q =>
          rw [visit] at hvisit
          split at hvisit
          · rename_i hkey
            cases hvisit
            exact Post.skip hkey
          · exact Post.enter hc (ih hvisit)
    exact hfold (children p) (fun c hc => hc) s t h

/-! ## The end of a walk -/

/-- The keys that were not visited yet. -/
def fresh (keys : List κ) (s : State κ ε) : ℕ :=
  (keys.filter fun k => decide (k ∉ s.visited)).length

theorem fresh_mono (keys : List κ) (h : ∀ key ∈ s.visited, key ∈ t.visited) :
    fresh keys t ≤ fresh keys s := by
  apply List.Sublist.length_le
  apply List.monotone_filter_right
  intro k hk
  simp only [decide_eq_true_eq] at *
  exact fun hs => hk (h k hs)

theorem fresh_enter {keys : List κ} {key : κ} (hkey : key ∈ keys) (hnew : key ∉ s.visited) :
    fresh keys { s with visited := key :: s.visited } < fresh keys s := by
  have hfilter : (keys.filter fun k => decide (k ∉ key :: s.visited)) =
      (keys.filter fun k => decide (k ∉ s.visited)).filter fun k => decide (k ≠ key) := by
    rw [List.filter_filter]
    apply List.filter_congr
    intro k _
    simp
  show (keys.filter fun k => decide (k ∉ key :: s.visited)).length < fresh keys s
  rw [hfilter, fresh, List.length_filter_lt_length_iff_exists]
  exact ⟨key, List.mem_filter.mpr ⟨hkey, decide_eq_true hnew⟩, by simp⟩

/-- INTERNAL: **a walk over finitely many places ends.** -/
theorem exists_dfs (keys : List κ) (hkeys : ∀ p key q, .enter key q ∈ children p → key ∈ keys)
    (h : fresh keys s < n) : ∃ t, dfs children n s p = some t := by
  induction n generalizing s p with
  | zero => exact absurd h (Nat.not_lt_zero _)
  | succ n ih =>
    have hfold : ∀ cs : List (Found π κ ε), (∀ c ∈ cs, c ∈ children p) → ∀ s, fresh keys s < n + 1 →
        ∃ t, cs.foldlM (visit (dfs children n)) s = some t := by
      intro cs
      induction cs with
      | nil => exact fun _ s _ => ⟨s, rfl⟩
      | cons c cs ihcs =>
        intro hcs s hs
        have hrest := fun d hd => hcs d (List.mem_cons_of_mem c hd)
        have hvisit : ∃ mid, visit (dfs children n) s c = some mid ∧ fresh keys mid < n + 1 := by
          cases c with
          | emit e => exact ⟨_, rfl, hs⟩
          | enter key q =>
            rw [visit]
            split
            · exact ⟨s, rfl, hs⟩
            · rename_i hnew
              have hless := fresh_enter (hkeys p key q (hcs _ List.mem_cons_self)) hnew
              obtain ⟨mid, hmid⟩ :=
                ih (s := { s with visited := key :: s.visited }) (p := q) (by omega)
              have hmono := fresh_mono keys (dfs_post hmid).visited
              exact ⟨mid, hmid, by omega⟩
        obtain ⟨mid, hmid, hless⟩ := hvisit
        obtain ⟨t, ht⟩ := ihcs hrest mid hless
        exact ⟨t, by rw [List.foldlM_cons, hmid]; exact ht⟩
    exact hfold (children p) (fun c hc => hc) s h

end DepthFirst

end ServerlessHarness.Library
