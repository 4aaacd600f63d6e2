import Mathlib.Data.List.Basic

/-!
# Lexically cleaned slash-separated paths

A cleaned path is its list of elements and whether it starts at the root. `push`
processes one element of an uncleaned path the way lexical cleaning does (an empty
element and `.` vanish, `..` removes the element before it where there is one), and
`clean` and `join` fold it over the elements of a string. `dir` and `base` split off
the last element.

The lemmas say what appending one ordinary element does: it is the last element, its
directory is what it was appended to, and different elements give different paths.
-/

set_option autoImplicit false

namespace ServerlessHarness.Library

/-- A cleaned path. `⟨false, []⟩` is the current directory `.`, `⟨true, []⟩` is `/`. -/
structure SlashPath where
  rooted : Bool
  elems : List String
deriving DecidableEq, Repr

variable {e : String} {p : SlashPath}

namespace SlashPath

/-- The elements of a string between its slashes, empty ones included. -/
def splitSlash : List Char → List Char → List String
  | acc, [] => [String.ofList acc.reverse]
  | acc, c :: cs =>
    if c = '/' then String.ofList acc.reverse :: splitSlash [] cs else splitSlash (c :: acc) cs

/-- One element of an uncleaned path, processed lexically. -/
def push (p : SlashPath) (e : String) : SlashPath :=
  if e = "" ∨ e = "." then p
  else if e = ".." then
    match p.elems.getLast? with
    | none => if p.rooted then p else { p with elems := [".."] }
    | some last =>
      if last = ".." then { p with elems := p.elems ++ [".."] }
      else { p with elems := p.elems.dropLast }
  else { p with elems := p.elems ++ [e] }

/-- Cleans a string: `/` at its start makes it rooted, its elements are processed in
order. -/
def clean (s : String) : SlashPath :=
  (splitSlash [] s.toList).foldl push ⟨s.toList.head? == some '/', []⟩

/-- Joins a string below a cleaned path and cleans the result. -/
def join (p : SlashPath) (s : String) : SlashPath :=
  (splitSlash [] s.toList).foldl push p

/-- All but the last element. -/
def dir (p : SlashPath) : SlashPath := { p with elems := p.elems.dropLast }

/-- The last element. -/
def base (p : SlashPath) : String :=
  p.elems.getLast?.getD (if p.rooted then "/" else ".")

/-- `q` is `p` itself or lies below it. -/
def below (p q : SlashPath) : Prop := p.rooted = q.rooted ∧ p.elems <+: q.elems

instance (p q : SlashPath) : Decidable (below p q) :=
  inferInstanceAs (Decidable (_ ∧ _))

theorem below_refl (p : SlashPath) : below p p := ⟨rfl, List.prefix_refl _⟩

/-- An element that cleaning keeps as it is: nonempty, slash-free, and not one of the
two dot names. -/
structure Ordinary (e : String) : Prop where
  nonempty : e ≠ ""
  notDot : e ≠ "."
  notDotDot : e ≠ ".."
  noSlash : '/' ∉ e.toList

theorem splitSlash_of_noSlash (acc cs : List Char) (h : '/' ∉ cs) :
    splitSlash acc cs = [String.ofList (acc.reverse ++ cs)] := by
  induction cs generalizing acc with
  | nil => simp [splitSlash]
  | cons c cs ih =>
    have hc : c ≠ '/' := fun hc => h (by simp [hc])
    have hcs : '/' ∉ cs := fun hcs => h (by simp [hcs])
    simp [splitSlash, hc, ih _ hcs]

theorem join_ordinary (p : SlashPath) (h : Ordinary e) :
    p.join e = { p with elems := p.elems ++ [e] } := by
  have hsplit : splitSlash [] e.toList = [e] := by
    simpa using splitSlash_of_noSlash [] e.toList h.noSlash
  simp [join, hsplit, push, h.nonempty, h.notDot, h.notDotDot]

theorem dir_join (h : Ordinary e) : (p.join e).dir = p := by
  simp [join_ordinary p h, dir]

theorem base_join (h : Ordinary e) : (p.join e).base = e := by
  simp [join_ordinary p h, base]

theorem join_ne_self (h : Ordinary e) : p.join e ≠ p := by
  intro hp
  have hlen := congrArg (fun q : SlashPath => q.elems.length) hp
  simp [join_ordinary p h] at hlen

theorem join_inj {f : String} (he : Ordinary e) (hf : Ordinary f) :
    p.join e = p.join f ↔ e = f := by
  constructor
  · intro h
    have hb := congrArg base h
    rwa [base_join he, base_join hf] at hb
  · rintro rfl
    rfl

theorem below_join {f : String} (he : Ordinary e) (hf : Ordinary f) :
    below (p.join e) (p.join f) ↔ e = f := by
  constructor
  · rintro ⟨-, h⟩
    rw [join_ordinary p he, join_ordinary p hf] at h
    have hpre : p.elems ++ [e] = p.elems ++ [f] := h.eq_of_length (by simp)
    simpa using hpre
  · rintro rfl
    exact ⟨rfl, List.prefix_rfl⟩

end SlashPath

end ServerlessHarness.Library
