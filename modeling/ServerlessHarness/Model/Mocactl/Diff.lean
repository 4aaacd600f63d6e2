import Mathlib.Algebra.Ring.Nat
import ServerlessHarness.Library.Utf16

/-!
# The diff of an edit

The terminal client shows an edit as a diff of lines: `diffLines` from a table of longest common
subsequences of suffixes, and `trimContext` for what is shown of it.
-/

set_option autoImplicit false

namespace ServerlessHarness.Mocactl

open Library

inductive Kind where
  | add
  | remove
  | context
  | hunk
deriving DecidableEq

/-- SRCLINE: diff.ts:1-2 -/
structure DiffLine where
  kind : Kind
  text : Units
deriving DecidableEq

/-- SRCLINE: diff.ts:10 -/
def maxCells : ℕ := 250000

/-- SRCLINE: diff.ts:11 -/
def context : ℕ := 2

/-! ## The table and the walk -/

/-- What a `Uint32Array` keeps of a number. -/
def toUint32 (n : ℕ) : ℕ := n % 2 ^ 32

/-- The inner loop: the row of a line `x` of `a`, from the last column on; `below` is the row after
it.
SRCLINE: diff.ts:25-27 -/
def fillRow (x : Units) : List Units → List ℕ → List ℕ
  | [], _ => [0]
  | y :: ys, below =>
    let right := fillRow x ys below.tail
    toUint32 (if x = y then below.tail.headD 0 + 1 else max (below.headD 0) (right.headD 0)) ::
      right

/-- The outer loop, from the last row on.
SRCLINE: diff.ts:23-28 -/
def table : List Units → List Units → List (List ℕ)
  | [], b => [List.replicate (b.length + 1) 0]
  | x :: xs, b =>
    let rows := table xs b
    fillRow x b (rows.headD []) :: rows

/-- `dp[i][j]`. -/
def cell (dp : List (List ℕ)) (i j : ℕ) : ℕ := (dp.getD i []).getD j 0

/-- The loops that write the diff; the two lists are what is left of `a` from `i` on, and of `b`
from `j` on.
SRCLINE: diff.ts:29-45 -/
def walk (dp : ℕ → ℕ → ℕ) : ℕ → ℕ → List Units → List Units → List DiffLine
  | _, _, [], ys => ys.map (DiffLine.mk .add)
  | _, _, x :: xs, [] => (x :: xs).map (DiffLine.mk .remove)
  | i, j, x :: xs, y :: ys =>
    if x = y then ⟨.context, x⟩ :: walk dp (i + 1) (j + 1) xs ys
    else if dp (i + 1) j ≥ dp i (j + 1) then ⟨.remove, x⟩ :: walk dp (i + 1) j xs (y :: ys)
    else ⟨.add, y⟩ :: walk dp i (j + 1) (x :: xs) ys
termination_by _ _ a b => a.length + b.length

/-- SRCLINE: diff.ts:14-46 -/
def diffLines (a b : List Units) : List DiffLine :=
  if a.length * b.length > maxCells then a.map (DiffLine.mk .remove) ++ b.map (DiffLine.mk .add)
  else walk (cell (table a b)) 0 0 a b

/-! ## What is shown -/

def DiffLine.changed (l : DiffLine) : Bool := l.kind == .add || l.kind == .remove

/-- `changed[i + d]` for some `d` from `-CONTEXT` to `CONTEXT`; a place outside of the array is
`undefined`.
SRCLINE: diff.ts:50-54 -/
def keep (lines : List DiffLine) (i : ℕ) : Bool :=
  (List.range (2 * context + 1)).any fun d =>
    decide (context ≤ i + d) && ((lines.map DiffLine.changed).getD (i + d - context) false)

/-- The line that stands for lines that are left out. -/
def ellipsis : DiffLine := ⟨.context, units "…"⟩

/-- One turn of the loop: `kept` is `keep[i]`.
SRCLINE: diff.ts:57-58 -/
def trimStep (out : List DiffLine) (l : DiffLine) (kept : Bool) : List DiffLine :=
  if kept then out ++ [l]
  else if out.getLast?.map DiffLine.text ≠ some ellipsis.text then out ++ [ellipsis] else out

/-- SRCLINE: diff.ts:49-61 -/
def trimContext (lines : List DiffLine) : List DiffLine :=
  lines.zipIdx.foldl (fun out l => trimStep out l.1 (keep lines l.2)) []

end ServerlessHarness.Mocactl
