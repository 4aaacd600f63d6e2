import ServerlessHarness.Library.Utf16

/-!
# How a shell reads a command line

The recognition of tokens of a POSIX shell, one unit of the text after the other: a token is an
operator or a word, and each unit of a word either is quoted, so that it stands for itself, or
keeps the meaning it has. What an expansion contains belongs to the word that it stands in.
Here-documents are left out.
-/

set_option autoImplicit false

namespace ServerlessHarness.Library

namespace Shell

inductive Piece where
  | plain (u : UInt16)
  | quoted (u : UInt16)
deriving DecidableEq

inductive Token where
  | word (pieces : List Piece)
  | op (text : Units)
deriving DecidableEq

/-- What the lexer is inside of. -/
inductive Mode where
  | single
  | double
  | brace
  | paren
  | back
  | comment
deriving DecidableEq

/-- The token that is being read. -/
inductive Current where
  | none
  | word (pieces : List Piece)
  | op (text : Units)
deriving DecidableEq

def Current.tokens : Current → List Token
  | none => []
  | word pieces => [.word pieces]
  | op text => [.op text]

structure Lexer where
  stack : List Mode
  /-- After a backslash. -/
  escaped : Bool
  /-- After a dollar sign. -/
  dollar : Bool
  cur : Current
deriving DecidableEq

def Lexer.start : Lexer := ⟨[], false, false, .none⟩

/-- `&`, `;`, `|`, `<`, `>`, `(`, `)` and the newline. -/
def isOperator (u : UInt16) : Bool := [38, 59, 124, 60, 62, 40, 41, 10].contains u

def isBlank (u : UInt16) : Bool := u == 32 || u == 9

/-- The operators of more than one character: `&&`, `||`, `;;`, `<<`, `>>`, `<&`, `>&`, `<>`, `>|`,
`<<-`. -/
def longOperators : List Units :=
  [[38, 38], [124, 124], [59, 59], [60, 60], [62, 62], [60, 38], [62, 38], [60, 62], [62, 124],
    [60, 60, 45]]

/-- The pieces of the word that goes on; an operator ends before it. -/
def Lexer.inWord (s : Lexer) : List Token × List Piece :=
  match s.cur with
  | .none => ([], [])
  | .word pieces => ([], pieces)
  | .op text => ([.op text], [])

/-- Goes on with the word. -/
def Lexer.put (s : Lexer) (stack : List Mode) (escaped dollar : Bool) (pieces : List Piece) :
    List Token × Lexer :=
  (s.inWord.1, ⟨stack, escaped, dollar, .word (s.inWord.2 ++ pieces)⟩)

/-- An operator goes on, or begins. -/
def Lexer.operator (s : Lexer) (u : UInt16) : List Token × Lexer :=
  match s.cur with
  | .op text =>
    if longOperators.contains (text ++ [u]) then ([], ⟨[], false, false, .op (text ++ [u])⟩)
    else ([.op text], ⟨[], false, false, .op [u]⟩)
  | cur => (cur.tokens, ⟨[], false, false, .op [u]⟩)

/-- Outside of quotes. -/
def Lexer.stepBase (s : Lexer) (u : UInt16) : List Token × Lexer :=
  if s.escaped then if u = 10 then
    ([], { s with escaped := false }) else s.put [] false false [.quoted u]
  else if u = 39 then s.put [.single] false false []
  else if u = 34 then s.put [.double] false false []
  else if u = 96 then s.put [.back] false false [.plain u]
  else if s.dollar ∧ u = 123 then s.put [.brace] false false [.plain u]
  else if s.dollar ∧ u = 40 then s.put [.paren] false false [.plain u]
  else if u = 92 then s.put [] true false []
  else if isBlank u then (s.cur.tokens, .start)
  else if isOperator u then s.operator u
  else if u = 35 ∧ s.cur = .none then ([], ⟨[.comment], false, false, .none⟩)
  else s.put [] false (u == 36) [.plain u]

/-- Between double quotes. -/
def Lexer.stepDouble (s : Lexer) (outer : List Mode) (u : UInt16) : List Token × Lexer :=
  if s.escaped then
    if u = 10 then s.put s.stack false false []
    else if u = 36 ∨ u = 96 ∨ u = 34 ∨ u = 92 then s.put s.stack false false [.quoted u]
    else s.put s.stack false false [.quoted 92, .quoted u]
  else if u = 34 then s.put outer false false []
  else if u = 96 then s.put (.back :: s.stack) false false [.plain u]
  else if s.dollar ∧ u = 123 then s.put (.brace :: s.stack) false false [.plain u]
  else if s.dollar ∧ u = 40 then s.put (.paren :: s.stack) false false [.plain u]
  else if u = 92 then s.put s.stack true false []
  else if u = 36 then s.put s.stack false true [.plain u]
  else s.put s.stack false false [.quoted u]

/-- Inside of an expansion that `close` ends. -/
def Lexer.stepExpansion (s : Lexer) (close : UInt16) (outer : List Mode) (u : UInt16) :
    List Token × Lexer :=
  if s.escaped then s.put s.stack false false [.plain u]
  else if u = close then s.put outer false false [.plain u]
  else if u = 92 then s.put s.stack true false [.plain u]
  else if u = 39 ∧ close ≠ 96 then s.put (.single :: s.stack) false false []
  else if u = 34 ∧ close ≠ 96 then s.put (.double :: s.stack) false false []
  else if u = 96 then s.put (.back :: s.stack) false false [.plain u]
  else if s.dollar ∧ u = 123 then s.put (.brace :: s.stack) false false [.plain u]
  else if u = 40 ∧ (s.dollar ∨ close = 41) then s.put (.paren :: s.stack) false false [.plain u]
  else s.put s.stack false (u == 36) [.plain u]

def Lexer.step (s : Lexer) (u : UInt16) : List Token × Lexer :=
  match s.stack with
  | [] => s.stepBase u
  | .single :: outer =>
    if u = 39 then s.put outer false false [] else s.put s.stack false false [.quoted u]
  | .double :: outer => s.stepDouble outer u
  | .brace :: outer => s.stepExpansion 125 outer u
  | .paren :: outer => s.stepExpansion 41 outer u
  | .back :: outer => s.stepExpansion 96 outer u
  | .comment :: _ => if u = 10 then ([], ⟨[], false, false, .op [u]⟩) else ([], s)

/-- The tokens of a text; `none` if it ends inside of something. -/
def lexFrom : Lexer → Units → Option (List Token)
  | s, [] =>
    if s.escaped ∨ (s.stack ≠ [] ∧ s.stack ≠ [.comment]) then none else some s.cur.tokens
  | s, u :: text => (lexFrom (s.step u).2 text).map fun tokens => (s.step u).1 ++ tokens

def lex (text : Units) : Option (List Token) := lexFrom .start text

/-- The tokens that are complete after a text, and where the lexer stands. -/
def run : Lexer → Units → List Token × Lexer
  | s, [] => ([], s)
  | s, u :: text =>
    match s.step u with
    | (tokens, s') =>
      match run s' text with
      | (more, s'') => (tokens ++ more, s'')

theorem run_append (s : Lexer) (text rest : Units) :
    run s (text ++ rest) =
      ((run s text).1 ++ (run (run s text).2 rest).1, (run (run s text).2 rest).2) := by
  induction text generalizing s with
  | nil => rfl
  | cons u text ih => simp [run, ih]

theorem lexFrom_append (s : Lexer) (text rest : Units) :
    lexFrom s (text ++ rest) =
      (lexFrom (run s text).2 rest).map fun tokens => (run s text).1 ++ tokens := by
  induction text generalizing s with
  | nil => simp [run]
  | cons u text ih =>
    rw [List.cons_append, lexFrom, ih, Option.map_map]
    simp [run, Function.comp_def]

/-- Letters, digits, `+`, `-` and `.` have no meaning of their own. -/
def isOrdinary (u : UInt16) : Bool :=
  decide (48 ≤ u ∧ u ≤ 57 ∨ 65 ≤ u ∧ u ≤ 90 ∨ 97 ≤ u ∧ u ≤ 122 ∨ u = 43 ∨ u = 45 ∨ u = 46)

/-- The characters that have one outside of quotes. -/
def special : List UInt16 := [39, 34, 96, 92, 32, 9, 38, 59, 124, 60, 62, 40, 41, 10, 35, 36]

theorem ne_of_ordinary {u v : UInt16} (h : isOrdinary u = true) (hv : v ∈ special) : u ≠ v := by
  rintro rfl
  have hspecial : ∀ v ∈ special, isOrdinary v = false := by simp [special, isOrdinary]
  rw [hspecial u hv] at h
  cases h

theorem step_ordinary {u : UInt16} (h : isOrdinary u = true) (cur : Current) :
    Lexer.step ⟨[], false, false, cur⟩ u = Lexer.put ⟨[], false, false, cur⟩
      [] false false [.plain u] := by
  have hnot : ∀ v ∈ special, u ≠ v := fun v hv => ne_of_ordinary h hv
  have hdollar : (u == 36) = false := beq_false_of_ne (hnot 36 (by decide))
  simp only [special, List.forall_mem_cons] at hnot
  simp [Lexer.step, Lexer.stepBase, isBlank, isOperator, hnot, hdollar]

/-- A word of such characters. -/
theorem run_ordinary {text : Units} (h : text.all isOrdinary = true) (pieces : List Piece) :
    run ⟨[], false, false, .word pieces⟩ text =
      ([], ⟨[], false, false, .word (pieces ++ text.map .plain)⟩) := by
  induction text generalizing pieces with
  | nil => simp [run]
  | cons u text ih =>
    rw [List.all_cons, Bool.and_eq_true] at h
    rw [run, step_ordinary h.1]
    simp [Lexer.put, Lexer.inWord, ih h.2]

end Shell

end ServerlessHarness.Library
