import ServerlessHarness.Model.K8sSandbox.Commands

/-!
# How the shell reads the command lines

Between single quotes nothing has a meaning, and a single quote of the text is written outside of
them, escaped. So a quoted value adds quoted units to the word that it stands in and nothing else,
whatever it contains (`run_shQuote`), and the tokens of a line are those of its parts
(`run_lineText`).
-/

set_option autoImplicit false

namespace ServerlessHarness.K8sSandbox

open Library Library.Shell

/-! ## Quoted values -/

/-- Inside of the quotes, up to the one that closes them. -/
theorem run_single (text : Units) (pieces : List Piece) :
    run ⟨[.single], false, false, .word pieces⟩
        ((text.flatMap fun u => if u = 39 then [39, 92, 39, 39] else [u]) ++ [39]) =
      ([], ⟨[], false, false, .word (pieces ++ text.map .quoted)⟩) := by
  induction text generalizing pieces with
  | nil => simp [run, Lexer.step, Lexer.put, Lexer.inWord]
  | cons u text ih =>
    have hunit : run ⟨[.single], false, false, .word pieces⟩
        (if u = 39 then [39, 92, 39, 39] else [u]) =
          ([], ⟨[.single], false, false, .word (pieces ++ [.quoted u])⟩) := by
      split
      · next hu => simp [hu, run, Lexer.step, Lexer.stepBase, Lexer.put, Lexer.inWord]
      · next hu => simp [hu, run, Lexer.step, Lexer.put, Lexer.inWord]
    rw [List.flatMap_cons, List.append_assoc, run_append, hunit, ih]
    simp

/-- A quoted value after a word, an operator or nothing. -/
def quotedIn (dollar : Bool) (cur : Current) (text : Units) : List Token × Lexer :=
  Lexer.put ⟨[], false, dollar, cur⟩ [] false false (text.map .quoted)

/-- INTERNAL: **a quoted value is quoted units of one word**. -/
theorem run_shQuote (dollar : Bool) (cur : Current) (text : Units) :
    run ⟨[], false, dollar, cur⟩ (shQuote text) = quotedIn dollar cur text := by
  have hopen : Lexer.step ⟨[], false, dollar, cur⟩ 39 =
      Lexer.put ⟨[], false, dollar, cur⟩ [.single] false false [] := rfl
  rw [shQuote, List.append_assoc, List.singleton_append, run, hopen]
  simp [quotedIn, Lexer.put, run_single]

/-! ## Lines -/

/-- The tokens that are complete after some parts of a line, and where the lexer stands; a quoted
value must not stand inside of something else. -/
def readParts : Lexer → List Part → Option (List Token × Lexer)
  | s, [] => some ([], s)
  | s, .text t :: parts => (readParts (run s t).2 parts).map fun r => ((run s t).1 ++ r.1, r.2)
  | ⟨[], false, dollar, cur⟩, .quoted t :: parts =>
    (readParts (quotedIn dollar cur t).2 parts).map fun r => ((quotedIn dollar cur t).1 ++ r.1, r.2)
  | _, .quoted _ :: _ => none

variable {parts : List Part} {s : Lexer} {tokens : List Token}

theorem run_lineText {r : List Token × Lexer} (h : readParts s parts = some r) :
    run s (lineText parts) = r := by
  fun_induction readParts s parts generalizing r with
  | case1 s =>
    cases h
    rfl
  | case2 s t parts ih =>
    obtain ⟨rest, hrest, rfl⟩ := Option.map_eq_some_iff.mp h
    rw [lineText, List.flatMap_cons, run_append]
    exact congrArg (fun x => ((run s t).1 ++ x.1, x.2)) (ih hrest)
  | case3 dollar cur t parts ih =>
    obtain ⟨rest, hrest, rfl⟩ := Option.map_eq_some_iff.mp h
    rw [lineText, List.flatMap_cons, run_append, Part.units, run_shQuote]
    exact congrArg (fun x => ((quotedIn dollar cur t).1 ++ x.1, x.2)) (ih hrest)
  | case4 => cases h

theorem readParts_append {s' s'' : Lexer} {a b : List Part} {more : List Token}
    (ha : readParts s a = some (tokens, s')) (hb : readParts s' b = some (more, s'')) :
    readParts s (a ++ b) = some (tokens ++ more, s'') := by
  fun_induction readParts s a generalizing tokens with
  | case1 s =>
    cases ha
    exact hb
  | case2 s t parts ih =>
    obtain ⟨rest, hrest, heq⟩ := Option.map_eq_some_iff.mp ha
    cases heq
    rw [List.cons_append, readParts, ih hrest]
    simp
  | case3 dollar cur t parts ih =>
    obtain ⟨rest, hrest, heq⟩ := Option.map_eq_some_iff.mp ha
    cases heq
    rw [List.cons_append, readParts, ih hrest]
    simp
  | case4 => cases ha

/-- Parts that are joined with blanks, each of which is a number of words. -/
theorem readParts_joined {ι : Type} (parts : ι → List Part) (words : ι → List Token)
    {items : List ι}
    (hne : items ≠ [])
    (h : ∀ i ∈ items, readParts .start (parts i ++ [literal " "]) = some (words i, .start)) :
    readParts .start (joined (items.map parts) ++ [literal " "]) =
      some (items.flatMap words, .start) := by
  induction items with
  | nil => exact absurd rfl hne
  | cons i items ih =>
    have hhead := h i List.mem_cons_self
    cases items with
    | nil => simpa [joined] using hhead
    | cons j items =>
      have htail := ih (List.cons_ne_nil j items) fun k hk => h k (List.mem_cons_of_mem i hk)
      have hsplit : joined ((i :: j :: items).map parts) ++ [literal " "] =
          parts i ++ [literal " "] ++ (joined ((j :: items).map parts) ++ [literal " "]) := by
        simp [joined, List.intercalate]
      rw [hsplit, List.flatMap_cons]
      exact readParts_append hhead htail

/-- A line whose tokens are known up to its end, or up to a text that is not known. -/
theorem lex_lineText (h : readParts .start parts = some (tokens, s)) (rest : Units) :
    lex (lineText parts ++ rest) = (lexFrom s rest).map fun more => tokens ++ more := by
  rw [lex, lexFrom_append, run_lineText h]

/-- The tokens of a line that ends with its parts. -/
def readLine (parts : List Part) : Option (List Token) :=
  (readParts .start parts).bind fun r => (lexFrom r.2 []).map fun last => r.1 ++ last

theorem lex_of_readLine (h : readLine parts = some tokens) :
    lex (lineText parts) = some tokens := by
  obtain ⟨⟨before, s⟩, hparts, hlast⟩ := Option.bind_eq_some_iff.mp h
  have hlex := lex_lineText hparts []
  rw [List.append_nil] at hlex
  rw [hlex]
  exact hlast

/-! ## What each line means -/

/-- A word of the line itself. -/
def word (s : String) : Token := .word ((units s).map .plain)

/-- A value as one word; nothing in it has a meaning. -/
def argument (t : Units) : Token := .word (t.map .quoted)

def operator (s : String) : Token := .op (units s)

def PodConfig.path (cfg : PodConfig) (p : Units) : Token :=
  argument (mapPath p cfg.headCwd cfg.podCwd)

/-- `NAME=value` with the value quoted. -/
def setting (e : Units × Units) : Token := .word ((e.1 ++ units "=").map .plain ++ e.2.map .quoted)

/-- `"$rc"`. -/
def rc : Token := .word [.plain 36, .quoted 114, .quoted 99]

/-- `[ "$rc" = n ] ||` -/
def orStatus (n : String) : List Token := [word "[", rc, word "=", word n, word "]", operator "||"]

/-- The command is a word of its own, or what follows `cd` is what it is alone. -/
def bashTokens (cfg : PodConfig) (command cwd : Units) (env : Units → Option Units) :
    Option (List Token) :=
  if sandboxEnv env = [] then
    (lex command).map fun tokens => [word "cd", cfg.path cwd, operator "&&"] ++ tokens
  else some ([word "cd", cfg.path cwd, operator "&&", word "env"] ++ (sandboxEnv env).map setting ++
    [word "bash", word "-c", argument command])

def globTokens (cfg : PodConfig) (pattern cwd : Units) (ignore : List Units) (limit : NumberText) :
    List Token :=
  [word "cd", cfg.path cwd, operator "&&", word "rg", word "--files", word "--hidden"] ++
    (pattern :: ignore.map (units "!" ++ ·)).flatMap (fun g => [word "-g", argument g]) ++
    [operator "|", word "head", word "-n", .word (limit.text.map .plain), operator ";",
      word "rc=$\x7bPIPESTATUS[0]\x7d", operator ";"] ++
    (orStatus "0" ++ orStatus "1" ++ orStatus "141" ++ [word "exit", rc])

/-- The words and operators that each operation means. -/
def intended (cfg : PodConfig) : Operation → Option (List Token)
  | .readFile p => some [word "cat", cfg.path p]
  | .readSize p => some [word "stat", word "-c", word "%s", cfg.path p]
  | .access p => some [word "test", word "-r", cfg.path p]
  | .detectImageMimeType p => some [word "file", word "--mime-type", word "-b", cfg.path p]
  | .writeFile p => some [word "base64", word "-d", operator ">", cfg.path p]
  | .mkdir dir => some [word "mkdir", word "-p", cfg.path dir]
  | .editAccess p =>
    some [word "test", word "-r", cfg.path p, operator "&&", word "test", word "-w", cfg.path p]
  | .bash command cwd env => bashTokens cfg command cwd env
  | .exists p => some [word "test", word "-e", cfg.path p]
  | .stat p =>
    some [word "test", word "-e", cfg.path p, operator "&&", operator "(", word "test", word "-d",
      cfg.path p, operator "&&", word "echo", word "DIR", operator "||", word "echo", word "FILE",
        operator ")"]
  | .readdir p => some [word "ls", word "-1A", cfg.path p]
  | .glob pattern cwd ignore limit => some (globTokens cfg pattern cwd ignore limit)

theorem mem_allow_of_sandboxEnv {env : Units → Option Units} {e : Units × Units}
    (h : e ∈ sandboxEnv env) :
    e.1 ∈ sandboxEnvAllow := by
  obtain ⟨name, hname, he⟩ := List.mem_filterMap.mp h
  obtain ⟨value, -, rfl⟩ := Option.map_eq_some_iff.mp he
  exact hname

/-- One variable, with the blank after it. -/
theorem readParts_setting {e : Units × Units} (h : e.1 ∈ sandboxEnvAllow) :
    readParts .start [.text (e.1 ++ units "="), .quoted e.2, literal " "] =
      some ([setting e], .start) := by
  obtain ⟨name, value⟩ := e
  have hnames : name = units "LANG" ∨ name = units "LC_ALL" ∨ name = units "LC_CTYPE" ∨
      name = units "TZ" := by
    simpa [sandboxEnvAllow] using h
  rcases hnames with rfl | rfl | rfl | rfl
  · rfl
  · rfl
  · rfl
  · rfl

theorem lex_bash (cfg : PodConfig) (command cwd : Units) (env : Units → Option Units) :
    lex (lineText (wrapped cfg command cwd env)) = bashTokens cfg command cwd env := by
  unfold wrapped bashTokens
  by_cases hnone : sandboxEnv env = []
  · have hcd : readParts .start [literal "cd ", cfg.q cwd, literal " && "] =
        some ([word "cd", cfg.path cwd, operator "&&"], .start) := rfl
    have hline : lineText [literal "cd ", cfg.q cwd, literal " && ", .text command] =
        lineText [literal "cd ", cfg.q cwd, literal " && "] ++ command := by
      simp [lineText, Part.units]
    rw [if_pos (by simp [hnone]), if_pos hnone, hline]
    exact lex_lineText hcd command
  · have hcd : readParts .start [literal "cd ", cfg.q cwd, literal " && env "] =
        some ([word "cd", cfg.path cwd, operator "&&", word "env"], .start) := rfl
    have hpairs := readParts_joined
      (fun e : Units × Units => [.text (e.1 ++ units "="), .quoted e.2])
      (fun e => [setting e]) hnone fun e he => readParts_setting (mem_allow_of_sandboxEnv he)
    have hend : readParts .start [literal "bash -c ", .quoted command] =
        some ([word "bash", word "-c"], ⟨[], false, false, .word (command.map .quoted)⟩) := rfl
    rw [if_neg (by simp [hnone]), if_neg hnone]
    apply lex_of_readLine
    rw [List.append_cons, List.append_assoc _ (joined _), readLine,
      readParts_append (readParts_append hcd hpairs) hend, ← List.map_eq_flatMap]
    simp [lexFrom, argument, Current.tokens]

/-- The text of a number is a word. -/
theorem run_number (limit : NumberText) :
    run .start limit.text = ([], ⟨[], false, false, .word (limit.text.map .plain)⟩) := by
  obtain ⟨text, hne, hordinary⟩ := limit
  cases text with
  | nil => exact absurd rfl hne
  | cons u text =>
    rw [List.all_cons, Bool.and_eq_true] at hordinary
    rw [run, Lexer.start, step_ordinary hordinary.1]
    simp [Lexer.put, Lexer.inWord, run_ordinary hordinary.2]

theorem lex_glob (cfg : PodConfig) (pattern cwd : Units) (ignore : List Units)
    (limit : NumberText) :
    lex (lineText (globLine cfg pattern cwd ignore limit)) =
      some (globTokens cfg pattern cwd ignore limit) := by
  have hcd : readParts .start [literal "cd ", cfg.q cwd, literal " && rg --files --hidden "] =
      some ([word "cd", cfg.path cwd, operator "&&", word "rg", word "--files", word "--hidden"],
        .start) := rfl
  have hglobs := readParts_joined (fun g : Units => [literal "-g ", .quoted g])
    (fun g => [word "-g", argument g])
      (List.cons_ne_nil pattern (ignore.map (units "!" ++ ·))) fun g _ => rfl
  have hhead : readParts .start [literal "| head -n ", .text limit.text, literal "; "] =
      some ([operator "|", word "head", word "-n", .word (limit.text.map .plain), operator ";"],
        .start) := by
    have hstart : run .start (units "| head -n ") =
      ([operator "|", word "head", word "-n"], .start) := rfl
    rw [literal, readParts, hstart, readParts, run_number]
    rfl
  have hguard : readParts .start [literal "rc=$\x7bPIPESTATUS[0]\x7d; ",
      literal "[ \"$rc\" = 0 ] || [ \"$rc\" = 1 ] || [ \"$rc\" = 141 ] || exit \"$rc\""] =
      some ([word "rc=$\x7bPIPESTATUS[0]\x7d", operator ";"] ++
        (orStatus "0" ++ orStatus "1" ++ orStatus "141" ++
        [word "exit"]), ⟨[], false, false, .word [.plain 36, .quoted 114, .quoted 99]⟩) := rfl
  have hall := readParts_append (readParts_append (readParts_append hcd hglobs) hhead) hguard
  apply lex_of_readLine
  rw [readLine]
  simp only [globLine, List.map_cons, List.map_map, Function.comp_def, List.cons_append,
    List.nil_append, List.append_assoc] at hall ⊢
  rw [hall]
  simp [globTokens, lexFrom, Current.tokens, rc]

/-- The shell reads each command line as it is meant: a value comes back unchanged as one word or a
part of one, and brings no other word, operator or expansion with it. -/
theorem lex_commandLine (cfg : PodConfig) (op : Operation) :
    lex (lineText (commandLine cfg op)) = intended cfg op := by
  cases op with
  | readFile | readSize | access | detectImageMimeType | writeFile | mkdir | editAccess =>
    exact lex_of_readLine rfl
  | bash command cwd env => exact lex_bash cfg command cwd env
  | «exists» | stat | readdir => exact lex_of_readLine rfl
  | glob pattern cwd ignore limit => exact lex_glob cfg pattern cwd ignore limit

end ServerlessHarness.K8sSandbox
