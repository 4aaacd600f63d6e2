import ServerlessHarness.Interface.K8sSandbox.Frames

/-!
# The parser and the chunks

The parser looks for a begin marker and for the end marker of its frame again each time bytes
arrive. Bytes that arrive later do not change what is found: a marker is found together with its
newline, and whatever begins before it has been decided by then. So the frames of a stream do not
depend on how it is cut into chunks, and frames that were written one after the other are read
back.
-/

set_option autoImplicit false

namespace ServerlessHarness.K8sSandbox

open Library

/-! ## Markers and later bytes -/

/-- The text is longer than a fixed beginning, and there is a newline after that. -/
def Ended (n : ℕ) (text : List UInt8) : Prop := n ≤ text.length ∧ (10 : UInt8) ∈ text.drop n

variable {rest text : List UInt8} {frame : Frame} {n : ℕ}

theorem Ended.cons (h : Ended n text) (b : UInt8) : Ended n (b :: text) := by
  refine ⟨Nat.le_succ_of_le h.1, ?_⟩
  have hsuffix : text.drop n = ((b :: text).drop n).drop 1 := by
    rw [List.drop_drop, List.drop_succ_cons]
  have hmem := h.2
  rw [hsuffix] at hmem
  exact List.mem_of_mem_drop hmem

theorem ended_of_strip {p : List UInt8} (h : strip p text = some rest)
    (hrest : (10 : UInt8) ∈ rest) : Ended p.length text := by
  rw [eq_append_of_strip h]
  refine ⟨by simp, ?_⟩
  rw [List.drop_left]
  exact hrest

/-- What follows a fixed beginning still has its newline. -/
theorem Ended.strip {p : List UInt8} (h : Ended p.length text) (hrest : strip p text = some rest) :
    (10 : UInt8) ∈ rest := by
  have hmem := h.2
  rw [eq_append_of_strip hrest, List.drop_left] at hmem
  exact hmem

theorem strip_newline_append {p : UInt8 → Bool} (h : (10 : UInt8) ∈ text) (hp : p 10 = false)
    (more : List UInt8) :
    (text ++ more).takeWhile p = text.takeWhile p ∧
      strip [10] ((text ++ more).dropWhile p) =
        (strip [10] (text.dropWhile p)).map fun rest => rest ++ more := by
  obtain ⟨htake, hdrop⟩ := takeWhile_append_of_mem h hp more
  refine ⟨htake, ?_⟩
  rw [hdrop]
  apply strip_append_of_le
  cases hleft : text.dropWhile p with
  | nil =>
    rw [← List.takeWhile_append_dropWhile (p := p) (l := text), hleft, List.append_nil] at h
    rw [List.all_eq_true.mp List.all_takeWhile 10 h] at hp
    cases hp
  | cons b left => exact Nat.succ_le_succ (Nat.zero_le _)

theorem matchBegin_settles : Settles matchBegin (Ended 2) where
  of_match := by
    intro text r h
    obtain ⟨rest, hrest, h⟩ := Option.bind_eq_some_iff.mp h
    split at h
    · cases h
    · obtain ⟨after, hafter, -⟩ := Option.map_eq_some_iff.mp h
      exact ended_of_strip hrest (newline_mem_of_strip_dropWhile hafter)
  of_suffix := by
    intro b text h
    exact h.cons b
  extend := by
    intro text h more
    unfold matchBegin
    rw [strip_append_of_le (p := [1, 66]) h.1]
    cases hstrip : strip [1, 66] text with
    | none => rfl
    | some rest =>
      obtain ⟨htake, hline⟩ :=
        strip_newline_append (p := fun b => !isSpace b) (Ended.strip (p := [1, 66]) h hstrip)
          (by decide) more
      rw [Option.map_some, Option.bind_some, Option.bind_some, htake, hline]
      split
      · rfl
      · rw [Option.map_map, Option.map_map]
        rfl

theorem matchCode_append (h : (10 : UInt8) ∈ text) (more : List UInt8) :
    matchCode (text ++ more) = (matchCode text).map fun r => (r.1, r.2 ++ more) := by
  obtain ⟨htake, hline⟩ := strip_newline_append (p := isDigit) h (by decide) more
  unfold matchCode
  rw [htake, hline]
  split
  · rfl
  · rw [Option.map_map, Option.map_map]
    rfl

/-- More bytes do not change a match of the end mark. -/
theorem matchEnd_settles (nonce : List UInt8) :
    Settles (matchEnd nonce) (Ended ([1, 69] ++ nonce ++ [32]).length) where
  of_match := by
    intro text r h
    obtain ⟨rest, hrest, h⟩ := Option.bind_eq_some_iff.mp h
    apply ended_of_strip hrest
    cases hsign : strip [45] rest with
    | some digits =>
      rw [hsign] at h
      obtain ⟨r, hr, -⟩ := Option.map_eq_some_iff.mp h
      rw [eq_append_of_strip hsign]
      exact List.mem_append_right _ (newline_mem_of_matchCode hr)
    | none =>
      rw [hsign] at h
      obtain ⟨r, hr, -⟩ := Option.map_eq_some_iff.mp h
      exact newline_mem_of_matchCode hr
  of_suffix := by
    intro b text h
    exact h.cons b
  extend := by
    intro text h more
    unfold matchEnd
    rw [strip_append_of_le h.1]
    cases hstrip : strip ([1, 69] ++ nonce ++ [32]) text with
    | none => rfl
    | some rest =>
      have hnewline := h.strip hstrip
      have hsigned : strip [45] (rest ++ more) = (strip [45] rest).map fun digits => digits ++
          more := by
        apply strip_append_of_le
        exact List.length_pos_of_mem hnewline
      rw [Option.map_some, Option.bind_some, Option.bind_some, hsigned]
      cases hsign : strip [45] rest with
      | some digits =>
        have hdigits : (10 : UInt8) ∈ digits := by
          rw [eq_append_of_strip hsign] at hnewline
          rcases List.mem_cons.mp hnewline with hne | hmem
          · cases hne
          · exact hmem
        show (matchCode (digits ++ more)).map _ = ((matchCode digits).map _).map _
        rw [matchCode_append hdigits, Option.map_map, Option.map_map]
        rfl
      | none =>
        show (matchCode (rest ++ more)).map _ = ((matchCode rest).map _).map _
        rw [matchCode_append hnewline, Option.map_map, Option.map_map]
        rfl

/-! ## Frames and later bytes -/

/-- INTERNAL: **a frame that is found stays the first one**, whatever follows. -/
theorem parseFrame_append (h : parseFrame text = some (frame, rest)) (more : List UInt8) :
    parseFrame (text ++ more) = some (frame, rest ++ more) := by
  obtain ⟨⟨before, nonce, after⟩, hbegin, h⟩ := Option.bind_eq_some_iff.mp h
  obtain ⟨⟨body, code, left⟩, hend, heq⟩ := Option.map_eq_some_iff.mp h
  cases heq
  unfold parseFrame
  rw [matchBegin_settles.firstMatch_append hbegin, Option.bind_some]
  show (firstMatch (matchEnd nonce) (after ++ more)).map _ = _
  rw [(matchEnd_settles nonce).firstMatch_append hend]
  rfl

theorem length_of_matchBegin {nonce : List UInt8} (h : matchBegin text = some (nonce, rest)) :
    rest.length < text.length := by
  obtain ⟨start, hstart, h⟩ := Option.bind_eq_some_iff.mp h
  split at h
  · cases h
  · obtain ⟨after, hafter, heq⟩ := Option.map_eq_some_iff.mp h
    cases heq
    have hline := congrArg List.length (eq_append_of_strip hafter)
    have hdrop := (List.dropWhile_sublist (fun b => !isSpace b) (l := start)).length_le
    rw [eq_append_of_strip hstart]
    simp only [List.length_append, List.length_cons, List.length_nil] at hline ⊢
    omega

theorem length_of_matchCode (h : matchCode text = some (n, rest)) :
    rest.length ≤ text.length := by
  unfold matchCode at h
  split at h
  · cases h
  · obtain ⟨after, hafter, heq⟩ := Option.map_eq_some_iff.mp h
    cases heq
    have hline := congrArg List.length (eq_append_of_strip hafter)
    have hdrop := (List.dropWhile_sublist isDigit (l := text)).length_le
    simp only [List.length_append, List.length_cons, List.length_nil] at hline
    omega

theorem length_of_matchEnd {nonce : List UInt8} {code : Int}
    (h : matchEnd nonce text = some (code, rest)) : rest.length ≤ text.length := by
  obtain ⟨start, hstart, h⟩ := Option.bind_eq_some_iff.mp h
  have hstrip := congrArg List.length (eq_append_of_strip hstart)
  rw [List.length_append] at hstrip
  cases hsign : strip [45] start with
  | some digits =>
    rw [hsign] at h
    obtain ⟨⟨n, after⟩, hr, heq⟩ := Option.map_eq_some_iff.mp h
    cases heq
    have hcode := length_of_matchCode hr
    have hminus := congrArg List.length (eq_append_of_strip hsign)
    rw [List.length_append] at hminus
    show after.length ≤ text.length
    omega
  | none =>
    rw [hsign] at h
    obtain ⟨⟨n, after⟩, hr, heq⟩ := Option.map_eq_some_iff.mp h
    cases heq
    have hcode := length_of_matchCode hr
    show after.length ≤ text.length
    omega

/-- A frame takes at least one byte. -/
theorem length_of_parseFrame (h : parseFrame text = some (frame, rest)) :
    rest.length < text.length := by
  obtain ⟨⟨before, nonce, after⟩, hbegin, h⟩ := Option.bind_eq_some_iff.mp h
  obtain ⟨⟨body, code, left⟩, hend, heq⟩ := Option.map_eq_some_iff.mp h
  cases heq
  obtain ⟨start, htext, hstart⟩ := exists_of_firstMatch hbegin
  obtain ⟨finish, hafter, hfinish⟩ := exists_of_firstMatch hend
  have hfirst := length_of_matchBegin hstart
  have hlast := length_of_matchEnd hfinish
  have hmiddle := congrArg List.length hafter
  rw [List.length_append] at hmiddle
  rw [htext, List.length_append]
  show left.length < before.length + start.length
  simp only at hmiddle
  omega

/-! ## The whole buffer -/

theorem parseFrames_fuel {m : ℕ} (hn : text.length ≤ n) (hm : text.length ≤ m) :
    parseFrames n text = parseFrames m text := by
  have hnone : ∀ k, parseFrames k [] = ([], []) := by
    intro k
    cases k with
    | zero => rfl
    | succ k => rw [parseFrames, parseFrame_nil]
  induction n generalizing m text with
  | zero =>
    rw [List.length_eq_zero_iff.mp (Nat.le_zero.mp hn), hnone, hnone]
  | succ n ih =>
    cases m with
    | zero => rw [List.length_eq_zero_iff.mp (Nat.le_zero.mp hm), hnone, hnone]
    | succ m =>
      rw [parseFrames, parseFrames]
      cases hframe : parseFrame text with
      | none => rfl
      | some found =>
        obtain ⟨frame, rest⟩ := found
        have hshorter := length_of_parseFrame hframe
        have hrest : parseFrames n rest = parseFrames m rest := by
          apply ih
          · omega
          · omega
        simp only [hrest]

/-- The frames of a text, and what is left of it. -/
def parse (text : List UInt8) : List Frame × List UInt8 := parseFrames text.length text

theorem parse_of_none (h : parseFrame text = none) : parse text = ([], text) := by
  rw [parse]
  cases text.length with
  | zero => rfl
  | succ n => rw [parseFrames, h]

theorem parse_of_some (h : parseFrame text = some (frame, rest)) :
    parse text = (frame :: (parse rest).1, (parse rest).2) := by
  have hshorter := length_of_parseFrame h
  have hfuel : parse text = parseFrames
      (rest.length + 1 + (text.length - rest.length - 1)) text := by
    apply parseFrames_fuel
    · exact Nat.le_refl _
    · omega
  have hlength : rest.length + 1 + (text.length - rest.length - 1) =
      (rest.length + (text.length - rest.length - 1)) + 1 := by omega
  have hrest : parseFrames (rest.length + (text.length - rest.length - 1)) rest = parse rest := by
    apply parseFrames_fuel
    · omega
    · exact Nat.le_refl _
  rw [hfuel, hlength, parseFrames, h]
  simp only [hrest]

/-- What is left has no frame. -/
theorem parseFrame_left (text : List UInt8) : parseFrame (parse text).2 = none := by
  induction hlength : text.length using Nat.strongRecOn generalizing text with
  | ind n ih =>
    cases hframe : parseFrame text with
    | none => rw [parse_of_none hframe, hframe]
    | some found =>
      obtain ⟨frame, rest⟩ := found
      have hshorter := length_of_parseFrame hframe
      rw [parse_of_some hframe]
      exact ih rest.length (by omega) rest rfl

/-- INTERNAL: **more bytes add to the frames**: those that were found stay, and the others are
those of what was left and the new bytes. -/
theorem parse_append (text more : List UInt8) :
    parse (text ++ more) = ((parse text).1 ++ (parse ((parse text).2 ++ more)).1,
      (parse ((parse text).2 ++ more)).2) := by
  induction hlength : text.length using Nat.strongRecOn generalizing text with
  | ind n ih =>
    cases hframe : parseFrame text with
    | none => rw [parse_of_none hframe, List.nil_append]
    | some found =>
      obtain ⟨frame, rest⟩ := found
      have hshorter := length_of_parseFrame hframe
      rw [parse_of_some (parseFrame_append hframe more), parse_of_some hframe,
        ih rest.length (by omega) rest rfl, List.cons_append]

/-! ## Chunks -/

/-- What the calls of `push` return, one after the other, and the buffer after them. -/
def feed : List UInt8 → List (List UInt8) → List Frame × List UInt8
  | buf, [] => ([], buf)
  | buf, chunk :: chunks =>
    ((push buf chunk).1 ++ (feed (push buf chunk).2 chunks).1, (feed (push buf chunk).2 chunks).2)

/-- Chunks are parsed as their concatenation. -/
theorem feed_eq {buf : List UInt8} (hbuf : parseFrame buf = none) (chunks : List (List UInt8)) :
    feed buf chunks = parse (buf ++ chunks.flatten) := by
  induction chunks generalizing buf with
  | nil => rw [List.flatten_nil, List.append_nil, parse_of_none hbuf, feed]
  | cons chunk chunks ih =>
    have hpush : push buf chunk = parse (buf ++ chunk) := rfl
    rw [feed, hpush, ih (parseFrame_left _), List.flatten_cons, ← List.append_assoc,
      parse_append (buf ++ chunk)]

/-! ## Frames that were written -/

/-- The text is what the shell writes for the frame, `base64` having broken its letters into lines
in some way. The exit code is the number that is read for the integer in the text. -/
def Encodes (frame : Frame) (text : List UInt8) : Prop :=
  ∃ (body : List UInt8) (code : Int), (body.filter fun b => !isSpace b) = base64 frame.stdout ∧
    frame.exitCode = .ofInt code ∧ text = frameText frame.nonce body code

theorem lead_notMem_of_base64 {body data : List UInt8}
    (h : (body.filter fun b => !isSpace b) = base64 data) : (1 : UInt8) ∉ body := by
  intro hmem
  have hletter : (1 : UInt8) ∈ base64 data := by
    rw [← h]
    exact List.mem_filter.mpr ⟨hmem, by decide⟩
  have hle := le_toNat_of_mem_base64 hletter
  exact absurd hle (by decide)

theorem parseFrame_encodes (hnonce : Nonce frame.nonce) (h : Encodes frame text)
    (rest : List UInt8) :
    parseFrame (text ++ rest) = some (frame, rest) := by
  obtain ⟨body, code, hbody, hcode, rfl⟩ := h
  rw [parseFrame_frameText hnonce (lead_notMem_of_base64 hbody), decodeBody, hbody, unbase64_base64,
    ← hcode]

/-- Written frames are read back. -/
theorem parse_encoded {encoded : List (Frame × List UInt8)}
    (h : ∀ p ∈ encoded, Nonce p.1.nonce ∧ Encodes p.1 p.2) :
    parse (encoded.flatMap Prod.snd) = (encoded.map Prod.fst, []) := by
  induction encoded with
  | nil => rfl
  | cons p encoded ih =>
    obtain ⟨hnonce, hencodes⟩ := h p List.mem_cons_self
    rw [List.flatMap_cons, parse_of_some (parseFrame_encodes hnonce hencodes _),
      ih fun q hq => h q (List.mem_cons_of_mem _ hq), List.map_cons]

/-- INTERNAL: **the frames of a stream do not depend on its chunks**, and frames that were written
are read back, in any chunks.
SRCLINE: framing.ts:60-121 -/
theorem frames_of_chunks (chunks : List (List UInt8)) :
    (∀ chunks' : List (List UInt8), chunks'.flatten = chunks.flatten →
      (feed [] chunks').1 = (feed [] chunks).1) ∧
    ∀ encoded : List (Frame × List UInt8), (∀ p ∈ encoded, Nonce p.1.nonce ∧ Encodes p.1 p.2) →
      chunks.flatten = encoded.flatMap Prod.snd → feed [] chunks = (encoded.map Prod.fst, []) := by
  refine ⟨?_, ?_⟩
  · intro chunks' hsame
    rw [feed_eq parseFrame_nil, feed_eq parseFrame_nil, hsame]
  · intro encoded hencoded hstream
    rw [feed_eq parseFrame_nil, hstream, List.nil_append, parse_encoded hencoded]

end ServerlessHarness.K8sSandbox
