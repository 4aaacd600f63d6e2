import ServerlessHarness.Model.Mocactl.Sse

/-!
# The events of a stream

What the parser has handed out and what it still holds are functions of the text that has arrived
(`eventsOf`, `stateOf`), so they do not depend on how it was cut. The bytes of a turn contain no
carriage return, and each frame or comment is one block of them.
-/

set_option autoImplicit false

namespace ServerlessHarness.Mocactl

open Library

/-! ## The parser and the text -/

def endsCr (text : Units) : Bool := text.getLast? == some 13

/-- The text without a carriage return at its end. -/
def held (text : Units) : Units := if endsCr text then text.dropLast else text

def stateOf (text : Units) : SseParser := ⟨(blocks (normalize (held text))).2, endsCr text⟩

def eventsOf (text : Units) : List SseEvent :=
  (blocks (normalize (held text))).1.filterMap parseBlock

variable {json : JsonCodec} {text : Units}

theorem held_of_endsCr (h : endsCr text = true) : held text ++ [13] = text := by
  rw [held, if_pos h]
  exact List.dropLast_append_getLast? 13 (beq_iff_eq.mp h)

theorem held_of_not_endsCr (h : endsCr text = false) : held text = text := by
  rw [held, h]
  rfl

/-- What a chunk is taken for: the carriage return that was held back is put before it. -/
def joined (text chunk : Units) : Units := if endsCr text then 13 :: chunk else chunk

theorem held_append_joined (text chunk : Units) : held text ++ joined text chunk = text ++
    chunk := by
  unfold joined
  cases h : endsCr text with
  | true =>
    rw [if_pos rfl, ← List.singleton_append, ← List.append_assoc, held_of_endsCr h]
  | false =>
    rw [if_neg (by decide), held_of_not_endsCr h]

theorem endsCr_joined (text chunk : Units) :
    endsCr (joined text chunk) = endsCr (text ++ chunk) := by
  rw [← held_append_joined]
  cases hjoined : joined text chunk with
  | nil =>
    -- nothing was held back
    have hcr : endsCr text = false := by
      cases h : endsCr text with
      | true => simp [joined, h] at hjoined
      | false => rfl
    rw [List.append_nil, held_of_not_endsCr hcr, hcr]
    rfl
  | cons u rest => rw [endsCr, endsCr, List.getLast?_append_of_ne_nil _ (List.cons_ne_nil u rest)]

theorem held_append_held (text chunk : Units) :
    held text ++ held (joined text chunk) = held (text ++ chunk) := by
  have hjoined := held_append_joined text chunk
  have hends := endsCr_joined text chunk
  cases h : endsCr (text ++ chunk) with
  | true =>
    rw [h] at hends
    rw [← held_of_endsCr hends, ← List.append_assoc] at hjoined
    exact List.append_cancel_right (hjoined.trans (held_of_endsCr h).symm)
  | false =>
    rw [h] at hends
    rw [held_of_not_endsCr hends, held_of_not_endsCr h, hjoined]

/-- A carriage return that is not at the end of what was held has what follows it. -/
theorem head_held_joined (h : (held text).getLast? = some 13) (chunk : Units) :
    (held (joined text chunk)).head? ≠ some 10 := by
  cases hcr : endsCr text with
  | true =>
    unfold joined held
    rw [if_pos hcr]
    split
    · cases chunk <;> simp
    · simp
  | false =>
    rw [held_of_not_endsCr hcr] at h
    rw [endsCr, h] at hcr
    cases hcr

theorem push_stateOf (text chunk : Units) :
    ((stateOf text).push chunk).2 = stateOf (text ++ chunk) ∧
      eventsOf text ++ ((stateOf text).push chunk).1 = eventsOf (text ++ chunk) := by
  have hpush : (stateOf text).push chunk =
      ((blocks ((stateOf text).buf ++ normalize (held (joined text chunk)))).1.filterMap parseBlock,
        ⟨(blocks ((stateOf text).buf ++ normalize (held (joined text chunk)))).2,
          endsCr (joined text chunk)⟩) := rfl
  have hblocks := blocks_append (normalize (held text)) (normalize (held (joined text chunk)))
  rw [← normalize_append (fun h => head_held_joined h chunk), held_append_held] at hblocks
  rw [hpush, endsCr_joined, stateOf, stateOf, eventsOf, eventsOf, hblocks, List.filterMap_append]
  exact ⟨rfl, rfl⟩

/-- INTERNAL: **what is read is a function of the text**. -/
theorem read_stateOf (text : Units) (chunks : List Units) :
    eventsOf text ++ (stateOf text).read chunks =
      eventsOf (text ++ chunks.flatten) ++ (stateOf (text ++ chunks.flatten)).flush := by
  induction chunks generalizing text with
  | nil => simp [SseParser.read]
  | cons chunk chunks ih =>
    obtain ⟨hstate, hevents⟩ := push_stateOf text chunk
    rw [SseParser.read, hstate, ← List.append_assoc, hevents, ih, List.flatten_cons,
      List.append_assoc]

theorem read_start (chunks : List Units) :
    SseParser.start.read chunks = eventsOf chunks.flatten ++ (stateOf chunks.flatten).flush := by
  have hempty : blocks [] = ([], []) := by
    rw [blocks]
    rfl
  have hstart : stateOf [] = SseParser.start := by
    rw [stateOf, show normalize (held []) = [] from rfl, hempty]
    rfl
  have hevents : eventsOf [] = [] := by
    rw [eventsOf, show normalize (held []) = [] from rfl, hempty]
    rfl
  have h := read_stateOf [] chunks
  rwa [hstart, hevents, List.nil_append, List.nil_append] at h

/-! ## What the server writes -/

/-- The lines of a frame or a comment. -/
def Written.lines {json : JsonCodec} : Written json → List Units
  | frame f => [units "event: " ++ units f.type, units "data: " ++ ofChars (json.stringify f.value)]
  | keepalive => [units ": keepalive"]

/-- The frames among what is written. -/
def framesOf {json : JsonCodec} (written : List (Written json)) : List (TurnStreamFrame json) :=
  written.filterMap fun
    | .frame f => some f
    | .keepalive => none

theorem text_eq_lines (w : Written json) :
    ofChars w.text = [10].intercalate w.lines ++ [10, 10] := by
  cases w with
  | frame f =>
    have hdata : ofChars dataField = [10] ++ units "data: " := by decide
    have hend : ofChars blankLine = [10, 10] := by decide
    have htext : (Written.frame f).text =
        eventField ++ f.type.toList ++ dataField ++ json.stringify f.value ++ blankLine := rfl
    rewrite [htext, ofChars_append, ofChars_append, ofChars_append, ofChars_append, hdata, hend,
      Written.lines, List.intercalate_cons_cons, List.intercalate_singleton]
    simp only [List.append_assoc]
    rfl
  | keepalive => rfl

/-- Text of the stream that ends no line. -/
def Inline (l : Units) : Prop := (10 : UInt16) ∉ l ∧ (13 : UInt16) ∉ l

instance (l : Units) : Decidable (Inline l) := inferInstanceAs (Decidable (_ ∧ _))

theorem Inline.append {l l' : Units} (h : Inline l) (h' : Inline l') : Inline (l ++ l') := by
  simp only [Inline, List.mem_append, not_or] at *
  exact ⟨⟨h.1, h'.1⟩, h.2, h'.2⟩

theorem inline_stringify (hjson : json.Correct) (v : json.Value) :
    Inline (ofChars (json.stringify v)) := by
  have hchar {u : UInt16} {d : Char} (hu : u.toNat < 0xd800) (hd : d.toNat = u.toNat)
      (hnot : d ∉ json.stringify v) : u ∉ ofChars (json.stringify v) := by
    intro h
    obtain ⟨c, hc, hcode⟩ := mem_of_mem_ofChars hu h
    have hcd : c = d := Char.ext (UInt32.toNat_inj.mp (hcode.trans hd.symm))
    exact hnot (hcd ▸ hc)
  exact ⟨hchar (by decide) rfl (hjson.oneLine v).1, hchar (by decide) rfl (hjson.oneLine v).2⟩

theorem inline_type {type : String} (h : type ∈ knownFrameTypes) : Inline (units type) := by
  revert type
  decide

theorem inline_lines (hjson : json.Correct) {w : Written json} {l : Units} (hl : l ∈ w.lines) :
    l ≠ [] ∧ Inline l := by
  cases w with
  | frame f =>
    rcases List.mem_cons.mp hl with rfl | hl
    · exact ⟨nofun, Inline.append (by decide) (inline_type f.known)⟩
    · rw [List.mem_singleton.mp hl]
      exact ⟨nofun, Inline.append (by decide) (inline_stringify hjson f.value)⟩
  | keepalive =>
    rw [List.mem_singleton.mp hl]
    decide

/-- The event of a block. -/
def Written.event {json : JsonCodec} : Written json → Option SseEvent
  | frame f => some ⟨units f.type, ofChars (json.stringify f.value)⟩
  | keepalive => none

theorem parseBlock_lines (hjson : json.Correct) (w : Written json) :
    parseBlock ([10].intercalate w.lines) = w.event := by
  have hsplit : ([10].intercalate w.lines).splitOn 10 = w.lines := by
    apply List.splitOn_intercalate
    · intro l hl
      exact (inline_lines hjson hl).2.1
    · cases w <;> simp [Written.lines]
  rw [parseBlock, hsplit]
  cases w with
  | frame f =>
    have hevent : parseLine (units "message", [])
      (units "event: " ++ units f.type) = (units f.type, []) := rfl
    have hdata (d : Units) : parseLine (units f.type, [])
      (units "data: " ++ d) = (units f.type, [d]) := rfl
    rw [Written.lines, List.foldl_cons, hevent, List.foldl_cons, hdata, List.foldl_nil]
    exact congrArg (fun d => some (SseEvent.mk (units f.type) d)) List.intercalate_singleton
  | keepalive => rfl

theorem blocks_written (hjson : json.Correct) (written : List (Written json)) :
    blocks (ofChars (written.flatMap Written.text)) =
      (written.map fun w => [10].intercalate w.lines, []) := by
  induction written with
  | nil =>
    rw [blocks]
    rfl
  | cons w written ih =>
    have hne : w.lines ≠ [] := by cases w <;> exact List.cons_ne_nil _ _
    have hfirst := firstBlock_lines hne
      (fun l hl => ⟨(inline_lines hjson hl).1, (inline_lines hjson hl).2.1⟩)
      (ofChars (written.flatMap Written.text))
    rw [List.flatMap_cons, ofChars_append, text_eq_lines, List.append_assoc]
    have hblocks := blocks_of_firstBlock hfirst
    rw [ih] at hblocks
    exact hblocks

theorem no_return_written (hjson : json.Correct) (written : List (Written json)) :
    (13 : UInt16) ∉ ofChars (written.flatMap Written.text) := by
  induction written with
  | nil => exact nofun
  | cons w written ih =>
    have hlines : (13 : UInt16) ∉ [10].intercalate w.lines := by
      cases w with
      | frame f =>
        have hevent := inline_lines hjson (w := .frame f) List.mem_cons_self
        have hdata := inline_lines hjson (w := .frame f) (List.mem_cons_of_mem _ List.mem_cons_self)
        rewrite [Written.lines, List.intercalate_cons_cons, List.intercalate_singleton]
        rw [List.mem_append, List.mem_append, not_or, not_or]
        exact ⟨⟨hevent.2.2, by decide⟩, hdata.2.2⟩
      | keepalive => exact of_decide_eq_true rfl
    rw [List.flatMap_cons, ofChars_append, text_eq_lines, List.mem_append, List.mem_append, not_or,
      not_or]
    exact ⟨⟨hlines, by decide⟩, ih⟩

theorem read_written (hjson : json.Correct) (written : List (Written json)) {chunks : List Units}
    (h : chunks.flatten = ofChars (written.flatMap Written.text)) :
    SseParser.start.read chunks = written.filterMap Written.event := by
  have hno := no_return_written hjson written
  have hcr : endsCr (ofChars (written.flatMap Written.text)) = false := by
    cases hends : endsCr (ofChars (written.flatMap Written.text)) with
    | true => exact absurd (List.mem_of_getLast? (beq_iff_eq.mp hends)) hno
    | false => rfl
  rw [read_start, h, eventsOf, stateOf, hcr, held_of_not_endsCr hcr, normalize_of_no_return hno,
    blocks_written hjson]
  simp [SseParser.flush, List.filterMap_map, parseBlock_lines hjson]

theorem toFrame_event (hjson : json.Correct) (f : TurnStreamFrame json) :
    toFrame json ⟨units f.type, ofChars (json.stringify f.value)⟩ = .known f.value := by
  rw [toFrame, hjson.parse_stringify]
  exact if_pos ⟨List.mem_map_of_mem f.known, f.type_eq⟩

/-- No byte order mark comes first. -/
theorem head_written (written : List (Written json)) :
    (written.flatMap Written.text).head? ≠ some '\ufeff' := by
  cases written with
  | nil => exact nofun
  | cons w written =>
    cases w <;> exact fun h => absurd (Option.some.inj h) (by decide)

/-- The frames of a turn are read as they were written, whatever comments stand between them and
however their bytes are cut; and the events of any text do not depend on how it was cut. -/
theorem readSse_written {d : StreamDecoder} (hd : d.Correct) {json : JsonCodec}
    (hjson : json.Correct) :
    (∀ (written : List (Written json)) (body : List (List UInt8)),
      body.flatten = utf8 (written.flatMap Written.text) →
        (readSse d body).map (toFrame json) = (framesOf written).map fun f => .known f.value) ∧
      ∀ cut cut' : List Units, cut.flatten = cut'.flatten →
        SseParser.start.read cut = SseParser.start.read cut' := by
  constructor
  · intro written body hbody
    rw [readSse, read_written hjson written (hd _ body (head_written written) hbody), framesOf,
      List.map_filterMap, List.map_filterMap]
    refine List.filterMap_congr fun w _ => ?_
    cases w with
    | frame f => exact congrArg some (toFrame_event hjson f)
    | keepalive => rfl
  · intro cut cut' hcut
    rw [read_start, read_start, hcut]

/-- A decoder that waits for all bytes. -/
def collecting : StreamDecoder where
  State := List UInt8
  start := []
  decode := fun s bytes => ([], s ++ bytes)
  finish := fun s => ofChars (decodeText s)

theorem collecting_correct : collecting.Correct := by
  have hchunks (body : List (List UInt8)) (s : List UInt8) :
      (collecting.chunks s body).flatten = ofChars (decodeText (s ++ body.flatten)) := by
    induction body generalizing s with
    | nil => simp [StreamDecoder.chunks, collecting]
    | cons bytes body ih =>
      rw [List.flatten_cons, ← List.append_assoc]
      exact ih (s ++ bytes)
  intro cs body _ hbody
  have h := hchunks body []
  rw [List.nil_append, hbody, decodeText_utf8] at h
  exact h

/-- The values of two frames. -/
inductive Sample where
  | letter
  | done
deriving DecidableEq

def Sample.type : Sample → String
  | .letter => "text"
  | .done => "done"

def Sample.asJson : Sample → String
  | .letter => "\x7b\"type\":\"text\",\"text\":\"é\"\x7d"
  | .done => "\x7b\"type\":\"done\"\x7d"

def sampleJson : JsonCodec where
  Value := Sample
  typeOf := fun v => some (units v.type)
  stringify := fun v => v.asJson.toList
  parse := fun text => [Sample.letter, .done].find? fun v => units v.asJson = text

theorem sampleJson_correct : sampleJson.Correct where
  parse_stringify v := by cases v <;> rfl
  oneLine v := by cases v <;> exact of_decide_eq_true rfl

def Sample.frame (v : Sample) : TurnStreamFrame sampleJson :=
  ⟨v, v.type, by cases v <;> decide, rfl⟩

def sampleTurn : List (Written sampleJson) :=
  [.frame Sample.letter.frame, .keepalive, .frame Sample.done.frame]

/-- Two frames with a comment between them, cut between the two bytes of a character; and events
with line ends of two characters, cut inside each. -/
theorem readSse_sampleTurn :
    (readSse collecting [(utf8 (sampleTurn.flatMap Written.text)).take 42,
        (utf8 (sampleTurn.flatMap Written.text)).drop 42]).map (toFrame sampleJson) =
      [.known .letter, .known .done] ∧
    SseParser.start.read [units "data: a\r", units "\n\r", units "\ndata: b"] =
      SseParser.start.read [units "data: a\r\n\r\ndata: b"] :=
  have h := readSse_written collecting_correct sampleJson_correct
  ⟨h.1 sampleTurn _ (by simp), h.2 _ _ rfl⟩

end ServerlessHarness.Mocactl
