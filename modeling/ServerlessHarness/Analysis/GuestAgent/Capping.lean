import ServerlessHarness.Interface.GuestAgent.Wire

/-!
# What the guest sends of a command's output

Whatever the order of the writes of the two streams, `FrameWriter` sends the first bytes of each up
to the cap, and counts the others; the end it writes carries these counts, and no frame follows it.
The counters are integers of 64 bits, and so are the counts in the end.
-/

set_option autoImplicit false

namespace ServerlessHarness.GuestAgent

/-! ## Small facts -/

def Output.encode (o : Output) : List UInt8 := encodeFrame o.stream.kind o.bytes

theorem streamBytes_append (s : Stream) (outputs outputs' : List Output) :
    streamBytes s (outputs ++ outputs') = streamBytes s outputs ++ streamBytes s outputs' := by
  rw [streamBytes, List.filter_append, List.flatMap_append]
  rfl

theorem streamBytes_same (o : Output) : streamBytes o.stream [o] = o.bytes := by
  simp [streamBytes]

variable {cap : Int64} {w : FrameWriter} {frames outputs : List Output} {o : Output}

theorem streamBytes_other {s : Stream} (h : s ≠ o.stream) : streamBytes s [o] = [] := by
  simp [streamBytes, h.symm]

section

variable (w : FrameWriter) (sent dropped : Int64) (s : Stream)

@[simp] theorem setCounts_sent : (w.setCounts sent dropped s).sent s = sent := by
  cases s <;> rfl

@[simp] theorem setCounts_dropped : (w.setCounts sent dropped s).dropped s = dropped := by
  cases s <;> rfl

@[simp] theorem setCounts_conn : (w.setCounts sent dropped s).conn = w.conn := by
  cases s <;> rfl

@[simp] theorem setCounts_cap : (w.setCounts sent dropped s).cap = w.cap := by
  cases s <;> rfl

@[simp] theorem setCounts_isSealed : (w.setCounts sent dropped s).isSealed = w.isSealed := by
  cases s <;> rfl

theorem setCounts_sent_other {s' : Stream} (h : s' ≠ s) :
    (w.setCounts sent dropped s).sent s' = w.sent s' := by
  cases s <;> cases s' <;> first | rfl | exact absurd rfl h

theorem setCounts_dropped_other {s' : Stream} (h : s' ≠ s) :
    (w.setCounts sent dropped s).dropped s' = w.dropped s' := by
  cases s <;> cases s' <;> first | rfl | exact absurd rfl h

theorem setCounts_with_conn :
    { w.setCounts sent dropped s with conn := w.conn } = w.setCounts sent dropped s := by
  cases s <;> rfl

end

/-! ## The room of a stream -/

theorem toNatClampNeg_lt (cap : Int64) : cap.toNatClampNeg < 2 ^ 63 := by
  have hhigh := cap.toInt_le
  have hmax : Int64.maxValue.toInt = 9223372036854775807 := by decide
  rw [← Int64.toNat_toInt]
  omega

/-- A stream that has reached the cap has no room. -/
theorem room_full {n : ℕ} (h : cap.toNatClampNeg ≤ n) :
    cap - Int64.ofNat (min cap.toNatClampNeg n) ≤ 0 := by
  rw [Nat.min_eq_left h]
  by_cases hneg : cap ≤ 0
  · have hzero : cap.toNatClampNeg = 0 := by
      rw [← Int64.toNat_toInt]
      have hle := Int64.le_iff_toInt_le.mp hneg
      rw [Int64.toInt_zero] at hle
      omega
    rw [hzero]
    show cap - 0 ≤ 0
    rwa [Int64.sub_zero]
  · have hpos : 0 ≤ cap := by
      rw [Int64.le_iff_toInt_le] at hneg ⊢
      omega
    rw [Int64.ofNat_toNatClampNeg cap hpos, Int64.sub_self]
    exact Int64.le_refl 0

theorem room_left {n : ℕ} (h : n < cap.toNatClampNeg) :
    cap - Int64.ofNat (min cap.toNatClampNeg n) = Int64.ofNat (cap.toNatClampNeg - n) := by
  have hpos : 0 ≤ cap := by
    rw [Int64.le_iff_toInt_le, Int64.toInt_zero]
    rw [← Int64.toNat_toInt] at h
    omega
  rw [Nat.min_eq_right (Nat.le_of_lt h), Int64.ofNat_sub _ _ (Nat.le_of_lt h),
    Int64.ofNat_toNatClampNeg cap hpos]

/-! ## One write -/

/-- What a writer has done with the outputs it was given, while it is open: `frames` are those it
sent. -/
structure Capped (cap : Int64) (outputs frames : List Output) (w : FrameWriter) : Prop where
  cap_eq : w.cap = cap
  unsealed : w.isSealed = false
  conn_eq : w.conn = ⟨frames.flatMap Output.encode, none⟩
  small : ∀ f ∈ frames, f.bytes.length ≤ maxFrame
  sent_eq : ∀ s, w.sent s = Int64.ofNat (min cap.toNatClampNeg (streamBytes s outputs).length)
  dropped_eq : ∀ s, w.dropped s = Int64.ofNat ((streamBytes s outputs).length - cap.toNatClampNeg)
  frames_eq : ∀ s, streamBytes s frames = (streamBytes s outputs).take cap.toNatClampNeg

theorem capped_new (cap : Int64) : Capped cap [] [] (.new ⟨[], none⟩ cap) where
  cap_eq := rfl
  unsealed := rfl
  conn_eq := rfl
  small := by
    intro f hf
    cases hf
  sent_eq := by
    intro s
    rw [streamBytes, List.filter_nil, List.flatMap_nil, List.length_nil, Nat.min_zero]
    cases s <;> rfl
  dropped_eq := by
    intro s
    rw [streamBytes, List.filter_nil, List.flatMap_nil, List.length_nil, Nat.zero_sub]
    cases s <;> rfl
  frames_eq := by
    intro s
    rw [streamBytes, List.filter_nil, List.flatMap_nil, List.take_nil]

/-- A write that sends `frames'` and sets the counts of its stream. -/
theorem Capped.write {frames' : List Output} {sent dropped : Int64} {conn : Conn}
    (h : Capped cap outputs frames w)
    (hconn : conn = ⟨(frames ++ frames').flatMap Output.encode, none⟩)
    (hsmall : ∀ f ∈ frames', f.stream = o.stream ∧ f.bytes.length ≤ maxFrame)
    (hsent : sent = Int64.ofNat
      (min cap.toNatClampNeg ((streamBytes o.stream outputs).length + o.bytes.length)))
    (hdropped : dropped = Int64.ofNat
      ((streamBytes o.stream outputs).length + o.bytes.length - cap.toNatClampNeg))
    (hframes : streamBytes o.stream frames' =
      o.bytes.take (cap.toNatClampNeg - (streamBytes o.stream outputs).length)) :
    Capped cap (outputs ++ [o]) (frames ++ frames')
      { w.setCounts sent dropped o.stream with conn := conn } where
  cap_eq := by
    show (w.setCounts sent dropped o.stream).cap = cap
    rw [setCounts_cap, h.cap_eq]
  unsealed := by
    show (w.setCounts sent dropped o.stream).isSealed = false
    rw [setCounts_isSealed, h.unsealed]
  conn_eq := hconn
  small := List.forall_mem_append.mpr ⟨h.small, fun f hf => (hsmall f hf).2⟩
  sent_eq := by
    intro s
    show (w.setCounts sent dropped o.stream).sent s = _
    rw [streamBytes_append, List.length_append]
    by_cases hs : s = o.stream
    · rw [hs, setCounts_sent, streamBytes_same, hsent]
    · rw [setCounts_sent_other _ _ _ _ hs, streamBytes_other hs, h.sent_eq s]
      rfl
  dropped_eq := by
    intro s
    show (w.setCounts sent dropped o.stream).dropped s = _
    rw [streamBytes_append, List.length_append]
    by_cases hs : s = o.stream
    · rw [hs, setCounts_dropped, streamBytes_same, hdropped]
    · rw [setCounts_dropped_other _ _ _ _ hs, streamBytes_other hs, h.dropped_eq s]
      rfl
  frames_eq := by
    intro s
    rw [streamBytes_append, streamBytes_append]
    by_cases hs : s = o.stream
    · rw [hs, streamBytes_same, hframes, h.frames_eq, List.take_append]
    · have hnone : streamBytes s frames' = [] := by
        unfold streamBytes
        rw [List.flatMap_eq_nil_iff]
        intro f hf
        obtain ⟨hmem, hstream⟩ := List.mem_filter.mp hf
        exact absurd ((of_decide_eq_true hstream).symm.trans (hsmall f hmem).1) hs
      rw [hnone, streamBytes_other hs, List.append_nil, List.append_nil, h.frames_eq]

/-- INTERNAL: **one write keeps the account of both streams.** -/
theorem Capped.emit (h : Capped cap outputs frames w) (ho : o.bytes.length ≤ maxFrame) :
    ∃ frames', Capped cap (outputs ++ [o]) frames' (w.emit o) := by
  generalize hn : (streamBytes o.stream outputs).length = n
  have hsent := h.sent_eq o.stream
  have hdropped := h.dropped_eq o.stream
  rw [hn] at hsent hdropped
  have hmax : maxFrame < 2 ^ 63 := by decide
  rw [FrameWriter.emit]
  simp only [h.unsealed, Bool.false_eq_true, if_false, h.cap_eq, hsent, hdropped]
  by_cases hfull : cap.toNatClampNeg ≤ n
  · -- no room: everything is dropped
    rw [if_pos (room_full hfull), ← setCounts_with_conn]
    refine ⟨frames ++ [], h.write ?_ ?_ ?_ ?_ ?_⟩
    · rw [List.append_nil, h.conn_eq]
    · intro f hf
      cases hf
    · rw [hn]
      congr 1
      omega
    · rw [hn, ← Int64.ofNat_add]
      congr 1
      omega
    · rw [hn, Nat.sub_eq_zero_of_le hfull]
      rfl
  · have hroom := room_left (Nat.lt_of_not_le hfull)
    have hsmall : cap.toNatClampNeg - n < 2 ^ 63 := by
      have := toNatClampNeg_lt cap
      omega
    have hpos : ¬ Int64.ofNat (cap.toNatClampNeg - n) ≤ 0 := by
      rw [Int64.le_iff_toInt_le, Int64.toInt_ofNat_of_lt hsmall, Int64.toInt_zero]
      omega
    have hcompare : Int64.ofNat (cap.toNatClampNeg - n) < Int64.ofNat o.bytes.length ↔
        cap.toNatClampNeg - n < o.bytes.length := by
      rw [Int64.lt_iff_toInt_lt, Int64.toInt_ofNat_of_lt hsmall, Int64.toInt_ofNat_of_lt (by omega)]
      omega
    simp only [hroom, if_neg hpos, hcompare, Int64.toNatClampNeg_ofNat_of_lt hsmall]
    by_cases hcut : cap.toNatClampNeg - n < o.bytes.length
    · -- the bytes that still fit
      simp only [if_pos hcut]
      have hlength : (o.bytes.take (cap.toNatClampNeg - n)).length = cap.toNatClampNeg - n := by
        rw [List.length_take]
        omega
      refine ⟨frames ++ [⟨o.stream, o.bytes.take (cap.toNatClampNeg - n)⟩], h.write ?_ ?_ ?_ ?_ ?_⟩
      · rw [h.conn_eq, writeFrame_unbroken (by omega), List.flatMap_append, List.flatMap_singleton]
        rfl
      · intro f hf
        rw [List.mem_singleton.mp hf]
        refine ⟨rfl, ?_⟩
        show (o.bytes.take (cap.toNatClampNeg - n)).length ≤ maxFrame
        omega
      · rw [hn, ← Int64.ofNat_add]
        congr 1
        omega
      · rw [hn, ← Int64.ofNat_sub _ _ (by omega), ← Int64.ofNat_add]
        congr 1
        omega
      · rw [hn]
        exact streamBytes_same _
    · simp only [if_neg hcut]
      refine ⟨frames ++ [⟨o.stream, o.bytes⟩], h.write ?_ ?_ ?_ ?_ ?_⟩
      · rw [h.conn_eq, writeFrame_unbroken ho, List.flatMap_append, List.flatMap_singleton]
        rfl
      · intro f hf
        rw [List.mem_singleton.mp hf]
        exact ⟨rfl, ho⟩
      · rw [hn, ← Int64.ofNat_add]
        congr 1
        omega
      · rw [hn]
        congr 1
        omega
      · rw [hn, List.take_of_length_le (by omega)]
        exact streamBytes_same _

/-- A run of writes while the writer is open. -/
theorem Capped.run {more : List Output} (h : Capped cap outputs frames w)
    (hmore : ∀ o ∈ more, o.bytes.length ≤ maxFrame) :
    ∃ frames', Capped cap (outputs ++ more) frames' (more.foldl FrameWriter.emit w) := by
  induction more generalizing outputs frames w with
  | nil =>
    rw [List.append_nil]
    exact ⟨frames, h⟩
  | cons o more ih =>
    obtain ⟨frames', h'⟩ := h.emit (hmore o List.mem_cons_self)
    rw [List.foldl_cons, ← List.singleton_append, ← List.append_assoc]
    exact ih h' fun o' ho' => hmore o' (List.mem_cons_of_mem _ ho')

/-! ## The last frame -/

/-- The frame that ends an answer, with the counts of what was dropped. A text too long for a
frame is not sent. -/
def Terminal.encode (t : Terminal) (dropped : Stream → Int64) : List UInt8 :=
  match t with
  | .ended e =>
    encodeFrame kindEnd
      (End.mk e.exitCode (dropped .stdout) (dropped .stderr)).marshal
  | .failed message => if message.length ≤ maxFrame then encodeFrame kindError message else []

theorem finish_isSealed (w : FrameWriter) (t : Terminal) : (w.finish t).isSealed = true := by
  cases t <;> rfl

theorem finish_written {bytes : List UInt8} (h : w.conn = ⟨bytes, none⟩) (t : Terminal) :
    (w.finish t).conn.written = bytes ++ t.encode w.dropped := by
  cases t with
  | ended e =>
    show (writeFrame w.conn kindEnd
      (End.mk e.exitCode w.droppedStdout w.droppedStderr).marshal).1.written = _
    rw [h, writeFrame_unbroken (marshal_end_length _)]
    rfl
  | failed message =>
    show (writeFrame w.conn kindError message).1.written = _
    rw [h, Terminal.encode]
    by_cases hsize : message.length ≤ maxFrame
    · rw [writeFrame_unbroken hsize, if_pos hsize]
    · rw [writeFrame_tooLarge (by omega), if_neg hsize, List.append_nil]

/-- Nothing is written any more once the last frame is. -/
theorem sealed_run (h : w.isSealed = true) (more : List Output) :
    (more.foldl FrameWriter.emit w).conn = w.conn := by
  induction more generalizing w with
  | nil => rfl
  | cons o more ih =>
    have hemit : w.emit o = w.setCounts (w.sent o.stream)
        (w.dropped o.stream + Int64.ofNat o.bytes.length) o.stream := by
      rw [FrameWriter.emit, if_pos h]
    rw [List.foldl_cons, hemit, ih (by rw [setCounts_isSealed, h]), setCounts_conn]

/-- All that a command's goroutines do with the writer: `before` the last frame, and the writes
that come too late. -/
def FrameWriter.serve (cap : Int64) (before : List Output) (t : Terminal) (late : List Output) :
    FrameWriter :=
  late.foldl FrameWriter.emit ((before.foldl FrameWriter.emit (.new ⟨[], none⟩ cap)).finish t)

/-- The account of a whole command. -/
theorem serve_written (cap : Int64) {before : List Output} (t : Terminal) (late : List Output)
    (hbefore : ∀ o ∈ before, o.bytes.length ≤ maxFrame) :
    ∃ frames : List Output, (∀ f ∈ frames, f.bytes.length ≤ maxFrame) ∧
      (∀ s, streamBytes s frames = (streamBytes s before).take cap.toNatClampNeg) ∧
      (FrameWriter.serve cap before t late).conn.written = frames.flatMap Output.encode ++
        t.encode fun s =>
          Int64.ofNat ((streamBytes s before).length - (streamBytes s frames).length) := by
  obtain ⟨frames, h⟩ := (capped_new cap).run hbefore
  rw [List.nil_append] at h
  refine ⟨frames, h.small, h.frames_eq, ?_⟩
  have hdropped : (before.foldl FrameWriter.emit (.new ⟨[], none⟩ cap)).dropped = fun s =>
      Int64.ofNat ((streamBytes s before).length - (streamBytes s frames).length) := by
    funext s
    rw [h.dropped_eq, h.frames_eq, List.length_take]
    congr 1
    omega
  rw [FrameWriter.serve, sealed_run (finish_isSealed _ _), finish_written h.conn_eq, hdropped]

/-- INTERNAL: **each stream is sent up to the cap, and the end says how much of it was not**, in
any order of the writes. What is written is the frames, none over the frame limit, and then the
last one: a write that comes after it adds none.
SRCLINE: agent.go:497-577 -/
theorem frameWriter_capped (cap : Int64) (before late : List Output) (t : Terminal)
    (hsmall : ∀ o ∈ before ++ late, o.bytes.length ≤ maxFrame) :
    ∃ frames : List Output, (∀ f ∈ frames, f.bytes.length ≤ maxFrame) ∧
      (∀ s, streamBytes s frames =
        (streamBytes s before).take (min cap.toNatClampNeg (streamBytes s before).length)) ∧
      (FrameWriter.serve cap before t late).conn.written = frames.flatMap Output.encode ++
        t.encode fun s =>
          Int64.ofNat ((streamBytes s before).length - (streamBytes s frames).length) := by
  obtain ⟨frames, hsizes, hframes, hwritten⟩ :=
    serve_written cap t late fun o ho => hsmall o (List.mem_append_left _ ho)
  refine ⟨frames, hsizes, ?_, hwritten⟩
  intro s
  rw [hframes, List.take_eq_take_min]

/-- Three writes with a cap of two, and one that comes too late. -/
theorem frameWriter_capped_two :
    ∃ frames : List Output, (∀ f ∈ frames, f.bytes.length ≤ maxFrame) ∧
      (∀ s, streamBytes s frames =
        (streamBytes s [⟨.stdout, [1]⟩, ⟨.stderr, [9]⟩, ⟨.stdout, [2, 3]⟩]).take
          (min (2 : Int64).toNatClampNeg
            (streamBytes s [⟨.stdout, [1]⟩, ⟨.stderr, [9]⟩, ⟨.stdout, [2, 3]⟩]).length)) ∧
      (FrameWriter.serve 2 [⟨.stdout, [1]⟩, ⟨.stderr, [9]⟩, ⟨.stdout, [2, 3]⟩] (.ended ⟨0, 0, 0⟩)
        [⟨.stderr, [8]⟩]).conn.written = frames.flatMap Output.encode ++
          (Terminal.ended ⟨0, 0, 0⟩).encode fun s => Int64.ofNat
            ((streamBytes s [⟨.stdout, [1]⟩, ⟨.stderr, [9]⟩, ⟨.stdout, [2, 3]⟩]).length -
              (streamBytes s frames).length) :=
  frameWriter_capped 2 _ _ _ (by decide)

end ServerlessHarness.GuestAgent
