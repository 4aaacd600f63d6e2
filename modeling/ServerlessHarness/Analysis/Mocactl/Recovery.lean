import Mathlib.Logic.Equiv.List
import Mathlib.Tactic.DeriveEncodable
import ServerlessHarness.Model.Mocactl.Transcripts

/-!
# Transcripts after a crash

Whatever part of an append is lost, the records before it can be read, and the next process starts
a new line, so what it appends can be read as well (`readRecs_writePart`). This is so for every
record but the header: if the header is lost, no process takes the file for its own any more
(`Lost`), and all that it is asked to write is passed over.
-/

set_option autoImplicit false

namespace ServerlessHarness.Mocactl

namespace TranscriptConfig

variable (cfg : TranscriptConfig) {w : World} {s : Store} {r : Rec} {recs : List Rec}
  {file : Option (List UInt8)}

/-! ## The records of a file -/

theorem readRecs_append (a b : List UInt8) :
    cfg.readRecs (a ++ 10 :: b) = cfg.readRecs a ++ cfg.readRecs b := by
  rw [readRecs, List.splitOn_append_cons_self, List.filterMap_append]
  rfl

theorem readRecs_line {line : List UInt8} (h : (10 : UInt8) ∉ line) :
    cfg.readRecs line = (cfg.codec.parse line).toList := by
  rw [readRecs, List.splitOn_eq_singleton h]
  cases hparse : cfg.codec.parse line <;> simp [hparse]

theorem readRecs_nil : cfg.readRecs [] = [] := by
  have hline := cfg.readRecs_line (List.not_mem_nil (a := 10))
  rw [cfg.codec.parse_torn (.prompt []) [] (List.nil_prefix)
    (cfg.codec.encode_ne_nil _).symm] at hline
  exact hline

/-- A file that ends with a whole line, or with none. -/
theorem readRecs_of_not_torn {a : List UInt8} (h : endsTorn (some a) = false) (b : List UInt8) :
    cfg.readRecs (a ++ b) = cfg.readRecs a ++ cfg.readRecs b := by
  rcases List.eq_nil_or_concat a with rfl | ⟨a, last, rfl⟩
  · rw [readRecs_nil]
    rfl
  · have hlast : last = 10 := by simpa [endsTorn] using h
    have hend := cfg.readRecs_append a []
    rw [readRecs_nil, List.append_nil] at hend
    rw [List.concat_eq_append, hlast, List.append_assoc, List.singleton_append, readRecs_append,
      hend]

/-- Some of the bytes of a line. -/
theorem readRecs_take (r : Rec) (k : ℕ) :
    cfg.readRecs ((cfg.codec.encode r ++ [10]).take k) =
      if (cfg.codec.encode r).length ≤ k then [r] else [] := by
  have hline := cfg.codec.oneLine r
  have hwhole : cfg.readRecs (cfg.codec.encode r) = [r] := by
    rw [readRecs_line cfg hline, cfg.codec.parse_encode]
    rfl
  split
  · next h =>
    rcases Nat.eq_or_lt_of_le h with h | h
    · rw [← h, List.take_left, hwhole]
    · rw [List.take_of_length_le (by simp; omega), readRecs_append, readRecs_nil, hwhole,
        List.append_nil]
  · next h =>
    have hpart := List.take_prefix k (cfg.codec.encode r)
    have hne : (cfg.codec.encode r).take k ≠ cfg.codec.encode r := by
      intro heq
      have hlength := congrArg List.length heq
      rw [List.length_take] at hlength
      omega
    rw [List.take_append_of_le_length (by omega),
      readRecs_line cfg (fun hmem => hline (hpart.subset hmem)), cfg.codec.parse_torn r _ hpart hne]
    rfl

/-- The process knows that the file ends with a whole line. -/
def TailKnown (s : Store) : Prop := s.tailChecked = true → endsTorn s.file = false

/-- INTERNAL: **an append of which a part is lost takes nothing else with it**. -/
theorem readRecs_writePart (hs : TailKnown s) (r : Rec) (k : ℕ) :
    cfg.readRecs (cfg.writePart s r k) =
      cfg.readRecs (s.file.getD []) ++ if (cfg.chunk s r).length ≤ k + 1 then [r] else [] := by
  have hpos := List.length_pos_iff.mpr (cfg.codec.encode_ne_nil r)
  unfold writePart chunk
  cases hsep : !s.tailChecked && endsTorn s.file with
  | false =>
    have htorn : endsTorn (some (s.file.getD [])) = false := by
      cases hchecked : s.tailChecked with
      | true => exact hs hchecked
      | false =>
        rw [hchecked] at hsep
        exact hsep
    simp only [Bool.false_eq_true, if_false, List.nil_append]
    rw [readRecs_of_not_torn cfg htorn, readRecs_take]
    simp
  | true =>
    simp only [if_true]
    cases k with
    | zero => simp
    | succ k =>
      rw [List.singleton_append, List.take_succ_cons, readRecs_append, readRecs_take]
      simp

theorem writePart_all (s : Store) (r : Rec) :
    some (cfg.writePart s r (cfg.chunk s r).length) = (cfg.write s r).file := by
  rw [writePart, List.take_length]
  rfl

theorem readRecs_write (hs : TailKnown s) (r : Rec) :
    cfg.readRecs ((cfg.write s r).file.getD []) = cfg.readRecs (s.file.getD []) ++ [r] := by
  have h := cfg.readRecs_writePart hs r (cfg.chunk s r).length
  rw [if_pos (Nat.le_succ _)] at h
  rw [← writePart_all]
  exact h

theorem tailKnown_write (s : Store) (r : Rec) : TailKnown (cfg.write s r) := by
  intro _
  simp [write, chunk, endsTorn]

theorem readRecs_writeAll (hs : TailKnown s) (recs : List Rec) :
    TailKnown (cfg.writeAll s recs) ∧
      cfg.readRecs ((cfg.writeAll s recs).file.getD []) = cfg.readRecs (s.file.getD []) ++
        recs := by
  induction recs generalizing s with
  | nil => exact ⟨hs, (List.append_nil _).symm⟩
  | cons r recs ih =>
    obtain ⟨hknown, hread⟩ := ih (cfg.tailKnown_write s r)
    refine ⟨hknown, hread.trans ?_⟩
    rw [readRecs_write cfg hs, List.append_assoc, List.singleton_append]

/-! ## The header -/

/-- The header comes first, and there is no other. -/
def Headed (recs : List Rec) : Prop :=
  ∃ createdAt rest, recs = .header createdAt cfg.owner :: rest ∧ ∀ r ∈ rest, r.headerOwner = none

/-- The records of a file that has its header, or of none. -/
def Whole (file : Option (List UInt8)) (recs : List Rec) : Prop :=
  file = none ∧ recs = [] ∨ cfg.Headed recs

theorem Headed.append {more : List Rec} (h : cfg.Headed recs)
    (hmore : ∀ r ∈ more, r.headerOwner = none) : cfg.Headed (recs ++ more) := by
  obtain ⟨createdAt, rest, rfl, hrest⟩ := h
  exact ⟨createdAt, rest ++ more, List.cons_append, List.forall_mem_append.mpr ⟨hrest, hmore⟩⟩

theorem Headed.owners (h : cfg.Headed recs) :
    recs.filterMap Rec.headerOwner = [cfg.owner] := by
  obtain ⟨createdAt, rest, rfl, hrest⟩ := h
  have howner : (Rec.header createdAt cfg.owner).headerOwner = some cfg.owner := rfl
  rw [List.filterMap_cons_some howner, List.filterMap_eq_nil_iff.mpr hrest]

/-- The records of a call: a header comes first if there is no file, and only then. -/
def Fits (file : Option (List UInt8)) (recs : List Rec) : Prop :=
  (file = none → recs = [] ∨ cfg.Headed recs) ∧ (file ≠ none → ∀ r ∈ recs, r.headerOwner = none)

theorem Fits.take (h : cfg.Fits file recs) (n : ℕ) :
    cfg.Fits file (recs.take n) := by
  refine ⟨fun hnone => ?_, fun hsome r hr => h.2 hsome r (List.mem_of_mem_take hr)⟩
  rcases h.1 hnone with rfl | ⟨createdAt, rest, rfl, hrest⟩
  · exact .inl List.take_nil
  · cases n with
    | zero => exact .inl rfl
    | succ n =>
      exact .inr ⟨createdAt, rest.take n, rfl, fun r hr => hrest r (List.mem_of_mem_take hr)⟩

theorem fits_ensure (s : Store) (createdAt : ℕ) (more : List Rec)
    (hmore : ∀ r ∈ more, r.headerOwner = none) :
    cfg.Fits s.file (cfg.ensure s createdAt ++ more) := by
  unfold ensure
  cases hfile : s.file with
  | none => exact ⟨fun _ => .inr ⟨createdAt, more, rfl, hmore⟩, fun h => absurd rfl h⟩
  | some bytes => exact ⟨nofun, fun _ => hmore⟩

theorem flush_headerOwner (h : r ∈ flush s) : r.headerOwner = none := by
  unfold flush at h
  split at h
  · rw [List.mem_singleton.mp h]
    rfl
  · cases h

/-- What is pending was handed over after the header was written. -/
theorem fits_records (hs : s.file = none → s.pending = none) (c : Call) :
    cfg.Fits s.file (cfg.records s c) := by
  cases c with
  | ensure createdAt =>
    have h := cfg.fits_ensure s createdAt [] nofun
    rwa [List.append_nil] at h
  | flush =>
    refine ⟨fun hnone => .inl ?_, fun _ r hr => flush_headerOwner hr⟩
    simp [records, flush, hs hnone]
  | appendPrompt now text =>
    simp only [records, appendPrompt, List.append_assoc]
    apply fits_ensure
    intro r hr
    rcases List.mem_append.mp hr with hr | hr
    · exact flush_headerOwner hr
    · rcases List.mem_append.mp hr with hr | hr
      · grind [Rec.headerOwner]
      · rw [List.mem_singleton.mp hr]
        rfl
  | appendFrame now frame =>
    have hensure := cfg.fits_ensure s now [] nofun
    have hflush := cfg.fits_ensure s now (flush s) fun r hr => flush_headerOwner hr
    rw [List.append_nil] at hensure
    show cfg.Fits s.file (cfg.appendFrame s now frame).1
    unfold appendFrame
    split
    · split
      · split
        · exact hensure
        · exact hflush
      · exact hensure
    · rw [List.append_assoc]
      apply fits_ensure
      intro r hr
      rcases List.mem_append.mp hr with hr | hr
      · exact flush_headerOwner hr
      · rw [List.mem_singleton.mp hr]
        rfl
  | rename now title =>
    apply fits_ensure
    intro r hr
    rw [List.mem_singleton.mp hr]
    rfl

/-- Records that fit are appended to a file that has its header, or begin with it. -/
theorem Whole.append {more : List Rec} (h : cfg.Whole file recs) (hfile : recs ≠ [] → file ≠ none)
    (hfits : cfg.Fits file more) (hne : more ≠ []) :
    cfg.Headed (recs ++ more) := by
  rcases h with ⟨hnone, rfl⟩ | h
  · exact (hfits.1 hnone).resolve_left hne
  · refine Headed.append cfg h (hfits.2 (hfile ?_))
    obtain ⟨createdAt, rest, rfl, -⟩ := h
    exact List.cons_ne_nil _ _

/-! ## Runs -/

/-- What the world says of the file. -/
structure Kept (w : World) : Prop where
  tail : TailKnown w.store
  readable : cfg.readRecs (w.store.file.getD []) = w.records.map Prod.fst
  pending : w.store.file = none → w.store.pending = none

/-- The owner has the file, or there is none yet. -/
def Owned (w : World) : Prop :=
  cfg.Whole w.store.file (w.records.map Prod.fst) ∧ w.store.ownership ≠ some false

/-- The header was lost. -/
def Lost (w : World) : Prop :=
  w.store.file ≠ none ∧ w.records = [] ∧ w.store.ownership ≠ some true

variable {cfg}

theorem Kept.file_ne_none (h : cfg.Kept w) (hne : w.records.map Prod.fst ≠ []) :
    w.store.file ≠ none := by
  intro hnone
  have hread := h.readable
  rw [hnone] at hread
  exact hne (hread.symm.trans cfg.readRecs_nil)

theorem ownsFile_of_owned (h : cfg.Kept w) (ho : cfg.Owned w) :
    cfg.ownsFile w.store = true := by
  unfold ownsFile
  split
  · next cached hcached =>
    cases cached with
    | true => rfl
    | false => exact absurd hcached ho.2
  · split
    · rfl
    · next bytes hbytes =>
      have hread := h.readable
      rw [hbytes] at hread
      rcases ho.1 with ⟨hnone, -⟩ | hheaded
      · rw [hnone] at hbytes
        cases hbytes
      · have howners := Headed.owners cfg hheaded
        rw [← hread] at howners
        exact beq_iff_eq.mpr (congrArg List.head? howners)

theorem ownsFile_of_lost (h : cfg.Kept w) (hl : Lost w) : cfg.ownsFile w.store = false := by
  obtain ⟨hfile, hrecords, hown⟩ := hl
  unfold ownsFile
  split
  · next cached hcached =>
    cases cached with
    | true => exact absurd hcached hown
    | false => rfl
  · split
    · next hnone => exact absurd hnone hfile
    · next bytes hbytes =>
      have hread := h.readable
      rw [hbytes, hrecords] at hread
      have hnil : cfg.readRecs bytes = [] := hread
      rw [hnil]
      rfl

theorem writeAll_file (h : (cfg.writeAll s recs).file = none) :
    s.file = none ∧ recs = [] := by
  induction recs generalizing s with
  | nil => exact ⟨h, rfl⟩
  | cons r recs ih => exact absurd (ih h).1 (Option.some_ne_none _)

/-- Some of the records of a call are appended. -/
theorem whole_writeAll (h : cfg.Kept w) (ho : cfg.Owned w) (hfits : cfg.Fits w.store.file recs) :
    cfg.Whole (cfg.writeAll w.store recs).file (w.records.map Prod.fst ++ recs) := by
  by_cases hne : recs = []
  · subst hne
    rw [List.append_nil]
    exact ho.1
  · exact .inr (Whole.append cfg ho.1 h.file_ne_none hfits hne)

theorem map_fst_append (records : List (Rec × Bool)) (recs : List Rec) :
    (records ++ recs.map fun r => (r, true)).map Prod.fst = records.map Prod.fst ++ recs := by
  simp [Function.comp_def]

theorem pending_remember (hs : s.file = none → s.pending = none) {c : Call}
    (hnone : s.file = none) (hrecords : cfg.records s c = []) :
    (cfg.remember s c).pending = none := by
  cases c with
  | ensure | rename => exact hs hnone
  | flush | appendPrompt => rfl
  | appendFrame now frame =>
    cases frame with
    | delta type delta => simp [records, appendFrame, ensure, hs hnone, hnone] at hrecords
    | other terminal usage json => rfl

/-- INTERNAL: **a call that goes through**. -/
theorem complete_kept (h : cfg.Kept w) (ho : cfg.Owned w) (c : Call) :
    cfg.Kept (cfg.complete w c) ∧ cfg.Owned (cfg.complete w c) := by
  obtain ⟨htail, hread⟩ := cfg.readRecs_writeAll h.tail (cfg.records w.store c)
  have hwhole := whole_writeAll h ho (cfg.fits_records h.pending c)
  refine ⟨⟨htail, ?_, ?_⟩, ?_, nofun⟩
  · rw [complete, map_fst_append, ← h.readable]
    exact hread
  · intro hnone
    obtain ⟨hfile, hrecords⟩ := writeAll_file hnone
    exact pending_remember h.pending hfile hrecords
  · rw [complete, map_fst_append]
    exact hwhole

/-- A process that begins with a file. -/
theorem fresh_kept {records : List (Rec × Bool)} {dropped : List Call}
    (h : cfg.readRecs (file.getD []) = records.map Prod.fst) :
    cfg.Kept ⟨.fresh file, records, dropped⟩ where
  tail := nofun
  readable := h
  pending := fun _ => rfl

/-- The last append of a call is the header's, and not all of its JSON is in the file. -/
def TearsHeader (cfg : TranscriptConfig) (w : World) : Act → Prop
  | .crash c n k =>
    ∃ createdAt owner, (cfg.records w.store c)[n]? = some (.header createdAt owner) ∧
      k + 1 < (cfg.chunk (cfg.writeAll w.store ((cfg.records w.store c).take n))
        (.header createdAt owner)).length
  | _ => False

/-- With no file, the first append is the header's. -/
theorem header_of_fits (hfits : cfg.Fits none recs) {n : ℕ} (hr : recs[n]? = some r)
    (hfirst : recs.take n = []) : ∃ createdAt, r = .header createdAt cfg.owner := by
  rcases hfits.1 rfl with rfl | ⟨createdAt, rest, rfl, -⟩
  · cases hr
  · cases n with
    | zero => exact ⟨createdAt, (Option.some.inj hr).symm⟩
    | succ n => cases hfirst

/-- INTERNAL: **a call during which the process dies**. -/
theorem tear_kept (h : cfg.Kept w) (ho : cfg.Owned w) (c : Call) (n k : ℕ) :
    cfg.Kept (cfg.tear w c n k) ∧
      (cfg.Owned (cfg.tear w c n k) ∨ Lost (cfg.tear w c n k) ∧
        cfg.TearsHeader w (.crash c n k)) := by
  obtain ⟨htail, hread⟩ := cfg.readRecs_writeAll h.tail ((cfg.records w.store c).take n)
  have hfits := cfg.fits_records h.pending c
  have hwhole := whole_writeAll h ho (Fits.take cfg hfits n)
  rw [h.readable] at hread
  unfold tear
  split
  · refine ⟨fresh_kept ?_, .inl ⟨?_, nofun⟩⟩
    · rw [map_fst_append]
      exact hread
    · rw [map_fst_append]
      exact hwhole
  · next r hr =>
    have hpart := cfg.readRecs_writePart htail r k
    rw [hread] at hpart
    by_cases hlength : (cfg.chunk
      (cfg.writeAll w.store ((cfg.records w.store c).take n)) r).length ≤ k + 1
    · simp only [if_pos hlength] at hpart ⊢
      refine ⟨fresh_kept ?_, .inl ⟨.inr ?_, nofun⟩⟩
      · rw [List.map_append, map_fst_append]
        exact hpart
      · have hnext : (cfg.records w.store c).take (n + 1) = (cfg.records w.store c).take n ++
            [r] := by
          rw [List.take_add_one, hr]
          rfl
        have hheaded := Whole.append cfg ho.1 h.file_ne_none (Fits.take cfg hfits (n + 1))
          (by simp [hnext])
        rw [hnext, ← List.append_assoc] at hheaded
        rw [List.map_append, map_fst_append]
        exact hheaded
    · simp only [if_neg hlength, List.append_nil] at hpart ⊢
      refine ⟨fresh_kept (by rw [map_fst_append]; exact hpart), ?_⟩
      rcases hwhole with ⟨hnone, hnil⟩ | hheaded
      · -- nothing was in the file yet
        obtain ⟨hrecords, hfirst⟩ := List.append_eq_nil_iff.mp hnil
        rw [(writeAll_file hnone).1] at hfits
        obtain ⟨createdAt, rfl⟩ := header_of_fits hfits hr hfirst
        refine .inr ⟨⟨nofun, ?_, nofun⟩, createdAt, cfg.owner, hr, Nat.lt_of_not_le hlength⟩
        simp [hfirst, List.map_eq_nil_iff.mp hrecords]
      · refine .inl ⟨.inr ?_, nofun⟩
        rw [map_fst_append]
        exact hheaded

theorem Lost.restart (h : Lost w) (dropped : List Call) :
    Lost ⟨.fresh w.store.file, w.records, dropped⟩ :=
  ⟨h.1, h.2.1, nofun⟩

/-- The call that is made. -/
def Act.asked : Act → Option Call
  | .call c => some c
  | .crash c _ _ => some c
  | .restart => none

/-- INTERNAL: **what one step does once the header is lost**: the call is passed over. -/
theorem step_lost (h : cfg.Kept w) (hl : Lost w) (act : Act) :
    cfg.Kept (cfg.step w act) ∧ Lost (cfg.step w act) ∧
      (cfg.step w act).dropped = w.dropped ++ act.asked.toList := by
  have howns : ¬cfg.ownsFile w.store = true := by simp [ownsFile_of_lost h hl]
  cases act with
  | call c =>
    rw [step, if_neg howns]
    exact ⟨⟨h.tail, h.readable, h.pending⟩, ⟨hl.1, hl.2.1, nofun⟩, rfl⟩
  | crash c n k =>
    rw [step, if_neg howns]
    exact ⟨fresh_kept h.readable, hl.restart _, rfl⟩
  | restart => exact ⟨fresh_kept h.readable, hl.restart _, (List.append_nil _).symm⟩

/-- Without a header all that is asked is passed over. -/
theorem run_lost (h : cfg.Kept w) (hl : Lost w) (acts : List Act) :
    cfg.Kept (acts.foldl cfg.step w) ∧ Lost (acts.foldl cfg.step w) ∧
      (acts.foldl cfg.step w).dropped = w.dropped ++ acts.filterMap Act.asked := by
  induction acts generalizing w with
  | nil => exact ⟨h, hl, (List.append_nil _).symm⟩
  | cons act acts ih =>
    obtain ⟨hkept, hlost, hdropped⟩ := step_lost h hl act
    obtain ⟨hkept, hlost, hrest⟩ := ih hkept hlost
    refine ⟨hkept, hlost, ?_⟩
    rw [List.foldl_cons, hrest, hdropped, List.append_assoc]
    cases hasked : act.asked <;> simp [hasked]

/-- INTERNAL: **what one step keeps**. -/
theorem step_kept (h : cfg.Kept w) (ho : cfg.Owned w ∨ Lost w) (act : Act) :
    cfg.Kept (cfg.step w act) ∧ (cfg.Owned (cfg.step w act) ∨ Lost (cfg.step w act)) := by
  rcases ho with ho | hl
  · cases act with
    | call c =>
      obtain ⟨hkept, howned⟩ := complete_kept h ho c
      rw [step, if_pos (ownsFile_of_owned h ho)]
      exact ⟨hkept, .inl howned⟩
    | crash c n k =>
      obtain ⟨hkept, howned⟩ := tear_kept h ho c n k
      rw [step, if_pos (ownsFile_of_owned h ho)]
      exact ⟨hkept, howned.imp_right And.left⟩
    | restart => exact ⟨fresh_kept h.readable, .inl ⟨ho.1, nofun⟩⟩
  · obtain ⟨hkept, hlost, -⟩ := step_lost h hl act
    exact ⟨hkept, .inr hlost⟩

theorem start_kept : cfg.Kept .start ∧ cfg.Owned .start :=
  ⟨fresh_kept cfg.readRecs_nil, .inl ⟨rfl, rfl⟩, nofun⟩

/-- A run keeps the file, and its owner unless the header is lost. -/
theorem run_kept (h : cfg.Kept w) (ho : cfg.Owned w ∨ Lost w) (acts : List Act) :
    cfg.Kept (acts.foldl cfg.step w) ∧
      (cfg.Owned (acts.foldl cfg.step w) ∨ Lost (acts.foldl cfg.step w)) := by
  induction acts generalizing w with
  | nil => exact ⟨h, ho⟩
  | cons act acts ih =>
    obtain ⟨hkept, howned⟩ := step_kept h ho act
    exact ih hkept howned

theorem load_of_lost (h : cfg.Kept w) (hl : Lost w) :
    cfg.load w.store.file = none := by
  have hread := h.readable
  cases hfile : w.store.file with
  | none => rfl
  | some bytes =>
    rw [hfile, hl.2.1] at hread
    have hnil : cfg.readRecs bytes = [] := hread
    exact if_neg (by rw [hnil]; exact nofun)

theorem load_of_kept (h : cfg.Kept w) (ho : cfg.Owned w ∨ Lost w) :
    cfg.load w.store.file = none ∧ w.records = [] ∨
      cfg.load w.store.file = some (transcriptOf (w.records.map Prod.fst)) := by
  have hread := h.readable
  cases hfile : w.store.file with
  | none =>
    rw [hfile] at hread
    exact .inl ⟨rfl, List.map_eq_nil_iff.mp (hread.symm.trans cfg.readRecs_nil)⟩
  | some bytes =>
    rw [hfile] at hread
    rcases ho with ⟨⟨hnone, -⟩ | hheaded, -⟩ | hl
    · rw [hnone] at hfile
      cases hfile
    · refine .inr ?_
      rw [← hread] at hheaded ⊢
      exact if_pos (congrArg List.getLast? (Headed.owners cfg hheaded))
    · exact .inl ⟨hfile ▸ load_of_lost h hl, hl.2.1⟩

/-- No crash of the run tears the header. -/
def Spares (cfg : TranscriptConfig) : World → List Act → Prop
  | _, [] => True
  | w, act :: acts => ¬cfg.TearsHeader w act ∧ Spares cfg (cfg.step w act) acts

theorem tear_dropped (w : World) (c : Call) (n k : ℕ) : (cfg.tear w c n k).dropped = w.dropped := by
  unfold tear
  split <;> rfl

/-- The owner keeps the file unless the header is torn. -/
theorem step_owned (h : cfg.Kept w) (ho : cfg.Owned w) {act : Act}
    (hspare : ¬cfg.TearsHeader w act) :
    cfg.Owned (cfg.step w act) ∧ (cfg.step w act).dropped = w.dropped := by
  cases act with
  | call c =>
    rw [step, if_pos (ownsFile_of_owned h ho)]
    exact ⟨(complete_kept h ho c).2, rfl⟩
  | crash c n k =>
    rw [step, if_pos (ownsFile_of_owned h ho)]
    exact ⟨(tear_kept h ho c n k).2.resolve_right fun hlost => hspare hlost.2, tear_dropped w c n k⟩
  | restart => exact ⟨⟨ho.1, nofun⟩, rfl⟩

theorem dropped_of_spares (h : cfg.Kept w) (ho : cfg.Owned w) {acts : List Act}
    (hs : cfg.Spares w acts) : (acts.foldl cfg.step w).dropped = w.dropped := by
  induction acts generalizing w with
  | nil => rfl
  | cons act acts ih =>
    obtain ⟨howned, hdropped⟩ := step_owned h ho hs.1
    exact (ih (step_kept h (.inl ho) act).1 howned hs.2).trans hdropped

/-- Every record whose append completed is returned, in order, and so is one that lacks only its
newline; and if no crash tears the header, no call is passed over. -/
theorem load_run (cfg : TranscriptConfig) (acts : List Act) :
    (cfg.load (cfg.run acts).store.file = none ∧ (cfg.run acts).records = [] ∨
      cfg.load (cfg.run acts).store.file =
        some (transcriptOf ((cfg.run acts).records.map Prod.fst))) ∧
    (cfg.Spares .start acts → (cfg.run acts).dropped = []) := by
  obtain ⟨hstart, hown⟩ : cfg.Kept .start ∧ cfg.Owned .start := start_kept
  obtain ⟨hkept, howned⟩ := run_kept hstart (.inl hown) acts
  exact ⟨load_of_kept hkept howned, dropped_of_spares hstart hown⟩

/-! ## A header that is torn -/

/-- No header is written to a file that exists. -/
theorem not_tearsHeader (h : w.store.file ≠ none) (act : Act) :
    ¬cfg.TearsHeader w act := by
  cases act with
  | crash c n k =>
    rintro ⟨createdAt, owner, hr, -⟩
    have hfits := (cfg.fits_records (fun hnone => absurd hnone h) c).2 h
    cases hfits _ (List.mem_of_getElem? hr)
  | _ => exact id

theorem step_file (h : w.store.file ≠ none) (act : Act) :
    (cfg.step w act).store.file ≠ none := by
  have hall (recs : List Rec) : (cfg.writeAll w.store recs).file ≠ none :=
    fun hnone => h (writeAll_file hnone).1
  cases act with
  | call c =>
    rw [step]
    split
    · exact hall _
    · exact h
  | crash c n k =>
    rw [step]
    split
    · unfold tear
      split
      · exact hall _
      · exact Option.some_ne_none _
    · exact h
  | restart => exact h

/-- Only the first append of all can tear the header. -/
theorem spares_of_file (h : w.store.file ≠ none) (acts : List Act) :
    cfg.Spares w acts := by
  induction acts generalizing w with
  | nil => trivial
  | cons act acts ih => exact ⟨not_tearsHeader h act, ih (step_file h act)⟩

/-- A crash in the header loses it. -/
theorem lost_of_tearsHeader (createdAt : ℕ) {k : ℕ}
    (hk : k < (cfg.codec.encode (.header createdAt cfg.owner)).length) :
    Lost (cfg.step .start (.crash (.ensure createdAt) 0 k)) ∧
      (cfg.step .start (.crash (.ensure createdAt) 0 k)).dropped = [] := by
  have hstep : cfg.step .start (.crash (.ensure createdAt) 0 k) =
      ⟨.fresh (some ((cfg.codec.encode (.header createdAt cfg.owner)).take k)), [], []⟩ := by
    have hshort : ¬(cfg.codec.encode (.header createdAt cfg.owner)).length ≤ k := by omega
    simp [step, tear, ownsFile, records, ensure, writeAll, writePart, chunk, World.start,
      Store.fresh, endsTorn, hshort, List.take_append_of_le_length (Nat.le_of_lt hk)]
  rw [hstep]
  exact ⟨⟨nofun, rfl, nofun⟩, rfl⟩

/-- Whatever part of the header is in the file, all that is asked from then on is passed over, and
nothing is read. -/
theorem run_of_tearsHeader (createdAt : ℕ) {k : ℕ}
    (hk : k < (cfg.codec.encode (.header createdAt cfg.owner)).length) (acts : List Act) :
    (cfg.run (.crash (.ensure createdAt) 0 k :: acts)).dropped = acts.filterMap Act.asked ∧
      cfg.load (cfg.run (.crash (.ensure createdAt) 0 k :: acts)).store.file = none := by
  obtain ⟨hlost, hdropped⟩ := lost_of_tearsHeader createdAt hk
  obtain ⟨hstart, hown⟩ : cfg.Kept .start ∧ cfg.Owned .start := start_kept
  have hkept := (step_kept hstart (.inl hown) (.crash (.ensure createdAt) 0 k)).1
  obtain ⟨hkept, hlost, hrun⟩ := run_lost hkept hlost acts
  rw [hdropped] at hrun
  exact ⟨hrun, load_of_lost hkept hlost⟩

end TranscriptConfig

/-! ## A codec -/

instance encodableUInt16 : Encodable UInt16 :=
  .ofLeftInjection UInt16.toNat (fun n => some (.ofNat n)) fun _ => by simp

deriving instance Encodable for TranscriptOwner
deriving instance Encodable for Usage
deriving instance Encodable for DeltaType
deriving instance Encodable for Frame
deriving instance Encodable for TitleSource
deriving instance Encodable for Rec

namespace TranscriptConfig

/-- A record as so many ones and a two. -/
def unary (r : Rec) : List UInt8 := List.replicate (Encodable.encode r + 1) 1 ++ [2]

theorem eq_of_unary_isPrefix {r r' : Rec} (h : unary r' <+: unary r) : r' = r := by
  have hlength : ∀ n m : ℕ,
      List.replicate n (1 : UInt8) ++ [2] <+: List.replicate m 1 ++ [2] → n = m := by
    intro n
    induction n with
    | zero =>
      rintro (_ | m) h
      · rfl
      · simp [List.replicate_succ] at h
    | succ n ih =>
      rintro (_ | m) h
      · simp [List.replicate_succ] at h
      · rw [List.replicate_succ, List.replicate_succ, List.cons_append, List.cons_append,
          List.cons_prefix_cons] at h
        rw [ih m h.2]
  exact Encodable.encode_injective (Nat.succ_injective (hlength _ _ h))

/-- Records as lines. -/
def unaryCodec : RecCodec where
  encode := unary
  parse := fun line => (Encodable.decode (line.length - 2)).filter fun r => unary r == line
  parse_encode := by
    intro r
    simp [unary]
  oneLine := by
    intro r
    simp [unary]
  encode_ne_nil := by
    intro r
    simp [unary]
  parse_torn := by
    intro r p hp hne
    rw [Option.filter_eq_none_iff]
    intro r' _ heq
    obtain rfl := beq_iff_eq.mp heq
    exact hne (congrArg unary (eq_of_unary_isPrefix hp))

def unaryConfig : TranscriptConfig := ⟨unaryCodec, ⟨[], []⟩, id⟩

/-- One byte of the header is in the file, and the next process appends a prompt. -/
theorem torn_header_drops :
    (unaryConfig.run [.crash (.ensure 0) 0 1, .call (.appendPrompt 0 [104])]).dropped =
        [.appendPrompt 0 [104]] ∧
      unaryConfig.load (unaryConfig.run [.crash (.ensure 0) 0 1,
        .call (.appendPrompt 0 [104])]).store.file = none :=
  run_of_tearsHeader 0 (by simp [unaryConfig, unaryCodec, unary]) _

/-- The process dies with three bytes of the title in the file, and the next goes on. -/
theorem load_run_title_torn :
    (unaryConfig.run [.call (.ensure 0), .crash (.appendPrompt 0 [104]) 0 3,
      .call (.appendPrompt 0 [105])]).dropped = [] :=
  (load_run unaryConfig _).2 ⟨id, spares_of_file (Option.some_ne_none _) _⟩

end TranscriptConfig

end ServerlessHarness.Mocactl
