import Mathlib.Data.Set.Card
import Mathlib.Data.Int.Interval
import ServerlessHarness.Library.Trail
import ServerlessHarness.Model.ConfigBundle.Tar

/-!
# When reading an archive ends

The offsets of the loop are a trail: the size field of the header at one offset determines the
next. The loop returns exactly if no offset leads back to itself (`exists_trail`, since only
offsets near the buffer have a header), and the files it returns are the headers of regular files
on the trail. From the start of the buffer on there is one header for each block at most; before
the start, where the buffer is read from its end, there may be as many again.

A size of −512 or less is the only way back: an archive without one is read to its end
(`untar_ends_of_sizes`).
-/

set_option autoImplicit false

namespace ServerlessHarness.ConfigBundle

open Library

variable {tar : List UInt8} {off p q : Int} {n : ℕ}

/-! ## The offsets -/

/-- Where the size field of the header at an offset leads. -/
def nextAt (tar : List UInt8) (off : Int) : Option Int :=
  (headerAt tar off).bind fun h => h.size.map fun size => off + block + roundUp size

/-- The offsets to which the size fields lead from the first block on. -/
def Reached (tar : List UInt8) (p : Int) : Prop := Relation.ReflTransGen (Leads (nextAt tar)) 0 p

/-- The size fields lead from no offset back to it. -/
def NoReturn (tar : List UInt8) : Prop :=
  ∀ p, Reached tar p → ¬ Relation.TransGen (Leads (nextAt tar)) p p

/-- There is the header of a regular file at an offset. -/
def isFile (tar : List UInt8) (p : Int) : Bool := (headerAt tar p).any Header.regular

/-- The regular files at or after the start of the buffer. -/
def filesFrom (tar : List UInt8) : Set Int := {p | Reached tar p ∧ 0 ≤ p ∧ isFile tar p = true}

/-- The regular files at negative offsets. -/
def filesBefore (tar : List UInt8) : Set Int := {p | Reached tar p ∧ p < 0 ∧ isFile tar p = true}

/-! ## The loop follows the trail -/

def filesAt (tar : List UInt8) (off : Int) : List TarEntry :=
  ((headerAt tar off).map (entriesOf tar off)).getD []

theorem untarLoop_eq (tar : List UInt8) (n : ℕ) (off : Int) :
    untarLoop tar n off = (trail (nextAt tar) n off).map fun ps => ps.flatMap (filesAt tar) := by
  induction n generalizing off with
  | zero => rfl
  | succ n ih =>
    rw [untarLoop, trail, nextAt]
    cases hheader : headerAt tar off with
    | none => simp [filesAt, hheader]
    | some h =>
      cases hsize : h.size with
      | none => simp [filesAt, hheader, hsize]
      | some size =>
        simp only [ih, hsize, Option.bind_some, Option.map_some, Option.map_map]
        apply congrArg (fun g => (trail (nextAt tar) n (off + block + roundUp size)).map g)
        funext ps
        simp [filesAt, hheader]

/-- An archive has one list of entries. -/
theorem untars_unique {tar : List UInt8} {entries other : List TarEntry} (h : Untars tar entries)
    (h' : Untars tar other) : entries = other := by
  obtain ⟨n, hn⟩ := h
  obtain ⟨m, hm⟩ := h'
  rw [untarLoop_eq] at hn hm
  obtain ⟨ps, hps, rfl⟩ := Option.map_eq_some_iff.mp hn
  obtain ⟨qs, hqs, rfl⟩ := Option.map_eq_some_iff.mp hm
  rw [trail_unique hps hqs]

theorem length_flatMap_filesAt (ps : List Int) :
    (ps.flatMap (filesAt tar)).length = ps.countP (isFile tar) := by
  induction ps with
  | nil => rfl
  | cons p ps ih =>
    rw [List.flatMap_cons, List.length_append, ih, List.countP_cons, filesAt, isFile]
    cases headerAt tar p with
    | none => simp
    | some h =>
      simp only [Option.map_some, Option.getD_some, Option.any_some, entriesOf]
      split
      · simp [Nat.add_comm]
      · simp

/-- The offsets of an ended loop, by where they are. -/
theorem ncard_files {ps : List Int} (h : trail (nextAt tar) n 0 = some ps) :
    (filesBefore tar).ncard + (filesFrom tar).ncard = ps.countP (isFile tar) := by
  have hnodup := nodup_trail h
  have hcard : ∀ P : Int → Bool,
      {p | Reached tar p ∧ P p = true}.ncard = (ps.filter P).length := by
    intro P
    have hset : {p | Reached tar p ∧ P p = true} = ↑(ps.filter P).toFinset := by
      ext p
      simp [mem_trail h, Reached]
    rw [hset, Set.ncard_coe_finset, List.toFinset_card_of_nodup (hnodup.filter P)]
  have hbefore := hcard fun p => decide (p < 0) && isFile tar p
  have hfrom := hcard fun p => decide (0 ≤ p) && isFile tar p
  simp only [Bool.and_eq_true, decide_eq_true_eq] at hbefore hfrom
  rw [filesBefore, filesFrom, hbefore, hfrom, ← List.countP_eq_length_filter,
    ← List.countP_eq_length_filter]
  clear hcard hbefore hfrom hnodup h
  induction ps with
  | nil => rfl
  | cons p ps ih =>
    rw [List.countP_cons, List.countP_cons, List.countP_cons, ← ih]
    by_cases hp : p < 0
    · have hnot : ¬ 0 ≤ p := Int.not_le.mpr hp
      simp [hp, hnot]
      omega
    · have hle : 0 ≤ p := Int.not_lt.mp hp
      simp [hp, hle]
      omega

/-! ## Where headers are -/

/-- Before the buffer has been counted back once there is nothing to read. -/
theorem headerAt_bounds {h : Header} (hh : headerAt tar p = some h) :
    -(tar.length : Int) - block ≤ p ∧ p + block ≤ tar.length := by
  unfold headerAt at hh
  split at hh
  · rename_i hle
    refine ⟨?_, hle⟩
    rw [← Int.not_lt]
    intro hlt
    have hlast : clamp tar.length (p + block) = 0 := by
      unfold clamp
      split <;> omega
    rw [subarray, hlast, List.take_zero, List.drop_nil] at hh
    cases hh
  · cases hh

theorem nextAt_bounds (h : nextAt tar p ≠ none) :
    -(tar.length : Int) - block ≤ p ∧ p ≤ tar.length := by
  cases hheader : headerAt tar p with
  | none => exact absurd (by rw [nextAt, hheader]; rfl) h
  | some header =>
    obtain ⟨hlow, hhigh⟩ := headerAt_bounds hheader
    exact ⟨hlow, by omega⟩

theorem header_of_isFile (h : isFile tar p = true) : ∃ header, headerAt tar p = some header := by
  unfold isFile at h
  cases hheader : headerAt tar p with
  | none =>
    rw [hheader] at h
    cases h
  | some header => exact ⟨header, rfl⟩

theorem dvd_of_reached (h : Reached tar p) : (block : Int) ∣ p := by
  induction h with
  | refl => exact Int.dvd_zero _
  | tail _ hstep ih =>
    obtain ⟨header, _, hsize⟩ := Option.bind_eq_some_iff.mp hstep
    obtain ⟨size, _, rfl⟩ := Option.map_eq_some_iff.mp hsize
    exact Int.dvd_add (Int.dvd_add ih (Int.dvd_refl _)) (Int.dvd_mul_left _ _)

/-- From the start on, each file has a block of its own. -/
theorem ncard_filesFrom_le (tar : List UInt8) : (filesFrom tar).ncard ≤ tar.length / block := by
  have hmaps : ∀ p ∈ filesFrom tar,
      (p / block).toNat ∈ (Finset.range (tar.length / block) : Set ℕ) := by
    rintro p ⟨_, hpos, hfile⟩
    obtain ⟨h, hh⟩ := header_of_isFile hfile
    have hhigh := (headerAt_bounds hh).2
    rw [Finset.mem_coe, Finset.mem_range]
    unfold block at *
    omega
  have hinj : Set.InjOn (fun p : Int => (p / block).toNat) (filesFrom tar) := by
    rintro p ⟨hp, hpos, _⟩ q ⟨hq, hqpos, _⟩ heq
    have hpdvd := dvd_of_reached hp
    have hqdvd := dvd_of_reached hq
    unfold block at *
    simp only at heq
    omega
  have hle := Set.ncard_le_ncard_of_injOn _ hmaps hinj (Finset.finite_toSet _)
  rw [Set.ncard_coe_finset, Finset.card_range] at hle
  exact hle

/-! ## The result -/

theorem exists_untars_iff (tar : List UInt8) : (∃ entries, Untars tar entries) ↔ NoReturn tar := by
  constructor
  · rintro ⟨entries, n, hloop⟩
    rw [untarLoop_eq] at hloop
    obtain ⟨ps, hps, rfl⟩ := Option.map_eq_some_iff.mp hloop
    exact fun p hp => acyclic_of_trail hps hp
  · intro hreturn
    obtain ⟨n, ps, hps⟩ := exists_trail (Finset.Icc (-(tar.length : Int) - block) tar.length)
      (fun p _ hnext => Finset.mem_Icc.mpr (nextAt_bounds hnext)) hreturn
    refine ⟨ps.flatMap (filesAt tar), n, ?_⟩
    rw [untarLoop_eq, hps]
    rfl

/-- The reader returns, with no more files than the buffer has blocks, exactly if the size fields
never lead back to an offset, and the files at negative offsets are no more than the blocks that
hold no file header read from the front. -/
theorem untar_ends_iff (tar : List UInt8) :
    (∃ entries, Untars tar entries ∧ entries.length ≤ tar.length / block) ↔
      NoReturn tar ∧ (filesBefore tar).ncard ≤ tar.length / block - (filesFrom tar).ncard := by
  have hfrom := ncard_filesFrom_le tar
  have hcount : ∀ entries, Untars tar entries →
      entries.length = (filesBefore tar).ncard + (filesFrom tar).ncard := by
    rintro entries ⟨n, hloop⟩
    rw [untarLoop_eq] at hloop
    obtain ⟨ps, hps, rfl⟩ := Option.map_eq_some_iff.mp hloop
    rw [length_flatMap_filesAt, ncard_files hps]
  rw [← exists_untars_iff]
  constructor
  · rintro ⟨entries, hentries, hlength⟩
    have hlen := hcount entries hentries
    exact ⟨⟨entries, hentries⟩, by omega⟩
  · rintro ⟨⟨entries, hentries⟩, hbefore⟩
    have hlen := hcount entries hentries
    exact ⟨entries, hentries, by omega⟩

theorem le_nextAt {h : Header} {size : Int} (hh : headerAt tar p = some h)
    (hsize : h.size = some size) (hsmall : -block < size) (hnext : nextAt tar p = some q) :
    p < q := by
  rw [nextAt, hh, Option.bind_some, hsize, Option.map_some] at hnext
  cases hnext
  unfold roundUp block at *
  omega

/-- Without a size of −512 or less on the way, the reader ends. -/
theorem untar_ends_of_sizes (h : ∀ p header size, Reached tar p → headerAt tar p = some header →
    header.size = some size → -block < size) :
    NoReturn tar ∧ (filesBefore tar).ncard = 0 := by
  have hless : ∀ p q, Reached tar p → nextAt tar p = some q → p < q := by
    intro p q hp hnext
    obtain ⟨header, hheader, hsome⟩ := Option.bind_eq_some_iff.mp hnext
    obtain ⟨size, hsize, _⟩ := Option.map_eq_some_iff.mp hsome
    exact le_nextAt hheader hsize (h p header size hp hheader hsize) hnext
  constructor
  · intro p hp hcycle
    have hlt : ∀ q, Relation.TransGen (Leads (nextAt tar)) p q → p < q := by
      intro q hq
      induction hq with
      | single hstep => exact hless _ _ hp hstep
      | tail hpath hstep ih =>
        exact Int.lt_trans ih (hless _ _ (hp.trans hpath.to_reflTransGen) hstep)
    exact Int.lt_irrefl p (hlt p hcycle)
  · have hpos : ∀ p, Reached tar p → 0 ≤ p := by
      intro p hp
      induction hp with
      | refl => exact Int.le_refl 0
      | tail hpath hstep ih => exact Int.le_of_lt (Int.lt_of_le_of_lt ih (hless _ _ hpath hstep))
    have hempty : filesBefore tar = ∅ := by
      ext p
      constructor
      · rintro ⟨hp, hlt, _⟩
        exact absurd (hpos p hp) (Int.not_le.mpr hlt)
      · intro hfalse
        cases hfalse
    rw [hempty, Set.ncard_empty]

/-- A header whose size is −512 bytes, in octal. -/
def backwards : List UInt8 :=
  List.replicate 124 97 ++ ascii ['-', '1', '0', '0', '0'] ++ List.replicate 27 0 ++ ascii ['0'] ++
    List.replicate 355 0

theorem headerAt_backwards : (headerAt backwards 0).bind Header.size = some (-512) := by
  decide +kernel

/-- The loop stays where it is. -/
theorem untarLoop_backwards (n : ℕ) : untarLoop backwards n 0 = none := by
  obtain ⟨h, hh, hsize⟩ := Option.bind_eq_some_iff.mp headerAt_backwards
  induction n with
  | zero => rfl
  | succ n ih =>
    have hback : (0 : Int) + block + roundUp (-512) = 0 := by decide
    simp only [untarLoop, hh, hsize, hback, ih, Option.map_none]

/-- The loop stays where it is, and adds an entry in each turn. -/
theorem untar_backwards_endless :
    ¬ ∃ entries, Untars backwards entries ∧ entries.length ≤ backwards.length / block := by
  rintro ⟨entries, ⟨n, hloop⟩, _⟩
  rw [untarLoop_backwards n] at hloop
  cases hloop

end ServerlessHarness.ConfigBundle
