import ServerlessHarness.Model.ConfigBundle.Tar

/-!
# What was packed is read back

`untarLoop` on an archive that `canonicalTar` made returns its files in their order, each with its
content and mode, and with the part of its path before the first NUL of either field
(`untars_canonicalTar`): the fields of a header end at a NUL, which a path may hold.
-/

set_option autoImplicit false

namespace ServerlessHarness.ConfigBundle

open Library

/-! ## Fields -/

/-- What stands before the first NUL. -/
def untilNul (cs : List Char) : List Char := cs.takeWhile (· ≠ '\x00')

variable {len n s : ℕ} {c : Char} {cs path : List Char} {entry : TarEntry}
  {entries : List TarEntry}

theorem zero_mem_utf8EncodeChar (h : c ≠ '\x00') : ∀ b ∈ String.utf8EncodeChar c, b ≠ 0 := by
  have hpos : c.val.toNat ≠ 0 := by
    intro hzero
    apply h
    apply Char.ext
    exact UInt32.toNat.inj hzero
  have hofNat : ∀ n : ℕ, 0 < n → n < 256 → UInt8.ofNat n ≠ 0 := by
    intro n hn hlt heq
    have hnat := congrArg UInt8.toNat heq
    rw [UInt8.toNat_ofNat', Nat.mod_eq_of_lt hlt] at hnat
    exact Nat.ne_of_gt hn hnat
  intro b hb
  unfold String.utf8EncodeChar at hb
  simp only at hb
  split at hb
  · rename_i hle
    rw [List.mem_singleton.mp hb]
    exact hofNat _ (by omega) (by omega)
  · split at hb
    · simp only [List.mem_cons, List.not_mem_nil, or_false] at hb
      rcases hb with rfl | rfl
      · exact hofNat _ (by omega) (by omega)
      · exact hofNat _ (by omega) (by omega)
    · split at hb
      · simp only [List.mem_cons, List.not_mem_nil, or_false] at hb
        rcases hb with rfl | rfl | rfl
        · exact hofNat _ (by omega) (by omega)
        · exact hofNat _ (by omega) (by omega)
        · exact hofNat _ (by omega) (by omega)
      · simp only [List.mem_cons, List.not_mem_nil, or_false] at hb
        rcases hb with rfl | rfl | rfl | rfl
        · exact hofNat _ (by omega) (by omega)
        · exact hofNat _ (by omega) (by omega)
        · exact hofNat _ (by omega) (by omega)
        · exact hofNat _ (by omega) (by omega)

/-- The bytes before the first zero are those of the characters before the first NUL. -/
theorem takeWhile_utf8 (cs : List Char) : (utf8 cs).takeWhile (· ≠ 0) = utf8 (untilNul cs) := by
  induction cs with
  | nil => rfl
  | cons c cs ih =>
    by_cases hc : c = '\x00'
    · subst hc
      rw [untilNul, List.takeWhile_cons_of_neg (by simp), utf8_cons]
      rfl
    · rw [untilNul, List.takeWhile_cons_of_pos (by simp [hc]), utf8_cons, utf8_cons,
        List.takeWhile_append_of_pos, ih, untilNul]
      intro b hb
      simpa using zero_mem_utf8EncodeChar hc b hb

theorem takeWhile_append_zeros (bytes : List UInt8) (k : ℕ) :
    (bytes ++ List.replicate k 0).takeWhile (· ≠ 0) = bytes.takeWhile (· ≠ 0) := by
  induction bytes with
  | nil =>
    cases k <;> rfl
  | cons b bytes ih =>
    rw [List.cons_append, List.takeWhile_cons, List.takeWhile_cons, ih]

theorem length_field {bytes : List UInt8} : (field len bytes).length = len := by
  rw [field, List.length_append, List.length_take, List.length_replicate]
  omega

theorem field_eq {bytes : List UInt8} (h : bytes.length ≤ len) :
    field len bytes = bytes ++ List.replicate (len - bytes.length) 0 := by
  rw [field, List.take_of_length_le h]

theorem length_octal : (octal n len).length = len := by
  rw [octal, List.length_take, List.length_append, ascii, List.length_map, padStart,
    List.length_append, List.length_replicate, List.length_singleton]
  omega

/-- A field of a list that is a concatenation. -/
theorem slice_append {α : Type} {a b c : List α} (ha : a.length = s) (hb : b.length = n) :
    ((a ++ (b ++ c)).drop s).take n = b := by
  rw [List.drop_left' ha, List.take_left' hb]

/-! ## Numbers -/

theorem octalDigit_digitChar (h : n < 8) :
    isOctalDigit n.digitChar = true := by
  revert n
  decide

theorem octalDigit_of_mem_toDigits (h : c ∈ Nat.toDigits 8 n) :
    isOctalDigit c = true := by
  induction n using Nat.strongRecOn with
  | ind n ih =>
    rw [Nat.toDigits_eq_if (by decide)] at h
    split at h
    · rename_i hlt
      rw [List.mem_singleton.mp h]
      exact octalDigit_digitChar hlt
    · rcases List.mem_append.mp h with h | h
      · exact ih (n / 8) (by omega) h
      · rw [List.mem_singleton.mp h]
        exact octalDigit_digitChar (Nat.mod_lt n (by decide))

theorem octalDigit_of_mem_padStart (h : c ∈ padStart len '0' (Nat.toDigits 8 n)) :
    isOctalDigit c = true := by
  rcases List.mem_append.mp h with h | h
  · rw [List.eq_of_mem_replicate h]
    decide
  · exact octalDigit_of_mem_toDigits h

theorem toNat_of_octalDigit (h : isOctalDigit c = true) : 48 ≤ c.toNat ∧ c.toNat ≤ 55 := by
  rw [isOctalDigit, Bool.and_eq_true, decide_eq_true_eq, decide_eq_true_eq] at h
  exact ⟨h.1, h.2⟩

theorem not_whiteSpace_of_octalDigit (h : isOctalDigit c = true) :
    isWhiteSpace c.toNat = false := by
  obtain ⟨hlow, hhigh⟩ := toNat_of_octalDigit h
  unfold isWhiteSpace
  simp
  omega

theorem trimEnds_eq_self (h : ∀ c ∈ cs, isWhiteSpace c.toNat = false) :
    trimEnds (isWhiteSpace ·.toNat) cs = cs := by
  have hdrop : cs.dropWhile (isWhiteSpace ·.toNat) = cs := by
    cases cs with
    | nil => rfl
    | cons c cs => rw [List.dropWhile_cons_of_neg (by simp [h c List.mem_cons_self])]
  rw [trimEnds, hdrop, List.rdropWhile_eq_self_iff]
  intro hne
  rw [h _ (List.getLast_mem hne)]
  exact Bool.false_ne_true

theorem parseOctal_padStart (len n : ℕ) :
    parseOctal (padStart len '0' (Nat.toDigits 8 n)) = some (n : Int) := by
  have hdigit : ∀ c ∈ padStart len '0' (Nat.toDigits 8 n), isOctalDigit c = true :=
    fun c hc => octalDigit_of_mem_padStart hc
  have hvalue : Nat.ofDigitChars 8 (padStart len '0' (Nat.toDigits 8 n)) 0 = n := by
    rw [padStart, Nat.ofDigitChars_append, Nat.ofDigitChars_replicate_zero, Nat.mul_zero,
      Nat.ofDigitChars_toDigits (by decide) (by decide)]
  have hne : padStart len '0' (Nat.toDigits 8 n) ≠ [] := by
    rw [padStart]
    exact List.append_ne_nil_of_right_ne_nil _ Nat.toDigits_ne_nil
  generalize padStart len '0' (Nat.toDigits 8 n) = cs at hdigit hvalue hne
  have hsign : ∀ c, isOctalDigit c = false → cs.head? ≠ some c := by
    intro c hc hhead
    rw [hdigit c (List.mem_of_mem_head? hhead)] at hc
    cases hc
  have hminus := hsign '-' (by decide)
  have hplus := hsign '+' (by decide)
  have htake : cs.takeWhile isOctalDigit = cs := List.takeWhile_eq_self_iff.mpr hdigit
  unfold parseOctal
  rw [trimEnds_eq_self fun c hc => not_whiteSpace_of_octalDigit (hdigit c hc)]
  simp only [hne, hminus, hplus, or_self, if_false, htake, hvalue]

/-! ## Headers -/

theorem ascii_eq_utf8 (h : ∀ c ∈ cs, c.toNat < 128) : ascii cs = utf8 cs := by
  induction cs with
  | nil => rfl
  | cons c cs ih =>
    have hc : c.val.toNat ≤ 127 := Nat.le_of_lt_succ (h c List.mem_cons_self)
    have hbyte : String.utf8EncodeChar c = [UInt8.ofNat c.toNat] := by
      unfold String.utf8EncodeChar
      exact if_pos hc
    rw [utf8_cons, hbyte, ← ih fun d hd => h d (List.mem_cons_of_mem c hd)]
    rfl

theorem untilNul_eq_self (h : '\x00' ∉ cs) : untilNul cs = cs := by
  rw [untilNul, List.takeWhile_eq_self_iff]
  intro c hc
  simp only [ne_eq, decide_eq_true_eq]
  rintro rfl
  exact h hc

theorem cstr_field {h : List UInt8} (hslice : (h.drop s).take len = field len (utf8 cs))
    (hfit : byteLength cs ≤ len) :
    cstr h s len = untilNul cs := by
  rw [cstr, hslice, field_eq hfit, takeWhile_append_zeros, takeWhile_utf8, decodeText_utf8]

theorem octal_eq (hfit : (Nat.toDigits 8 n).length < len) :
    octal n len = utf8 (padStart (len - 1) '0' (Nat.toDigits 8 n)) ++ List.replicate 1 0 := by
  have hascii : ascii (padStart (len - 1) '0' (Nat.toDigits 8 n)) =
      utf8 (padStart (len - 1) '0' (Nat.toDigits 8 n)) := by
    apply ascii_eq_utf8
    intro c hc
    have := (toNat_of_octalDigit (octalDigit_of_mem_padStart hc)).2
    omega
  rw [octal, ← hascii]
  apply List.take_of_length_le
  rw [List.length_append, ascii, List.length_map, padStart, List.length_append,
    List.length_replicate, List.length_singleton]
  omega

theorem cstr_octal {h : List UInt8} (hslice : (h.drop s).take len = octal n len)
    (hfit : (Nat.toDigits 8 n).length < len) :
    cstr h s len = padStart (len - 1) '0' (Nat.toDigits 8 n) := by
  rw [cstr, hslice, octal_eq hfit, takeWhile_append_zeros, takeWhile_utf8, decodeText_utf8]
  apply untilNul_eq_self
  intro hmem
  have hdigit := octalDigit_of_mem_padStart hmem
  revert hdigit
  decide

theorem length_checksum (sum : ℕ) :
    ((ascii (padStart 6 '0' (Nat.toDigits 8 sum)) ++ [0, 32]).take 8).length = 8 := by
  rw [List.length_take, List.length_append, ascii, List.length_map, padStart, List.length_append,
    List.length_replicate]
  simp only [List.length_cons, List.length_nil]
  omega

section Header

variable {name lead : List Char} {size mode : ℕ} {checksum : List UInt8}

theorem length_headerWith (h : checksum.length = 8) :
    (headerWith name lead size mode checksum).length = block := by
  simp only [headerWith, List.length_append, length_field, length_octal, h, List.length_replicate,
    ascii, List.length_map, List.length_cons, List.length_nil]
  rfl

theorem length_header : (header name lead size mode).length = block :=
  length_headerWith (length_checksum _)

/-- A header says that it is one of a regular file. -/
theorem type_headerWith (h : checksum.length = 8) :
    (headerWith name lead size mode checksum)[156]? = some 48 := by
  rw [headerWith]
  iterate 6 rw [← List.append_assoc]
  have hlength : ((((((field 100 (utf8 name) ++ octal mode 8) ++ octal 0 8) ++ octal 0 8) ++
      octal size 12) ++ octal 0 12) ++ checksum).length = 156 := by
    simp only [List.length_append, length_field, length_octal, h]
  rw [List.getElem?_append_right (Nat.le_of_eq hlength), hlength]
  rfl

/-- The path of the two fields of a header. -/
def joinPath (name lead : List Char) : List Char :=
  if lead = [] then name else lead ++ '/' :: name

/-- INTERNAL: **a header is read back**. -/
theorem readHeader_header (hname : byteLength name ≤ 100) (hlead : byteLength lead ≤ 155)
    (hsize : size < 8589934592) (hmode : mode < 2097152) :
    readHeader (header name lead size mode) =
      ⟨String.ofList (joinPath (untilNul name) (untilNul lead)), some (mode : Int),
        some (size : Int), true⟩ := by
  have hchecksum := length_checksum
    (byteSum (headerWith name lead size mode (List.replicate 8 32)))
  rw [header]
  generalize ((ascii (padStart 6 '0' (Nat.toDigits 8 (byteSum
    (headerWith name lead size mode (List.replicate 8 32))))) ++ [0, 32]).take 8) = checksum
    at hchecksum
  have hnameField : cstr (headerWith name lead size mode checksum) 0 100 = untilNul name := by
    apply cstr_field _ hname
    rw [headerWith, List.drop_zero, List.take_left' length_field]
  have hmodeField : cstr (headerWith name lead size mode checksum) 100 8 =
      padStart 7 '0' (Nat.toDigits 8 mode) := by
    apply cstr_octal (slice_append length_field length_octal)
    have hdigits := (Nat.length_toDigits_le_iff (b := 8) (n := mode) (k := 7) (by decide)
      (by decide)).mpr hmode
    omega
  have hsizeField : cstr (headerWith name lead size mode checksum) 124 12 =
      padStart 11 '0' (Nat.toDigits 8 size) := by
    have hdigits := (Nat.length_toDigits_le_iff (b := 8) (n := size) (k := 11) (by decide)
      (by decide)).mpr hsize
    apply cstr_octal _ (by omega)
    rw [headerWith, ← List.append_assoc, ← List.append_assoc, ← List.append_assoc]
    apply slice_append _ length_octal
    simp only [List.length_append, length_field, length_octal]
  have hleadField : cstr (headerWith name lead size mode checksum) 345 155 = untilNul lead := by
    apply cstr_field _ hlead
    rw [headerWith]
    iterate 11 rw [← List.append_assoc]
    apply slice_append _ length_field
    simp only [List.length_append, length_field, length_octal, hchecksum, List.length_replicate,
      ascii, List.length_map, List.length_cons, List.length_nil]
  unfold readHeader
  simp only [hnameField, hmodeField, hsizeField, hleadField, type_headerWith hchecksum,
    parseOctal_padStart, joinPath]
  rfl

end Header

/-! ## Paths -/

theorem append_of_mem_cuts {cut : List Char × List Char} (h : cut ∈ cuts path) :
    path = cut.1 ++ '/' :: cut.2 := by
  induction path generalizing cut with
  | nil => cases h
  | cons c cs ih =>
    rw [cuts, List.mem_append] at h
    rcases h with h | h
    · split at h
      · rename_i hc
        rw [List.mem_singleton.mp h, hc]
        rfl
      · cases h
    · obtain ⟨rest, hrest, rfl⟩ := List.mem_map.mp h
      rw [ih hrest]
      rfl

/-- What the two fields of a path hold. -/
theorem splitUstarPath_spec {name lead : List Char} (h : splitUstarPath path = some (name, lead)) :
    byteLength name ≤ 100 ∧ byteLength lead ≤ 155 ∧
      (lead = [] ∧ name = path ∨ path = lead ++ '/' :: name) := by
  unfold splitUstarPath at h
  split at h
  · rename_i hshort
    cases h
    exact ⟨hshort, Nat.zero_le _, Or.inl ⟨rfl, rfl⟩⟩
  · obtain ⟨cut, hfind, hswap⟩ := Option.map_eq_some_iff.mp h
    obtain ⟨hlead, hname⟩ : byteLength cut.1 ≤ 155 ∧ byteLength cut.2 ≤ 100 := by
      simpa using List.find?_some hfind
    cases hswap
    exact ⟨hname, hlead, Or.inr (append_of_mem_cuts (List.mem_of_find?_eq_some hfind))⟩

/-- The path that a reader gets. -/
def readPath (path : List Char) : List Char :=
  match splitUstarPath path with
  | none => path
  | some (name, lead) => joinPath (untilNul name) (untilNul lead)

/-- A relative path without a NUL comes back as it was. -/
theorem readPath_eq_self (hnul : '\x00' ∉ path) (hroot : path.head? ≠ some '/') :
    readPath path = path := by
  unfold readPath
  cases hsplit : splitUstarPath path with
  | none => rfl
  | some parts =>
    obtain ⟨name, lead⟩ := parts
    show joinPath (untilNul name) (untilNul lead) = path
    obtain ⟨_, _, ⟨rfl, rfl⟩ | rfl⟩ := splitUstarPath_spec hsplit
    · rw [untilNul_eq_self hnul]
      rfl
    · rw [List.mem_append, List.mem_cons, not_or, not_or] at hnul
      rw [untilNul_eq_self hnul.1, untilNul_eq_self hnul.2.2]
      cases lead with
      | nil => exact absurd rfl hroot
      | cons c lead => rfl

/-! ## Archives -/

theorem subarray_append (a b c : List UInt8) :
    subarray (a ++ (b ++ c)) a.length (a.length + b.length) = b := by
  have hfirst : clamp (a ++ (b ++ c)).length a.length = a.length := by
    unfold clamp
    rw [if_neg (by omega), List.length_append]
    omega
  have hlast : clamp (a ++ (b ++ c)).length (a.length + b.length) = a.length + b.length := by
    unfold clamp
    rw [if_neg (by omega), List.length_append, List.length_append]
    omega
  rw [subarray, hfirst, hlast, ← List.append_assoc, List.take_left' (List.length_append ..),
    List.drop_left' rfl]

theorem add_roundUp (n : ℕ) : (n : Int) + (padding n).length = roundUp n := by
  rw [padding, List.length_replicate, roundUp]
  unfold block
  omega

/-- A file as a reader gets it. -/
def readBack (entry : TarEntry) : TarEntry :=
  ⟨String.ofList (readPath entry.path.toList), entry.content, some (some (modeOf entry))⟩

/-- The runtime has no buffer of 2³³ bytes. -/
def Fits (entry : TarEntry) : Prop := entry.content.length < 8589934592

theorem modeOf_lt (entry : TarEntry) : modeOf entry < 2097152 := by
  unfold modeOf
  omega

theorem headerAt_zeros (start : List UInt8) : headerAt (start ++ List.replicate (block * 2) 0)
    start.length = none := by
  have hblock := subarray_append start (List.replicate block 0) (List.replicate block 0)
  rw [List.replicate_append_replicate, List.length_replicate, ← Nat.mul_two] at hblock
  rw [headerAt, hblock]
  split
  · simp
  · rfl

/-- The header of a packed file. -/
theorem headerAt_packed {name lead : List Char} (start rest : List UInt8)
    (hsplit : splitUstarPath entry.path.toList = some (name, lead)) (hfits : Fits entry) :
    headerAt (start ++ (header name lead entry.content.length (modeOf entry) ++ rest))
      start.length =
      some ⟨(readBack entry).path, some (modeOf entry : Int), some (entry.content.length : Int),
        true⟩ := by
  obtain ⟨hname, hlead, _⟩ := splitUstarPath_spec hsplit
  have hread := readHeader_header hname hlead hfits (modeOf_lt entry)
  have hpath : (readBack entry).path =
      String.ofList (joinPath (untilNul name) (untilNul lead)) := by
    rw [readBack, readPath, hsplit]
  generalize hheader : header name lead entry.content.length (modeOf entry) = h at hread
  have hlength : h.length = block := by
    rw [← hheader]
    exact length_header
  have hblock := subarray_append start h rest
  rw [hlength] at hblock
  rw [headerAt, hblock, if_pos (by rw [List.length_append, List.length_append, hlength]; omega)]
  have hzero : h.all (· = 0) = false := by
    have htype : h[156]? = some 48 := by
      rw [← hheader]
      exact type_headerWith (length_checksum _)
    rw [List.all_eq_false]
    exact ⟨48, List.mem_of_getElem? htype, by decide⟩
  simp only [hzero, hread, hpath, Bool.false_eq_true, if_false]

theorem pack_eq_ok {part : List UInt8} (h : pack entry = .ok part) :
    ∃ name lead, splitUstarPath entry.path.toList = some (name, lead) ∧
      part = header name lead entry.content.length (modeOf entry) ++
        (entry.content ++ padding entry.content.length) := by
  unfold pack at h
  cases hsplit : splitUstarPath entry.path.toList with
  | none =>
    rw [hsplit] at h
    cases h
  | some names =>
    rw [hsplit] at h
    cases h
    exact ⟨names.1, names.2, rfl, rfl⟩

theorem mapM_pack_cons {parts : List (List UInt8)} (h : (entry :: entries).mapM pack = .ok parts) :
    ∃ part rest, pack entry = .ok part ∧ entries.mapM pack = .ok rest ∧ parts = part :: rest := by
  rw [List.mapM_cons] at h
  cases hentry : pack entry with
  | error e =>
    rw [hentry] at h
    cases h
  | ok part =>
    cases hrest : entries.mapM pack with
    | error e =>
      rw [hentry, hrest] at h
      cases h
    | ok rest =>
      rw [hentry, hrest] at h
      cases h
      exact ⟨part, rest, rfl, rfl, rfl⟩

/-- One turn of the loop, at a packed file. -/
theorem untarLoop_part {part : List UInt8} (start rest : List UInt8) (n : ℕ)
    (hpart : pack entry = .ok part) (hfits : Fits entry) :
    untarLoop (start ++ (part ++ rest)) (n + 1) start.length =
      (untarLoop (start ++ (part ++ rest)) n (start ++ part).length).map (readBack entry :: ·) := by
  obtain ⟨name, lead, hsplit, rfl⟩ := pack_eq_ok hpart
  have hheader := headerAt_packed start (entry.content ++ padding entry.content.length ++ rest)
    hsplit hfits
  generalize hh : header name lead entry.content.length (modeOf entry) = h at hheader ⊢
  have hlength : h.length = block := by
    rw [← hh]
    exact length_header
  have hnext : (start.length : Int) + block + roundUp entry.content.length =
      (start ++ (h ++ (entry.content ++ padding entry.content.length))).length := by
    rw [← add_roundUp, List.length_append, List.length_append, List.length_append, hlength]
    omega
  have hcontent := subarray_append (start ++ h) entry.content
    (padding entry.content.length ++ rest)
  rw [List.length_append, hlength, Int.natCast_add] at hcontent
  simp only [List.append_assoc] at hheader hcontent ⊢
  rw [untarLoop, hheader]
  simp only [hnext]
  rw [entriesOf]
  simp only [Option.map_some, Option.getD_some, hcontent, if_true]
  rfl

theorem untarLoop_packed {parts : List (List UInt8)} (hpack : entries.mapM pack = .ok parts)
    (hfits : ∀ entry ∈ entries, Fits entry) (start : List UInt8) :
    untarLoop (start ++ (parts.flatten ++ List.replicate (block * 2) 0)) (entries.length + 1)
      start.length = some (entries.map readBack) := by
  induction entries generalizing parts start with
  | nil =>
    cases hpack
    show untarLoop (start ++ List.replicate (block * 2) 0) 1 start.length = some []
    rw [untarLoop, headerAt_zeros]
  | cons entry entries ih =>
    obtain ⟨part, rest, hpart, hrest, rfl⟩ := mapM_pack_cons hpack
    have hturn := untarLoop_part start (rest.flatten ++ List.replicate (block * 2) 0)
      (entries.length + 1) hpart (hfits entry List.mem_cons_self)
    have htail := ih hrest (fun e he => hfits e (List.mem_cons_of_mem entry he)) (start ++ part)
    rw [List.append_assoc] at htail
    rw [List.flatten_cons, List.append_assoc, List.length_cons, hturn, htail]
    rfl

/-- INTERNAL: **what was packed is read back**. -/
theorem untars_canonicalTar {tar : List UInt8} (htar : canonicalTar entries = .ok tar)
    (hfits : ∀ entry ∈ entries, Fits entry) :
    Untars tar ((sortEntries entries).map readBack) := by
  unfold canonicalTar at htar
  cases hparts : (sortEntries entries).mapM pack with
  | error e =>
    rw [hparts] at htar
    cases htar
  | ok parts =>
    rw [hparts] at htar
    cases htar
    refine ⟨_, untarLoop_packed hparts ?_ []⟩
    intro entry hentry
    exact hfits entry ((List.perm_insertionSort _ entries).mem_iff.mp hentry)

end ServerlessHarness.ConfigBundle
