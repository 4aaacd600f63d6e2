import ServerlessHarness.Library.Scan
import ServerlessHarness.Model.ControlPlane.Envelope

/-!
# Rotation and relabelling

The bound data determine the subject and the name, since a valid name has no separator
(`credentialAad_inj`). So a sealed value opens for its own subject and name only, under every ring
that holds its key.
-/

set_option autoImplicit false

namespace ServerlessHarness.ControlPlane

open Library

variable {c : Cipher} {keks ring : List Kek}
  {subject name subject' name' plaintext sealedValue : String}

/-! ## The wire form -/

theorem toNat_ofNat_byte (b : UInt8) : (Char.ofNat b.toNat).toNat = b.toNat := by
  have hlt := b.toNat_lt
  have hvalid : b.toNat.isValidChar := .inl (by omega)
  rw [Char.ofNat, dif_pos hvalid]
  rfl

theorem dot_notMem_urlText (bytes : List UInt8) : '.' ∉ urlText bytes := by
  intro hdot
  obtain ⟨b, hb, heq⟩ := List.mem_map.mp hdot
  have hdotted : b = 46 := by
    have hn := congrArg Char.toNat heq
    rw [toNat_ofNat_byte] at hn
    exact UInt8.toNat_inj.mp hn
  exact sextet_of_mem_base64url hb (by rw [hdotted]; rfl)

theorem urlBytes_urlText (bytes : List UInt8) : urlBytes (urlText bytes) = bytes := by
  have hunits : ∀ b : UInt8, (charUnits (Char.ofNat b.toNat)).map UInt16.toUInt8 = [b] := by
    intro b
    have hlt := b.toNat_lt
    rw [charUnits, toNat_ofNat_byte, if_pos (by omega), List.map_singleton]
    refine congrArg (fun x => [x]) (UInt8.toNat_inj.mp ?_)
    rw [UInt16.toNat_toUInt8, UInt16.toNat_ofNat']
    omega
  rw [urlBytes, urlText, ofChars, List.map_flatMap, List.flatMap_map]
  simp only [hunits]
  rw [List.flatMap_singleton', unbase64_base64url]

/-- What `openCredential` tries with each key. -/
def attempt (c : Cipher) (iv aad ct tag : List UInt8) (e : Kek × ℕ) : Option Opened :=
  (c.decrypt e.1 iv aad ct tag).map fun plain => ⟨String.ofList (decodeText plain), e.2⟩

/-- INTERNAL: **opening what was sealed** tries the keys on the very parts that the cipher made. -/
theorem open_sealed {k : Kek} (hk : keks.head? = some k) (iv : List UInt8)
    (h : sealCredential c keks iv subject name plaintext = .ok sealedValue) :
    ∃ ct tag, (ct, tag) = c.encrypt k iv (credentialAad subject name) (utf8 plaintext.toList) ∧
      ∀ ring subject' name', openCredential c ring subject' name' sealedValue =
        match ring.zipIdx.findSome? (attempt c iv (credentialAad subject' name') ct tag) with
        | some opened => .ok opened
        | none => .error ("failed to decrypt credential '" ++ name' ++ "'") := by
  refine ⟨_, _, rfl, ?_⟩
  intro ring subject' name'
  simp only [sealCredential, hk] at h
  cases h
  have hparts : ∀ l ∈ ["v1".toList, urlText iv,
      urlText (c.encrypt k iv (credentialAad subject name) (utf8 plaintext.toList)).2,
      urlText (c.encrypt k iv (credentialAad subject name) (utf8 plaintext.toList)).1],
        '.' ∉ l := by
    intro l hl
    simp only [List.mem_cons, List.not_mem_nil, or_false] at hl
    rcases hl with rfl | rfl | rfl | rfl
    · decide
    · exact dot_notMem_urlText _
    · exact dot_notMem_urlText _
    · exact dot_notMem_urlText _
  unfold openCredential
  rw [String.toList_ofList, List.splitOn_intercalate '.' hparts (List.cons_ne_nil _ _)]
  simp only [ne_eq, not_true_eq_false, if_false, urlBytes_urlText]
  rfl

/-! ## The bound data -/

theorem separator_notMem (h : credentialNameRe name = true) : '|' ∉ name.toList := by
  intro hmem
  simp only [credentialNameRe, Bool.and_eq_true, List.all_eq_true] at h
  exact absurd (h.1.1.2 '|' hmem) (by decide)

/-- INTERNAL: **the last separator splits the bound data.** -/
theorem credentialAad_inj (hname : credentialNameRe name = true)
    (hname' : credentialNameRe name' = true)
    (h : credentialAad subject' name' = credentialAad subject name) : subject' = subject ∧
      name' = name := by
  have htext := congrArg decodeText h
  rw [credentialAad, credentialAad, decodeText_utf8, decodeText_utf8] at htext
  -- Read backwards, the name is what comes before the first separator.
  have hrev := congrArg List.reverse htext
  simp only [List.reverse_append, List.reverse_cons, List.append_assoc,
    List.singleton_append] at hrev
  have hsplit : ∀ subject name : String, credentialNameRe name = true →
      (name.toList.reverse ++ '|' :: subject.toList.reverse).takeWhile (· ≠ '|') =
        name.toList.reverse ∧
      (name.toList.reverse ++ '|' :: subject.toList.reverse).dropWhile (· ≠ '|') =
        '|' :: subject.toList.reverse := by
    intro subject name hvalid
    refine takeWhile_append_cons ?_ (by simp) _
    intro x hx
    have hne : x ≠ '|' := by
      rintro rfl
      exact separator_notMem hvalid (List.mem_reverse.mp hx)
    simpa using hne
  obtain ⟨htake', hdrop'⟩ := hsplit subject' name' hname'
  obtain ⟨htake, hdrop⟩ := hsplit subject name hname
  rw [hrev, htake] at htake'
  rw [hrev, hdrop] at hdrop'
  refine ⟨?_, ?_⟩
  · exact String.toList_inj.mp (List.reverse_injective (List.cons.inj hdrop'.symm).2)
  · exact String.toList_inj.mp (List.reverse_injective htake'.symm)

/-! ## Keys -/

/-- The first key that opens is the first occurrence of the right one. -/
theorem findSome_attempt {k : Kek} {iv aad ct tag plain : List UInt8} (hin : k ∈ ring)
    (hright : c.decrypt k iv aad ct tag = some plain)
    (hwrong : ∀ k', k' ≠ k → c.decrypt k' iv aad ct tag = none) (start : ℕ) :
    (ring.zipIdx start).findSome? (attempt c iv aad ct tag) =
      some ⟨String.ofList (decodeText plain), ring.idxOf k + start⟩ := by
  induction ring generalizing start with
  | nil => cases hin
  | cons k' ring ih =>
    rw [List.zipIdx_cons, List.findSome?_cons, attempt]
    by_cases hk : k' = k
    · subst hk
      rw [hright, List.idxOf_cons_self, Nat.zero_add]
      rfl
    · rw [hwrong k' hk, List.idxOf_cons_ne _ hk]
      have hrest := ih ((List.mem_cons.mp hin).resolve_left (Ne.symm hk)) (start + 1)
      rw [show (ring.idxOf k).succ + start = ring.idxOf k + (start + 1) by omega]
      exact hrest

/-! ## Every written credential -/

/-- A credential of the log was sealed under its key, for a valid name. -/
def Written.Genuine (c : Cipher) (w : Written) : Prop :=
  credentialNameRe w.name = true ∧ ∃ ring iv, ring.head? = some w.key ∧
    sealCredential c ring iv w.subject w.name w.plaintext = .ok w.sealedValue

theorem genuine_step {s : Sealings} (h : ∀ w ∈ s.written, w.Genuine c) (a : SealAction) :
    ∀ w ∈ (s.step c a).written, w.Genuine c := by
  cases a with
  | configure ring => exact h
  | write subject name plaintext iv =>
    simp only [Sealings.step]
    split
    · next name' key sealedValue hvalid hkey hsealed =>
      intro w hw
      rcases List.mem_append.mp hw with hold | hnew
      · exact h w hold
      · cases List.mem_singleton.mp hnew
        unfold validateCredentialName at hvalid
        split at hvalid
        · next hre =>
          cases hvalid
          exact ⟨hre, s.ring, iv, hkey, hsealed⟩
        · cases hvalid
    · exact h

/-- Every written credential was sealed under its key. -/
theorem genuine_run (actions : List SealAction) : ∀ w ∈ (Sealings.run c actions).written,
    w.Genuine c := by
  have hrun : ∀ (actions : List SealAction) (s : Sealings), (∀ w ∈ s.written, w.Genuine c) →
      ∀ w ∈ (actions.foldl (Sealings.step c) s).written, w.Genuine c := by
    intro actions
    induction actions with
    | nil => exact fun _ h => h
    | cons a actions ih => exact fun s h => ih _ (genuine_step h a)
  exact hrun actions _ nofun

/-- INTERNAL: **what was written opens as it was written**, over all rotations: under every ring
that holds the key which was first then, at the place of that key; and never for another subject or
valid name.
SRCLINE: envelope.ts:67-136 -/
theorem sealed_opens_for_its_own {c : Cipher} (hc : c.Ideal) (actions : List SealAction)
    {w : Written}
    (hw : w ∈ (Sealings.run c actions).written) :
    (∀ ring : List Kek, w.key ∈ ring → openCredential c ring w.subject w.name w.sealedValue =
      .ok ⟨w.plaintext, ring.idxOf w.key⟩) ∧
    ∀ (ring : List Kek) (subject name : String), credentialNameRe name = true →
      (subject, name) ≠ (w.subject, w.name) → openCredential c ring subject name w.sealedValue =
        .error ("failed to decrypt credential '" ++ name ++ "'") := by
  obtain ⟨hvalid, ring₀, iv, hkey, hsealed⟩ := genuine_run actions w hw
  obtain ⟨ct, tag, hparts, hopen⟩ := open_sealed hkey iv hsealed
  have hct : ct = (c.encrypt w.key iv (credentialAad w.subject w.name)
      (utf8 w.plaintext.toList)).1 :=
    congrArg Prod.fst hparts
  have htag : tag = (c.encrypt w.key iv (credentialAad w.subject w.name)
      (utf8 w.plaintext.toList)).2 :=
    congrArg Prod.snd hparts
  have hauthentic : ∀ k aad plain, c.decrypt k iv aad ct tag = some plain →
      k = w.key ∧ aad = credentialAad w.subject w.name := by
    intro k aad plain hplain
    rw [hct, htag] at hplain
    exact hc.authentic _ _ _ _ _ _ _ hplain
  constructor
  · intro ring hin
    have hright : c.decrypt w.key iv (credentialAad w.subject w.name) ct tag =
        some (utf8 w.plaintext.toList) := by
      rw [hct, htag]
      exact hc.correct _ _ _ _
    have hwrong : ∀ k', k' ≠ w.key →
        c.decrypt k' iv (credentialAad w.subject w.name) ct tag = none := by
      intro k' hne
      cases hplain : c.decrypt k' iv (credentialAad w.subject w.name) ct tag with
      | none => rfl
      | some plain => exact absurd (hauthentic k' _ plain hplain).1 hne
    rw [hopen, findSome_attempt hin hright hwrong 0, decodeText_utf8, String.ofList_toList]
    rfl
  · intro ring subject name hname hne
    have hnone : ring.zipIdx.findSome? (attempt c iv (credentialAad subject name) ct tag) =
        none := by
      rw [List.findSome?_eq_none_iff]
      intro e _
      cases hplain : c.decrypt e.1 iv (credentialAad subject name) ct tag with
      | none => rw [attempt, hplain]; rfl
      | some plain =>
        obtain ⟨rfl, rfl⟩ := credentialAad_inj hvalid hname (hauthentic e.1 _ plain hplain).2
        exact absurd rfl hne
    rw [hopen, hnone]

/-! ## An ideal cipher -/

/-- The key and the bound data as the tag, the length of the key first. -/
def labelTag (k aad : List UInt8) : List UInt8 := List.replicate k.length 1 ++ 0 :: (k ++ aad)

/-- Hides nothing, but is authentic. -/
def labelCipher : Cipher where
  encrypt k _ aad p := (p, labelTag k aad)
  decrypt k _ aad ct tag := if tag = labelTag k aad then some ct else none

theorem labelTag_inj {k k' aad aad' : List UInt8} (h : labelTag k aad = labelTag k' aad') :
    k' = k ∧ aad' = aad := by
  have hsplit : ∀ (n : ℕ) (rest : List UInt8), (List.replicate n 1 ++ 0 :: rest).takeWhile (· ≠ 0) =
      List.replicate n 1 ∧ (List.replicate n 1 ++ 0 :: rest).dropWhile (· ≠ 0) = 0 :: rest := by
    intro n rest
    refine takeWhile_append_cons ?_ (by decide) rest
    intro b hb
    rw [(List.mem_replicate.mp hb).2]
    decide
  have htake := (hsplit k.length (k ++ aad)).1
  have hdrop := (hsplit k.length (k ++ aad)).2
  have h' : List.replicate k.length 1 ++ 0 :: (k ++ aad) = List.replicate k'.length 1 ++
    0 :: (k' ++ aad') := h
  rw [h', (hsplit _ _).1] at htake
  rw [h', (hsplit _ _).2] at hdrop
  have hlength : k'.length = k.length := by
    have := congrArg List.length htake
    rwa [List.length_replicate, List.length_replicate] at this
  exact List.append_inj (List.cons.inj hdrop).2 hlength

theorem labelCipher_ideal : labelCipher.Ideal where
  correct _ _ _ _ := if_pos rfl
  authentic k k' iv aad aad' p q h := by
    simp only [labelCipher] at h
    split at h
    · next htag => exact labelTag_inj htag
    · cases h

/-- A write, and a rotation after it; the second subject has a separator in it. -/
theorem sealed_opens_for_its_own_rotated :
    ∃ w ∈ (Sealings.run labelCipher [.configure [[1]], .write "a|b" "c" "x" [9],
      .configure [[2], [1]]]).written,
      openCredential labelCipher [[2], [1]] "a|b" "c" w.sealedValue = .ok ⟨"x", 1⟩ ∧
      openCredential labelCipher [[2], [1]] "a" "b" w.sealedValue =
        .error "failed to decrypt credential 'b'" := by
  have hw : (⟨"a|b", "c", "x", [1], (String.ofList (['.'].intercalate ["v1".toList, urlText [9],
      urlText (labelTag [1] (credentialAad "a|b" "c")), urlText (utf8 "x".toList)]))⟩ : Written) ∈
      (Sealings.run labelCipher
        [.configure [[1]], .write "a|b" "c" "x" [9], .configure [[2], [1]]]).written :=
          List.mem_singleton_self _
  obtain ⟨hopens, hother⟩ := sealed_opens_for_its_own labelCipher_ideal _ hw
  refine ⟨_, hw, hopens [[2], [1]] (by decide), hother [[2], [1]] "a" "b" (by decide) (by decide)⟩

end ServerlessHarness.ControlPlane
