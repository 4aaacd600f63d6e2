import Mathlib.Data.List.TakeWhile

/-!
# Base64

Three bytes are four letters of an alphabet of sixty-four, and a last group of one or two bytes is
padded. A decoder that ends at the padding and skips what is not a letter reads the bytes back,
however the text is broken into lines.
-/

set_option autoImplicit false

namespace ServerlessHarness.Library

/-- The letter for a number below sixty-four. -/
def letter (n : ℕ) : UInt8 :=
  if n < 26 then UInt8.ofNat (65 + n)
  else if n < 52 then UInt8.ofNat (97 + (n - 26))
  else if n < 62 then UInt8.ofNat (48 + (n - 52))
  else if n = 62 then 43
  else 47

/-- The number of a letter, `-` and `_` being read as the last two. -/
def sextet (b : UInt8) : Option ℕ :=
  if 65 ≤ b.toNat ∧ b.toNat ≤ 90 then some (b.toNat - 65)
  else if 97 ≤ b.toNat ∧ b.toNat ≤ 122 then some (b.toNat - 97 + 26)
  else if 48 ≤ b.toNat ∧ b.toNat ≤ 57 then some (b.toNat - 48 + 52)
  else if b.toNat = 43 ∨ b.toNat = 45 then some 62
  else if b.toNat = 47 ∨ b.toNat = 95 then some 63
  else none

def base64 : List UInt8 → List UInt8
  | [] => []
  | [a] => [letter (a.toNat / 4), letter (a.toNat % 4 * 16), 61, 61]
  | [a, b] =>
    [letter (a.toNat / 4), letter (a.toNat % 4 * 16 + b.toNat / 16), letter (b.toNat % 16 * 4), 61]
  | a :: b :: c :: rest =>
    letter (a.toNat / 4) :: letter (a.toNat % 4 * 16 + b.toNat / 16) ::
      letter (b.toNat % 16 * 4 + c.toNat / 64) :: letter (c.toNat % 64) :: base64 rest

def joinSextets : List ℕ → List UInt8
  | [] => []
  | [_] => []
  | [a, b] => [UInt8.ofNat (a * 4 + b / 16)]
  | [a, b, c] => [UInt8.ofNat (a * 4 + b / 16), UInt8.ofNat (b % 16 * 16 + c / 4)]
  | a :: b :: c :: d :: rest =>
    UInt8.ofNat (a * 4 + b / 16) :: UInt8.ofNat (b % 16 * 16 + c / 4) ::
      UInt8.ofNat (c % 4 * 64 + d) :: joinSextets rest

/-- The text ends at the first `=`; other characters that are not letters are skipped. -/
def unbase64 (text : List UInt8) : List UInt8 :=
  joinSextets ((text.takeWhile (· ≠ 61)).filterMap sextet)

variable {b : UInt8} {data : List UInt8} {n : ℕ}

theorem sextet_letter (h : n < 64) : sextet (letter n) = some n := by
  have hall : ∀ k : Fin 64, sextet (letter k.val) = some k.val := by decide
  exact hall ⟨n, h⟩

/-- INTERNAL: **what an encoding is made of**: letters and the padding. -/
theorem mem_base64 {P : UInt8 → Prop} (hletter : ∀ n < 64, P (letter n)) (hpad : P 61)
    (h : b ∈ base64 data) :
    P b := by
  induction data using base64.induct with
  | case1 => cases h
  | case2 a =>
    have ha := a.toNat_lt
    simp only [base64, List.mem_cons, List.not_mem_nil, or_false] at h
    rcases h with rfl | rfl | rfl | rfl
    · exact hletter _ (by omega)
    · exact hletter _ (by omega)
    · exact hpad
    · exact hpad
  | case3 a b' =>
    have ha := a.toNat_lt
    have hb := b'.toNat_lt
    simp only [base64, List.mem_cons, List.not_mem_nil, or_false] at h
    rcases h with rfl | rfl | rfl | rfl
    · exact hletter _ (by omega)
    · exact hletter _ (by omega)
    · exact hletter _ (by omega)
    · exact hpad
  | case4 a b' c rest ih =>
    have ha := a.toNat_lt
    have hb := b'.toNat_lt
    have hc := c.toNat_lt
    simp only [base64, List.mem_cons] at h
    rcases h with rfl | rfl | rfl | rfl | h
    · exact hletter _ (by omega)
    · exact hletter _ (by omega)
    · exact hletter _ (by omega)
    · exact hletter _ (by omega)
    · exact ih h

/-- No character of an encoding comes before `+`. -/
theorem le_toNat_of_mem_base64 (h : b ∈ base64 data) :
    43 ≤ b.toNat := by
  have hall : ∀ k : Fin 64, 43 ≤ (letter k.val).toNat := by decide
  exact mem_base64 (P := fun b => 43 ≤ b.toNat) (fun n hn => hall ⟨n, hn⟩) (by decide) h

theorem ofNat_eq_of_eq (h : n = b.toNat) : UInt8.ofNat n = b := by
  rw [h]
  exact UInt8.ofNat_toNat

/-- The letters of an encoding hold its bytes. -/
theorem joinSextets_base64 (data : List UInt8) :
    joinSextets ((base64 data).filterMap sextet) = data := by
  induction data using base64.induct with
  | case1 => rfl
  | case2 a =>
    have ha := a.toNat_lt
    unfold base64
    rw [List.filterMap_cons_some (sextet_letter (by omega)),
      List.filterMap_cons_some (sextet_letter (by omega))]
    show [UInt8.ofNat _] = [a]
    rw [ofNat_eq_of_eq (b := a) (by omega)]
  | case3 a b =>
    have ha := a.toNat_lt
    have hb := b.toNat_lt
    unfold base64
    rw [List.filterMap_cons_some (sextet_letter (by omega)),
      List.filterMap_cons_some (sextet_letter (by omega)),
      List.filterMap_cons_some (sextet_letter (by omega))]
    show [UInt8.ofNat _, UInt8.ofNat _] = [a, b]
    rw [ofNat_eq_of_eq (b := a) (by omega), ofNat_eq_of_eq (b := b) (by omega)]
  | case4 a b c rest ih =>
    have ha := a.toNat_lt
    have hb := b.toNat_lt
    have hc := c.toNat_lt
    unfold base64
    rw [List.filterMap_cons_some (sextet_letter (by omega)),
      List.filterMap_cons_some (sextet_letter (by omega)),
      List.filterMap_cons_some (sextet_letter (by omega)),
      List.filterMap_cons_some (sextet_letter (by omega))]
    show UInt8.ofNat _ :: UInt8.ofNat _ :: UInt8.ofNat _ ::
      joinSextets ((base64 rest).filterMap sextet) = a :: b :: c :: rest
    rw [ih, ofNat_eq_of_eq (b := a) (by omega), ofNat_eq_of_eq (b := b) (by omega),
      ofNat_eq_of_eq (b := c) (by omega)]

theorem letter_ne_pad (h : n < 64) : letter n ≠ 61 := by
  have hall : ∀ k : Fin 64, letter k.val ≠ 61 := by decide
  exact hall ⟨n, h⟩

/-- The padding stands at the end. -/
theorem sextets_before_pad (data : List UInt8) :
    ((base64 data).takeWhile (· ≠ 61)).filterMap sextet = (base64 data).filterMap sextet := by
  have hcons : ∀ {n : ℕ} {text : List UInt8}, n < 64 →
      (text.takeWhile (· ≠ 61)).filterMap sextet = text.filterMap sextet →
      ((letter n :: text).takeWhile (· ≠ 61)).filterMap sextet =
        (letter n :: text).filterMap sextet := by
    intro n text hn htext
    have hletter : decide (letter n ≠ 61) = true := decide_eq_true (letter_ne_pad hn)
    simp only [List.takeWhile_cons, hletter, if_true, List.filterMap_cons, htext]
  induction data using base64.induct with
  | case1 => rfl
  | case2 a =>
    have ha := a.toNat_lt
    exact hcons (by omega) (hcons (by omega) rfl)
  | case3 a b =>
    have ha := a.toNat_lt
    have hb := b.toNat_lt
    exact hcons (by omega) (hcons (by omega) (hcons (by omega) rfl))
  | case4 a b c rest ih =>
    have ha := a.toNat_lt
    have hb := b.toNat_lt
    have hc := c.toNat_lt
    exact hcons (by omega) (hcons (by omega) (hcons (by omega) (hcons (by omega) ih)))

/-- INTERNAL: **what was encoded is read back**. -/
theorem unbase64_base64 (data : List UInt8) : unbase64 (base64 data) = data := by
  rw [unbase64, sextets_before_pad, joinSextets_base64]

/-! ## The alphabet for URLs -/

/-- A character in the alphabet for URLs, which has no padding. -/
def urlLetter (b : UInt8) : Option UInt8 :=
  if b = 61 then none else if b = 43 then some 45 else if b = 47 then some 95 else some b

def base64url (data : List UInt8) : List UInt8 := (base64 data).filterMap urlLetter

theorem sextet_urlLetter (b : UInt8) : (urlLetter b).bind sextet = sextet b := by
  unfold urlLetter
  split
  · next h => rw [h]; rfl
  · split
    · next h => rw [h]; rfl
    · split
      · next h => rw [h]; rfl
      · rfl

/-- Every character of an encoding stands for a number. -/
theorem sextet_of_mem_base64url (h : b ∈ base64url data) :
    sextet b ≠ none := by
  obtain ⟨c, hc, hurl⟩ := List.mem_filterMap.mp h
  have hc' : c = 61 ∨ sextet c ≠ none :=
    mem_base64 (P := fun c => c = 61 ∨ sextet c ≠ none)
      (fun n hn => .inr (by rw [sextet_letter hn]; nofun)) (.inl rfl) hc
  have hsame := sextet_urlLetter c
  rw [hurl, Option.bind_some] at hsame
  rw [hsame]
  rcases hc' with rfl | hsome
  · cases hurl
  · exact hsome

theorem unbase64_base64url (data : List UInt8) : unbase64 (base64url data) = data := by
  have hpad : (base64url data).takeWhile (· ≠ 61) = base64url data := by
    rw [List.takeWhile_eq_self_iff]
    intro b hb
    have hsextet := sextet_of_mem_base64url hb
    exact decide_eq_true fun heq => hsextet (heq ▸ rfl)
  rw [unbase64, hpad, base64url, List.filterMap_filterMap, funext sextet_urlLetter]
  exact joinSextets_base64 data

end ServerlessHarness.Library
