import Mathlib.Data.Rat.Floor

/-!
# Numbers of a script

The numbers of JavaScript are doubles. A finite one is a rational number; an integer that a text
holds is read as the double nearest to it.
-/

set_option autoImplicit false

namespace ServerlessHarness.Library

/-- A number; every finite one is rational. -/
inductive Number where
  | nan
  | infinity (negative : Bool)
  | finite (q : ℚ)
deriving DecidableEq

/-- The double nearest to a natural number, of two the one with the even significand, without a
bound on the exponent. -/
def roundNat (n : ℕ) : ℕ :=
  if n < 2 ^ 53 then n
  else
    let unit := 2 ^ (n.log2 - 52)
    let below := n / unit
    let up := unit < 2 * (n % unit) ∨ unit = 2 * (n % unit) ∧ below % 2 = 1
    (if up then below + 1 else below) * unit

/-- The number that an integer is read as. -/
def Number.ofInt (n : Int) : Number :=
  if roundNat n.natAbs < 2 ^ 1024 then .finite (n.sign * roundNat n.natAbs) else .infinity (n < 0)

end ServerlessHarness.Library
