/-! # Numbers too large for a double

A number rounds to infinity when it is at least the number halfway between the largest double and
the power of two above it.
-/
namespace StaticPreview.Text

def leastInfinite : Nat := Nat.pow 2 1024 - Nat.pow 2 970

/-- Whether `digits` times ten to `exponent` rounds to infinity. Exponents that decide the matter
alone are not expanded. -/
def roundsToInfinity (digits : Nat) (exponent : Int) : Bool :=
  let places := ((Nat.toDigits 10 digits).length : Int) + exponent
  if digits = 0 ∨ places < 309 then false
  else if 310 < places then true
  else
    match exponent with
    | .ofNat e => leastInfinite ≤ digits * Nat.pow 10 e
    | .negSucc e => leastInfinite * Nat.pow 10 (e + 1) ≤ digits

/-- The nearest number that has no more than 53 binary digits before its final zeros; of two that
are as near, the one whose last such digit is zero. -/
def toDouble (n : Nat) : Nat :=
  let unit := Nat.pow 2 (n.log2 - 52)
  let whole := n / unit
  let rest := n % unit
  let up := unit < 2 * rest || (unit == 2 * rest && whole % 2 == 1)
  (if up then whole + 1 else whole) * unit

/-- Whether the product of `digits` and ten to `exponent` rounds to infinity when both factors are
rounded before. Greater powers of ten than the 308th are infinite themselves. -/
def productRoundsToInfinity (digits : Nat) (exponent : Int) : Bool :=
  match exponent with
  | .ofNat e =>
    digits != 0 && (308 < e || leastInfinite ≤ toDouble digits * toDouble (Nat.pow 10 e))
  | .negSucc _ => false

end StaticPreview.Text
