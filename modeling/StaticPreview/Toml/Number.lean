import StaticPreview.Text.Digits
import StaticPreview.Text.Magnitude
import StaticPreview.Text.Reader
import StaticPreview.Toml.Value

/-! # Numbers of a configuration file

Digits may be parted by single underscores. An integer has to fit 64 bits, and a number with a
fraction or an exponent must not be so large as to be infinite.
-/
namespace StaticPreview.Toml
open Text Reader

def groupedDigits (p : Char → Bool) : Reader (List Char) := do
  let first ← satisfy p
  let more ← many (satisfy p <|> (do char '_'; satisfy p))
  return first :: more

def sign : Reader (Option Char) :=
  optional? (satisfy fun c => c == '+' || c == '-')

def wholeDigits : Reader (List Char) := do
  match ← ahead (satisfy Char.isDigit) with
  | '0' => return [← satisfy Char.isDigit]
  | _ => groupedDigits Char.isDigit

def signed (s : Option Char) (n : Nat) : Int :=
  if s = some '-' then -(n : Int) else n

def leastInteger : Int := -9223372036854775808

def greatestInteger : Int := 9223372036854775807

def boundedInteger (n : Int) : Reader Value := do
  guard (decide (leastInteger ≤ n) && decide (n ≤ greatestInteger))
  return .integer n

def basedInteger (mark : Char) (base : Nat) (p : Char → Bool) : Reader Value := do
  word ['0', mark]
  boundedInteger (baseValue base (← groupedDigits p))

def integer : Reader Value :=
  basedInteger 'x' 16 (fun c => c.isDigit || ('a' ≤ c && c ≤ 'f') || ('A' ≤ c && c ≤ 'F')) <|>
  basedInteger 'o' 8 (fun c => '0' ≤ c && c ≤ '7') <|>
  basedInteger 'b' 2 (fun c => c == '0' || c == '1') <|>
  (do
    let s ← sign
    boundedInteger (signed s (digitsValue (← wholeDigits))))

def exponent : Reader Int := do
  let _ ← satisfy fun c => c == 'e' || c == 'E'
  let s ← sign
  return signed s (digitsValue (← groupedDigits Char.isDigit))

def fraction : Reader (List Char) := do
  char '.'
  groupedDigits Char.isDigit

/-- A number with a fraction, an exponent, or both. Only above zero may it not be too large. -/
def decimal : Reader Value := do
  let s ← sign
  let whole ← wholeDigits
  let part ← optional? fraction
  let power ← if part.isSome then optional? exponent else some <$> exponent
  let digits := whole ++ part.getD []
  let scale := power.getD 0 - ((part.getD []).length : Int)
  guard (s == some '-' || !roundsToInfinity (digitsValue digits) scale)
  return .float

def notFinite : Reader Value := do
  let _ ← sign
  word "inf".toList <|> word "nan".toList
  return .float

end StaticPreview.Toml
