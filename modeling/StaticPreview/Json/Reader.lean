import StaticPreview.Json.Value
import StaticPreview.Text.Digits
import StaticPreview.Text.Magnitude
import StaticPreview.Text.Reader

/-! # Reading JSON

A string that was read is a text, or nothing where an escape in it stands for half of a character
alone.
-/
namespace StaticPreview.Json
open Text Reader

abbrev Read := Value (Option (List Char))

def isSpace (c : Char) : Bool := c == ' ' || c == '\n' || c == '\t' || c == '\r'

def spaces : Reader Unit := do
  let _ ← takeWhile isSpace

/-- A part of a string: characters, or one unit of sixteen bits by its number. -/
inductive Piece where
  | plain (s : List Char)
  | unit (n : Nat)

def escaped : Reader Piece := do
  char '\\'
  match ← satisfy fun _ => true with
  | '"' => return .plain ['"']
  | '\\' => return .plain ['\\']
  | '/' => return .plain ['/']
  | 'b' => return .plain ['\x08']
  | 'f' => return .plain ['\x0c']
  | 'n' => return .plain ['\n']
  | 'r' => return .plain ['\r']
  | 't' => return .plain ['\t']
  | 'u' => return .unit (baseValue 16 (← exactly 4 isHexDigit))
  | _ => failure

/-- The text of pieces. A unit that is the first half of a character needs the second half right
behind it. -/
def textOf? : List Piece → Option (List Char)
  | [] => some []
  | .plain s :: more => (textOf? more).map (s ++ ·)
  | .unit n :: .unit m :: more =>
    if 0xD800 ≤ n ∧ n < 0xDC00 then
      if 0xDC00 ≤ m ∧ m < 0xE000 then
        let point := 0x10000 + 0x400 * (n - 0xD800) + (m - 0xDC00)
        (textOf? more).map (Char.ofNat point :: ·)
      else none
    else if 0xDC00 ≤ n ∧ n < 0xE000 then none
    else (textOf? (.unit m :: more)).map (Char.ofNat n :: ·)
  | .unit n :: more =>
    if 0xD800 ≤ n ∧ n < 0xE000 then none else (textOf? more).map (Char.ofNat n :: ·)

def isPlain (c : Char) : Bool := c != '"' && c != '\\' && 0x20 ≤ c.toNat

def string : Reader (Option (List Char)) := do
  char '"'
  let pieces ← many ((Piece.plain <$> takeWhile1 isPlain) <|> escaped)
  char '"'
  return textOf? pieces

def wholeDigits : Reader (List Char) := do
  match ← ahead (satisfy Char.isDigit) with
  | '0' => return [← satisfy Char.isDigit]
  | _ => takeWhile1 Char.isDigit

def fraction : Reader (List Char) := do
  char '.'
  return '.' :: (← takeWhile1 Char.isDigit)

def exponent : Reader (List Char) := do
  let e ← satisfy fun c => c == 'e' || c == 'E'
  let sign ← optional? (satisfy fun c => c == '+' || c == '-')
  return e :: sign.toList ++ (← takeWhile1 Char.isDigit)

def number : Reader (List Char) := do
  let minus ← optional? (satisfy (· == '-'))
  let whole ← wholeDigits
  let part ← optional? fraction
  let power ← optional? exponent
  return minus.toList ++ whole ++ part.getD [] ++ power.getD []

def spaced {α : Type} (r : Reader α) : Reader α := do
  spaces
  let a ← r
  spaces
  return a

/-- A value inside of which there are at most so many levels of arrays and objects. -/
def valueWithin : Nat → Reader Read
  | 0 => failure
  | n + 1 =>
    let inner := spaced (valueWithin n)
    let field : Reader (Option (List Char) × Read) := do
      let name ← spaced string
      char ':'
      return (name, ← inner)
    (do word "null".toList; return .null) <|>
    (do word "true".toList; return .boolean true) <|>
    (do word "false".toList; return .boolean false) <|>
    Value.string <$> string <|>
    (do char '['; let items ← sepBy inner (char ','); spaces; char ']'; return .array items) <|>
    (do
      char '\x7b'
      let fields ← sepBy field (char ',')
      spaces
      char '\x7d'
      return .object fields) <|>
    Value.number <$> number

/-- The value that a text is. No value has more levels than its text has characters. -/
def read? (s : List Char) : Option Read :=
  readAll? (spaced (valueWithin (s.length + 1))) s

def greatestWhole : Nat := 18446744073709551615

/-- Reads digits behind those of a number as long as the number does not grow too large. -/
def extend (n : Nat) : List Char → Nat × List Char
  | [] => (n, [])
  | c :: r =>
    let m := 10 * n + hexValue c
    if m ≤ greatestWhole then extend m r else (n, c :: r)

/-- The digits of a number without its point, and the power of ten that they are to be taken
with. Digits are left out where there are too many: before the point they count as zeros. -/
def scaled (literal : List Char) : Nat × Int :=
  let body := literal.dropWhile (· == '-')
  let mantissa := body.takeWhile fun c => c != 'e' && c != 'E'
  let power := (body.dropWhile fun c => c != 'e' && c != 'E').drop 1
  let places := (mantissa.dropWhile (· != '.')).drop 1
  let (whole, zeros) := extend 0 (mantissa.takeWhile (· != '.'))
  let (digits, ignored) := extend whole places
  let size := digitsValue (power.filter Char.isDigit)
  let exponent : Int := if power.head? = some '-' then -(size : Int) else size
  (digits, exponent + zeros.length - (places.length - ignored.length : Nat))

def isFinite (literal : List Char) : Bool :=
  let (digits, exponent) := scaled literal
  !productRoundsToInfinity digits exponent

mutual

/-- Whether all in a value can be kept: its strings are texts, its numbers fit, and it has fewer
than `levels` levels of arrays and objects. -/
def isKept (levels : Nat) : Read → Bool
  | .string s => s.isSome
  | .number literal => isFinite literal
  | .array items => 1 < levels && itemsKept (levels - 1) items
  | .object fields => 1 < levels && fieldsKept (levels - 1) fields
  | _ => true

def itemsKept (levels : Nat) : List Read → Bool
  | [] => true
  | v :: more => isKept levels v && itemsKept levels more

def fieldsKept (levels : Nat) : List (Option (List Char) × Read) → Bool
  | [] => true
  | (name, v) :: more => name.isSome && isKept levels v && fieldsKept levels more

end

end StaticPreview.Json
