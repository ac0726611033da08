import StaticPreview.Text.Digits
import StaticPreview.Toml.Space

/-! # Strings and keys of a configuration file

A string in double quotes knows escapes, one in single quotes does not. Tripled quotes enclose a
string of several lines: it loses a line end at its start, and may hold, and even end with, up to
two quotes in a row.
-/
namespace StaticPreview.Toml
open Text Reader

def isPlain (quote : Char) (c : Char) : Bool :=
  c != quote && (c == '\t' || (0x20 ≤ c.toNat && c.toNat != 0x7F))

def charOf? (n : Nat) : Option Char :=
  if n.isValidChar then some (.ofNat n) else none

def codePoint (digits : Nat) : Reader (List Char) := do
  let run ← exactly digits isHexDigit
  match charOf? (baseValue 16 run) with
  | some c => return [c]
  | none => failure

def escape : Reader (List Char) := do
  char '\\'
  match ← satisfy fun _ => true with
  | 'b' => return ['\x08']
  | 't' => return ['\t']
  | 'n' => return ['\n']
  | 'f' => return ['\x0c']
  | 'r' => return ['\r']
  | '"' => return ['"']
  | '\\' => return ['\\']
  | 'u' => codePoint 4
  | 'U' => codePoint 8
  | _ => failure

def isBasicPlain (c : Char) : Bool := isPlain '"' c && c != '\\'

def basicString : Reader (List Char) := do
  char '"'
  let parts ← many (takeWhile1 isBasicPlain <|> escape)
  char '"'
  return parts.flatten

def literalString : Reader (List Char) := do
  char '\''
  let s ← takeWhile (isPlain '\'')
  char '\''
  return s

def continuation : Reader (List Char) := do
  char '\\'
  spaces
  newline
  let _ ← many ((do let _ ← takeWhile1 isSpace) <|> newline)
  return []

def lineBreak : Reader (List Char) := do
  newline
  return ['\n']

def severalLines (quote : Char) (content : Reader (List Char)) : Reader (List Char) := do
  let three := List.replicate 3 quote
  word three
  let _ ← optional? newline
  let start ← many content
  let inner ← many do
    let quotes ← (do word [quote, quote]; return [quote, quote]) <|> (do char quote; return [quote])
    let next ← content
    let more ← many content
    return quotes ++ next ++ more.flatten
  let last ←
    (do word ([quote, quote] ++ three); return [quote, quote]) <|>
    (do word ([quote] ++ three); return [quote]) <|>
    (do word three; return [])
  return start.flatten ++ inner.flatten ++ last

def severalBasicLines : Reader (List Char) :=
  severalLines '"' (takeWhile1 isBasicPlain <|> continuation <|> escape <|> lineBreak)

def severalLiteralLines : Reader (List Char) :=
  severalLines '\'' (takeWhile1 (isPlain '\'') <|> lineBreak)

def string : Reader (List Char) :=
  severalBasicLines <|> basicString <|> severalLiteralLines <|> literalString

def isBareKeyChar (c : Char) : Bool := c.isAlphanum || c == '_' || c == '-'

def simpleKey : Reader (List Char) :=
  basicString <|> literalString <|> takeWhile1 isBareKeyChar

/-- A key may have this many parts less one, and arrays and tables may be nested so deep. -/
def nestingLimit : Nat := 80

def dottedKey : Reader (List (List Char)) := do
  let parts ← sepBy1 (do spaces; let part ← simpleKey; spaces; return part) (char '.')
  guard (parts.length < nestingLimit)
  return parts

end StaticPreview.Toml
