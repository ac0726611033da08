import StaticPreview.Text.Digits
import StaticPreview.Text.Reader

/-! # Listen addresses

An address of four numbers or, in brackets, of eight groups is followed by a colon and a port. Two
colons stand for groups that are zero, at least one of them, and the last two groups may be
written as four numbers. Brackets may also hold the number of a scope.
-/
namespace StaticPreview.Server.Address
open Text Reader

def numberUpTo (most : Nat) : Reader Unit := do
  let digits ← takeWhile1 Char.isDigit
  guard (digitsValue digits ≤ most)

def byte : Reader Unit := do
  let digits ← takeWhile1 Char.isDigit
  guard (digits.length ≤ 3 && (digits.length = 1 || digits.head? != some '0'))
  guard (digitsValue digits ≤ 255)

def fourNumbers : Reader Unit := do
  byte; char '.'; byte; char '.'; byte; char '.'; byte

def group : Reader Unit := do
  let digits ← takeWhile1 isHexDigit
  guard (digits.length ≤ 4)

def behindColon (first : Bool) (r : Reader Unit) : Reader Unit := do
  unless first do char ':'
  r

/-- At most so many groups: their number, and whether the last two were written as four
numbers. -/
def groups : Nat → Bool → Reader (Nat × Bool)
  | 0, _ => return (0, false)
  | n + 1, first => do
    let whole ← if 0 < n then optional? (behindColon first fourNumbers) else pure none
    if whole.isSome then return (2, true)
    match ← optional? (behindColon first group) with
    | none => return (0, false)
    | some () =>
      let (count, mixed) ← groups n false
      return (count + 1, mixed)

def eightGroups : Reader Unit := do
  let (count, mixed) ← groups 8 true
  unless count = 8 do
    guard !mixed
    word "::".toList
    let _ ← groups (7 - count) true

def scope : Reader Unit := do
  char '%'
  numberUpTo 4294967295

def bracketed : Reader Unit := do
  char '['
  eightGroups
  let _ ← optional? scope
  char ']'

def port : Reader Unit := do
  char ':'
  numberUpTo 65535

def isValid (address : String) : Bool :=
  (readAll? (do fourNumbers <|> bracketed; port) address.toList).isSome

end StaticPreview.Server.Address
