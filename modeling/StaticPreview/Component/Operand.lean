import StaticPreview.Component.Closing
import StaticPreview.Markup.Balance

/-! # The markup that a component returns

Of all return statements the last one counts whose operand reaches, but for the closing of the
file, to the end of the text. The operand stands in parentheses, or it begins and ends with angle
brackets.
-/
namespace StaticPreview.Component
open Text

/-- The texts behind each whole word `return`, the first such word first. `before` is the
character that precedes the text. -/
def afterReturns (before : Option Char) : List Char → List (List Char)
  | [] => []
  | c :: r =>
    let more := afterReturns (some c) r
    match after? "return".toList (c :: r) with
    | some rest =>
      if (before.map isWord).getD false || (rest.head?.map isWord).getD false then more
      else rest :: more
    | none => more

/-- The operand of a return that closes its component, with its angle brackets but without its
parentheses. -/
def operand? (s : List Char) : Option (List Char) :=
  match skipBlank s with
  | '(' :: r =>
    match cutLast? ')' r with
    | some (inner, tail) => if isClosing tail then some inner else none
    | none => none
  | '<' :: r =>
    match cutLast? '>' r with
    | some (inner, tail) => if isClosing tail then some ('<' :: inner ++ ['>']) else none
    | none => none
  | _ => none

/-- Whether a text inside `depth` parentheses has a closing one, before its last character, that
brings the depth to zero. -/
def closesEarly (depth : Nat) : List Char → Bool
  | [] => false
  | [_] => false
  | c :: r =>
    if c = '(' then closesEarly (depth + 1) r
    else if c = ')' then depth == 1 || closesEarly (depth - 1) r
    else closesEarly depth r

def stripParens (s : List Char) : List Char :=
  if s.head? = some '(' ∧ s.getLast? = some ')' ∧ closesEarly 0 s = false then
    trim s.tail.dropLast
  else s

def stripFragment (s : List Char) : List Char :=
  match after? ['<', '>'] s >>= Markup.content? [] with
  | some (content, []) => trim content
  | _ => s

def unwrap (s : List Char) : List Char :=
  stripFragment (stripParens (trim s))

/-- The markup of a component file, unless it has no return to show. -/
def markup? (source : List Char) : Option (List Char) :=
  ((afterReturns none source).reverse.findSome? operand?).map unwrap

end StaticPreview.Component
