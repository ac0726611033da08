/-! # JSON values and how they are written

The strings of a value are of type `σ`: texts when the value is written, and possibly less than
texts when it was read. Escapes are written for quotation marks, backslashes and the characters
below the blank, and for no others.
-/
namespace StaticPreview.Json

inductive Value (σ : Type) where
  | null
  | boolean (b : Bool)
  | number (literal : List Char)
  | string (s : σ)
  | array (items : List (Value σ))
  | object (fields : List (σ × Value σ))

def hexDigit (n : Nat) : Char :=
  if n < 10 then .ofNat (48 + n) else .ofNat (87 + n)

def escapeChar (c : Char) : List Char :=
  if c = '"' then ['\\', '"']
  else if c = '\\' then ['\\', '\\']
  else if c = '\x08' then ['\\', 'b']
  else if c = '\x0c' then ['\\', 'f']
  else if c = '\n' then ['\\', 'n']
  else if c = '\r' then ['\\', 'r']
  else if c = '\t' then ['\\', 't']
  else if c.toNat < 0x20 then
    ['\\', 'u', '0', '0', hexDigit (c.toNat / 16), hexDigit (c.toNat % 16)]
  else [c]

def quote (s : List Char) : List Char :=
  '"' :: s.flatMap escapeChar ++ ['"']

namespace Value

def ofString (s : String) : Value (List Char) := string s.toList

def ofOption : Option String → Value (List Char)
  | some s => ofString s
  | none => null

def field (name : String) (v : Value (List Char)) : List Char × Value (List Char) :=
  (name.toList, v)

def field? (name : String) (s : Option String) : List (List Char × Value (List Char)) :=
  (s.map fun text => field name (ofString text)).toList

mutual

def compact : Value (List Char) → List Char
  | null => "null".toList
  | boolean true => "true".toList
  | boolean false => "false".toList
  | number literal => literal
  | string s => quote s
  | array items => '[' :: compactItems items ++ [']']
  | object fields => '\x7b' :: compactFields fields ++ ['\x7d']

def compactItems : List (Value (List Char)) → List Char
  | [] => []
  | [v] => compact v
  | v :: more => compact v ++ ',' :: compactItems more

def compactFields : List (List Char × Value (List Char)) → List Char
  | [] => []
  | [(name, v)] => quote name ++ ':' :: compact v
  | (name, v) :: more => quote name ++ ':' :: compact v ++ ',' :: compactFields more

end

def lineStart (depth : Nat) : List Char :=
  '\n' :: List.replicate (2 * depth) ' '

mutual

def pretty (depth : Nat) : Value (List Char) → List Char
  | null => "null".toList
  | boolean true => "true".toList
  | boolean false => "false".toList
  | number literal => literal
  | string s => quote s
  | array [] => ['[', ']']
  | array (v :: more) =>
    '[' :: prettyItems (depth + 1) (v :: more) ++ lineStart depth ++ [']']
  | object [] => ['\x7b', '\x7d']
  | object (f :: more) =>
    '\x7b' :: prettyFields (depth + 1) (f :: more) ++ lineStart depth ++ ['\x7d']

def prettyItems (depth : Nat) : List (Value (List Char)) → List Char
  | [] => []
  | [v] => lineStart depth ++ pretty depth v
  | v :: more => lineStart depth ++ pretty depth v ++ ',' :: prettyItems depth more

def prettyFields (depth : Nat) : List (List Char × Value (List Char)) → List Char
  | [] => []
  | [(name, v)] => lineStart depth ++ quote name ++ ':' :: ' ' :: pretty depth v
  | (name, v) :: more =>
    lineStart depth ++ quote name ++ ':' :: ' ' :: pretty depth v ++
      ',' :: prettyFields depth more

end

end Value
end StaticPreview.Json
