import StaticPreview.Toml.Moment
import StaticPreview.Toml.Number
import StaticPreview.Toml.Quoted

/-! # Configuration files

A file is a sequence of lines: fields, headers of tables, headers of rows, comments. Fields belong
to the table of the last header.
-/
namespace StaticPreview.Toml
open Text Reader

def splitKey (parts : List Key) : List Key × Key :=
  (parts.dropLast, parts.getLast?.getD [])

def boolean : Reader Value :=
  (do word "true".toList; return .boolean true) <|>
  (do word "false".toList; return .boolean false)

def field (value : Reader Value) : Reader (List Key × Value) := do
  let key ← dottedKey
  char '='
  spaces
  return (key, ← value)

/-- The items of an array, after its opening bracket. A comma may follow the last one. -/
def arrayItems (value : Reader Value) : Reader Value := do
  char '['
  let items ← sepBy (do gap; let v ← value; gap; return v) (char ',')
  let _ ← optional? (do guard !items.isEmpty; char ',')
  gap
  char ']'
  return .array items

def addInline (fields : Fields) (f : List Key × Value) : Option Fields :=
  let (path, key) := splitKey f.1
  addField path key f.2 .header fields

/-- A table on one line. No comma may follow its last field. -/
def inlineFields (value : Reader Value) : Reader Value := do
  char '\x7b'
  spaces
  let fields ← sepBy (do let f ← field value; spaces; return f) (char ',')
  spaces
  char '\x7d'
  match fields.foldlM addInline [] with
  | some table => return .inline table
  | none => failure

def valueWithin : Nat → Reader Value
  | 0 => scalar
  | n + 1 => arrayItems (valueWithin n) <|> inlineFields (valueWithin n) <|> scalar
where
  scalar : Reader Value :=
    Value.text <$> string <|> moment <|> decimal <|> notFinite <|> integer <|> boolean

def value : Reader Value := valueWithin (nestingLimit - 1)

inductive Line where
  | field (key : List Key) (v : Value)
  | header (key : List Key)
  | row (key : List Key)
  | blank

def line : Reader Line := do
  spaces
  (do newline; return .blank) <|>
  (do comment; newline <|> atEnd; return .blank) <|>
  (do
    word ['[', '[']
    let key ← dottedKey
    word [']', ']']
    lineEnd
    return .row key) <|>
  (do
    char '['
    let key ← dottedKey
    char ']'
    lineEnd
    return .header key) <|>
  (do
    let (key, v) ← field value
    lineEnd
    return .field key v)

/-- What the lines so far say: the fields of the file, and the path of the table at hand. -/
structure Document where
  fields : Fields
  table : List Key

def Document.add (d : Document) : Line → Option Document
  | .blank => some d
  | .field key v =>
    let (path, last) := splitKey key
    (within false (addField path last v) d.table .header d.fields).map fun fields =>
      { d with fields }
  | .header key =>
    let (path, last) := splitKey key
    (openTable path last d.fields).map fun fields => ⟨fields, key⟩
  | .row key =>
    let (path, last) := splitKey key
    (openRow path last d.fields).map fun fields => ⟨fields, key⟩

def lines : Reader (List Line) := do
  let _ ← optional? (char '\uFEFF')
  let read ← many line
  spaces
  return read

def read? (s : List Char) : Option Fields := do
  let read ← readAll? lines s
  let document ← read.foldlM Document.add ⟨[], []⟩
  return document.fields

end StaticPreview.Toml
