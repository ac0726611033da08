import StaticPreview.Text.Reader

/-! # Blanks, line ends and comments of a configuration file

A line ends with a line feed, which a carriage return may precede. A carriage return stands
nowhere else.
-/
namespace StaticPreview.Toml
open Text Reader

def isSpace (c : Char) : Bool := c == ' ' || c == '\t'

def spaces : Reader Unit := do
  let _ ← takeWhile isSpace

def newline : Reader Unit :=
  char '\n' <|> (do char '\r'; char '\n')

def isCommentChar (c : Char) : Bool :=
  c == '\t' || (0x20 ≤ c.toNat && c.toNat != 0x7F)

def comment : Reader Unit := do
  char '#'
  let _ ← takeWhile isCommentChar

def lineEnd : Reader Unit := do
  spaces
  let _ ← optional? comment
  newline <|> atEnd

def gap : Reader Unit := do
  let _ ← many ((do let _ ← takeWhile1 isSpace) <|> newline <|> (do comment; newline))

end StaticPreview.Toml
