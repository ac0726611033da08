import StaticPreview.Text.Blank
import StaticPreview.Text.Cut
import StaticPreview.Text.Word

/-! # The end of a component file

After the operand of the last return come the brace that closes the component, semicolons at
choice before and behind it, and possibly a default export. Nothing else may follow.
-/
namespace StaticPreview.Component
open Text

def skipSemicolon (s : List Char) : List Char :=
  match skipBlank s with
  | ';' :: r => skipBlank r
  | r => r

def afterWord? (lead s : List Char) : Option (List Char) :=
  match after? lead s with
  | some (c :: r) => if isBlank c then some (skipBlank r) else none
  | _ => none

def isIdentifierStart (c : Char) : Bool :=
  c.isAlpha || c == '_' || c == '$'

def isIdentifierChar (c : Char) : Bool :=
  isWord c || c == '$'

def isExport (s : List Char) : Bool :=
  match afterWord? "export".toList s >>= afterWord? "default".toList with
  | some (c :: r) => isIdentifierStart c && (skipSemicolon (r.dropWhile isIdentifierChar)).isEmpty
  | _ => false

/-- Whether a text is all that may stand behind the operand of a component's last return. -/
def isClosing (s : List Char) : Bool :=
  match skipSemicolon s with
  | '\x7d' :: r =>
    let tail := skipSemicolon r
    tail.isEmpty || isExport tail
  | _ => false

end StaticPreview.Component
