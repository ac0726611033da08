import StaticPreview.Http.MediaType.Extensions
import StaticPreview.Path

/-! # Media types of files

A file has the media type of its extension. Capital letters do not count, nor does it matter
whether Latin letters are written as they are or as one sign that stands for them.
-/
namespace StaticPreview.Http.MediaType

/-- The small Latin letters that a letter stands for, where it stands for some. -/
def smallLetters (c : Char) : List Char :=
  match c with
  | '\u00df' => ['s', 's']
  | '\u017f' => ['s']
  | '\u1e9e' => ['s', 's']
  | '\u212a' => ['k']
  | '\ufb00' => ['f', 'f']
  | '\ufb01' => ['f', 'i']
  | '\ufb02' => ['f', 'l']
  | '\ufb03' => ['f', 'f', 'i']
  | '\ufb04' => ['f', 'f', 'l']
  | '\ufb05' => ['s', 't']
  | '\ufb06' => ['s', 't']
  | c => [c.toLower]

def ofExtension? (extension : List Char) : Option String :=
  let name := String.ofList (extension.flatMap smallLetters)
  (groups.find? fun group => group.2.contains name).map Prod.fst

def unknown : String := "application/octet-stream"

def ofPath (path : RawText) : String :=
  let extension := (Path.extension? path).bind RawText.text?
  (extension.bind fun e => ofExtension? e.toList).getD unknown

end StaticPreview.Http.MediaType
