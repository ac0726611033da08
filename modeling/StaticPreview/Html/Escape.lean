import StaticPreview.Html.Reference

/-! # Escaping for text and attribute values

An ampersand that begins a character reference is left alone, so that a text which already holds
references is not escaped twice.
-/
namespace StaticPreview.Html

/-- How `c` is written where `rest` follows it. -/
def escapeChar (c : Char) (rest : List Char) : List Char :=
  match c with
  | '&' => if (reference? rest).isSome then ['&'] else "&amp;".toList
  | '<' => "&lt;".toList
  | '>' => "&gt;".toList
  | '"' => "&quot;".toList
  | '\'' => "&#x27;".toList
  | _ => [c]

def escape : List Char → List Char
  | [] => []
  | c :: r => escapeChar c r ++ escape r

end StaticPreview.Html
