import StaticPreview.Text.Blank
import StaticPreview.Text.Line

/-! # Blanks in text runs

A line break and the blanks around it count as one space, and as nothing at either end of the
run. Blanks inside a line stay.
-/
namespace StaticPreview.Markup

def trimFollowing : List (List Char) → List (List Char)
  | [] => []
  | [last] => [Text.trimStart last]
  | line :: more => Text.trim line :: trimFollowing more

def trimLines : List (List Char) → List (List Char)
  | [] => []
  | [line] => [line]
  | first :: more => Text.trimEnd first :: trimFollowing more

def collapse (run : List Char) : List Char :=
  [' '].intercalate <|
    (trimLines (Text.lines run)).filter fun line => !line.isEmpty

end StaticPreview.Markup
