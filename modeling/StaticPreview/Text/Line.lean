import StaticPreview.Text.Cut

/-! # Lines

A line ends with a line feed, and a carriage return before that belongs to the end as well.
-/
namespace StaticPreview.Text

def dropReturn (line : List Char) : List Char :=
  if line.getLast? = some '\r' then line.dropLast else line

def lines (s : List Char) : List (List Char) :=
  (pieces '\n' s).map dropReturn

def firstLine (s : List Char) : List Char :=
  dropReturn (s.takeWhile (· != '\n'))

end StaticPreview.Text
