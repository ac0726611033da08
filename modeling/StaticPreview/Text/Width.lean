/-! # Places in a text

A place is counted in the bytes that the text before it takes in UTF-8.
-/
namespace StaticPreview.Text

def width : List Char → Nat
  | [] => 0
  | c :: r => c.utf8Size + width r

@[simp] theorem width_append (a b : List Char) : width (a ++ b) = width a + width b := by
  induction a with
  | nil => simp [width]
  | cons c r ih => simp [width, ih, Nat.add_assoc]

/-- The text from a place on; a place inside a character counts as the place after it. -/
def dropWidth : Nat → List Char → List Char
  | _, [] => []
  | n, c :: r => if n = 0 then c :: r else dropWidth (n - c.utf8Size) r

end StaticPreview.Text
