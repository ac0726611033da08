import StaticPreview.Text.Cut

/-! # Readers

A reader takes what it reads from the front of a text, or fails. Of two alternatives the second is
tried where the first one fails.
-/
namespace StaticPreview.Text

abbrev Reader (α : Type) := StateT (List Char) Option α

namespace Reader

variable {α β : Type}

def readAll? (r : Reader α) (s : List Char) : Option α :=
  match r s with
  | some (a, []) => some a
  | _ => none

def satisfy (p : Char → Bool) : Reader Char
  | [] => none
  | c :: r => if p c then some (c, r) else none

def char (c : Char) : Reader Unit := do
  let _ ← satisfy (· == c)

def word (w : List Char) : Reader Unit := fun s => (after? w s).map fun r => ((), r)

def takeWhile (p : Char → Bool) : Reader (List Char) := fun s =>
  some (s.takeWhile p, s.dropWhile p)

def takeWhile1 (p : Char → Bool) : Reader (List Char) := do
  let run ← takeWhile p
  guard !run.isEmpty
  return run

def exactly (n : Nat) (p : Char → Bool) : Reader (List Char) := fun s =>
  let run := s.take n
  if run.length = n ∧ run.all p then some (run, s.drop n) else none

def atEnd : Reader Unit
  | [] => some ((), [])
  | _ :: _ => none

def ahead (r : Reader α) : Reader α := fun s => (r s).map fun p => (p.1, s)

def optional? (r : Reader α) : Reader (Option α) :=
  some <$> r <|> pure none

def manyUpTo (r : Reader α) : Nat → Reader (List α)
  | 0 => pure []
  | n + 1 => (do return (← r) :: (← manyUpTo r n)) <|> pure []

/-- Reads as often as the reader succeeds. It has to take a character each time. -/
def many (r : Reader α) : Reader (List α) := fun s => manyUpTo r s.length s

def sepBy1 (r : Reader α) (mark : Reader β) : Reader (List α) := do
  return (← r) :: (← many (mark *> r))

def sepBy (r : Reader α) (mark : Reader β) : Reader (List α) :=
  sepBy1 r mark <|> pure []

end Reader
end StaticPreview.Text
