import StaticPreview.Html.Escape
import StaticPreview.Proofs.Place.Loop

/-! # Escaping by places

Of each character its place is known, and an ampersand looks at the text from its own place on.
-/
namespace StaticPreview.Place
open Text

def escapeAt (s : List Char) (x : Nat × Char) : Checked (List Char) := do
  if x.2 = '&' then return Html.escapeChar '&' (← sliceFrom s x.1).tail
  else return Html.escapeChar x.2 []

def escapeText (s : List Char) : Checked (List Char) := do
  return (← (charPlaces 0 s).mapM (escapeAt s)).flatten

theorem escapeAt_append (a : List Char) (c : Char) (r : List Char) :
    escapeAt (a ++ c :: r) (width a, c) = .ok (Html.escapeChar c r) := by
  rw [escapeAt]
  split
  next h =>
    obtain rfl : c = '&' := h
    rw [sliceFrom_append]
    rfl
  next h =>
    have hrest : Html.escapeChar c [] = Html.escapeChar c r := by
      unfold Html.escapeChar
      split <;> simp_all
    rw [hrest]
    rfl

theorem mapM_escapeAt {s r : List Char} (a : List Char) (hs : a ++ r = s) :
    ∃ parts, (charPlaces (width a) r).mapM (escapeAt s) = .ok parts ∧
      parts.flatten = Html.escape r := by
  induction r generalizing a with
  | nil => exact ⟨[], rfl, rfl⟩
  | cons c r ih =>
    obtain ⟨parts, hparts, hflatten⟩ := ih (a ++ [c]) (by simp [← hs])
    rw [width_append, width_singleton] at hparts
    refine ⟨Html.escapeChar c r :: parts, ?_, by rw [List.flatten_cons, hflatten, Html.escape]⟩
    rw [charPlaces, List.mapM_cons, ← hs, escapeAt_append, hs, hparts]
    rfl

theorem escapeText_eq (s : List Char) : escapeText s = .ok (Html.escape s) := by
  obtain ⟨parts, hparts, hflatten⟩ := mapM_escapeAt (s := s) [] rfl
  have hzero : charPlaces 0 s = charPlaces (width []) s := rfl
  rw [escapeText, hzero, hparts, ← hflatten]
  rfl

end StaticPreview.Place
