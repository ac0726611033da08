import StaticPreview.Text.Digits

/-! # Character references

A reference is an ampersand, a body and a semicolon. The body is a number sign with one to seven
digits, a number sign and `x` with one to six hexadecimal digits, or a letter with one to
thirty-one letters and digits after it.
-/
namespace StaticPreview.Html

/-- The characters before the first one that `p` refuses, if there are `least` to `most` of them
and a semicolon follows, with the text after the semicolon. -/
def closedRun? (p : Char → Bool) (least most : Nat) (s : List Char) :
    Option (List Char × List Char) :=
  let run := s.takeWhile p
  match s.dropWhile p with
  | ';' :: r => if least ≤ run.length && run.length ≤ most then some (run, r) else none
  | _ => none

/-- The body of the reference that a text after an ampersand completes, and what follows it. -/
def reference? : List Char → Option (List Char × List Char)
  | '#' :: c :: r =>
    if c = 'x' ∨ c = 'X' then
      (closedRun? Text.isHexDigit 1 6 r).map fun p => ('#' :: c :: p.1, p.2)
    else (closedRun? Char.isDigit 1 7 (c :: r)).map fun p => ('#' :: p.1, p.2)
  | c :: r =>
    if c.isAlpha then (closedRun? Char.isAlphanum 1 31 r).map fun p => (c :: p.1, p.2) else none
  | [] => none

theorem append_of_closedRun? {p : Char → Bool} {least most : Nat} {s a b : List Char}
    (h : closedRun? p least most s = some (a, b)) : a ++ ';' :: b = s := by
  rw [closedRun?] at h
  split at h
  next r hr =>
    split at h
    · obtain ⟨rfl, rfl⟩ := Prod.mk.inj (Option.some.inj h)
      rw [← hr, List.takeWhile_append_dropWhile]
    · simp at h
  next => simp at h

theorem append_of_reference? {s a b : List Char} (h : reference? s = some (a, b)) :
    a ++ ';' :: b = s := by
  unfold reference? at h
  split at h
  · split at h <;>
    · obtain ⟨⟨x, y⟩, hp, hxy⟩ := Option.map_eq_some_iff.mp h
      obtain ⟨rfl, rfl⟩ := Prod.mk.inj hxy
      simp [append_of_closedRun? hp]
  · split at h
    · obtain ⟨⟨x, y⟩, hp, hxy⟩ := Option.map_eq_some_iff.mp h
      obtain ⟨rfl, rfl⟩ := Prod.mk.inj hxy
      simp [append_of_closedRun? hp]
    · simp at h
  · simp at h

end StaticPreview.Html
