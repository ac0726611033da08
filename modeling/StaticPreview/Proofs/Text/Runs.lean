/-! # Runs at the start of a text

A run lasts as long as a condition holds. It is the same with more text behind it, if the text goes
on behind the run.
-/
namespace StaticPreview.Text
variable {p : Char → Bool} {run s : List Char}

theorem takeWhile_append_of_head? (hrun : ∀ c ∈ run, p c) (hs : ∀ c ∈ s.head?, p c = false) :
    (run ++ s).takeWhile p = run := by
  rw [List.takeWhile_append_of_pos hrun]
  cases s with
  | nil => simp
  | cons c r => simp [hs c rfl]

theorem dropWhile_append_of_head? (hrun : ∀ c ∈ run, p c) (hs : ∀ c ∈ s.head?, p c = false) :
    (run ++ s).dropWhile p = s := by
  rw [List.dropWhile_append_of_pos hrun]
  cases s with
  | nil => rfl
  | cons c r => simp [hs c rfl]

theorem dropWhile_append_of_ne_nil (h : s.dropWhile p ≠ []) (t : List Char) :
    (s ++ t).dropWhile p = s.dropWhile p ++ t := by
  rw [List.dropWhile_append, if_neg (by simpa using h)]

theorem takeWhile_append_of_ne_nil (h : s.dropWhile p ≠ []) (t : List Char) :
    (s ++ t).takeWhile p = s.takeWhile p := by
  have hall : ¬(s.takeWhile p).length = s.length := by
    intro hlength
    have hparts := congrArg List.length (List.takeWhile_append_dropWhile (p := p) (l := s))
    rw [List.length_append] at hparts
    exact h (List.eq_nil_of_length_eq_zero (by omega))
  rw [List.takeWhile_append, if_neg hall]

end StaticPreview.Text
