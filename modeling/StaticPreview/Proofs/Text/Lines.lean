import StaticPreview.Proofs.Text.Pieces
import StaticPreview.Proofs.Text.Trim
import StaticPreview.Text.Line

/-! # Lines of a text

A carriage return at the end of a line is a blank, so lines that are trimmed there do not show
whether they had one.
-/
namespace StaticPreview.Text

theorem dropReturn_append {y : List Char} (hy : y ≠ []) (p : List Char) :
    dropReturn (p ++ y) = p ++ dropReturn y := by
  obtain ⟨z, d, rfl⟩ := (List.eq_nil_or_concat y).resolve_left hy
  rw [List.concat_eq_append, ← List.append_assoc]
  unfold dropReturn
  simp only [List.getLast?_concat, List.dropLast_concat]
  split
  · rfl
  · exact List.append_assoc p z [d]

theorem dropReturn_concat {c : Char} (hc : isBlank c = false) (x : List Char) :
    dropReturn (x ++ [c]) = x ++ [c] := by
  have hne : c ≠ '\r' := by
    rintro rfl
    exact absurd hc (by decide)
  rw [dropReturn, List.getLast?_concat, if_neg (by simpa using hne)]

theorem exists_dropReturn_eq_cons {c : Char} (hc : isBlank c = false) (y : List Char) :
    ∃ y', dropReturn (c :: y) = c :: y' := by
  cases y with
  | nil => exact ⟨[], dropReturn_concat hc []⟩
  | cons d y => exact ⟨dropReturn (d :: y), dropReturn_append (List.cons_ne_nil d y) [c]⟩

theorem eq_or_dropReturn (l : List Char) : dropReturn l = l ∨ l = dropReturn l ++ ['\r'] := by
  by_cases h : l.getLast? = some '\r'
  · obtain ⟨x, rfl⟩ := List.getLast?_eq_some_iff.mp h
    rw [dropReturn, if_pos h, List.dropLast_concat]
    exact .inr rfl
  · exact .inl (if_neg h)

theorem trimEnd_dropReturn (l : List Char) : trimEnd (dropReturn l) = trimEnd l := by
  rcases eq_or_dropReturn l with h | h
  · rw [h]
  · have hblank : AllBlank ['\r'] := by decide
    rw [← trimEnd_append_of_blank hblank, ← h]

theorem isPrefix_dropReturn (l : List Char) : dropReturn l <+: l := by
  rcases eq_or_dropReturn l with h | h
  · exact ⟨[], by rw [h, List.append_nil]⟩
  · exact ⟨['\r'], h.symm⟩

theorem trim_dropReturn (l : List Char) : trim (dropReturn l) = trim l := by
  rcases eq_or_dropReturn l with h | h
  · rw [h]
  · have hblank : AllBlank ['\r'] := by decide
    rw [← trim_append_of_blank hblank, ← h]

theorem lines_ne_nil (s : List Char) : lines s ≠ [] :=
  mt List.map_eq_nil_iff.mp (pieces_ne_nil '\n' s)

theorem lines_of_not_mem {s : List Char} (h : '\n' ∉ s) : lines s = [dropReturn s] := by
  rw [lines, pieces_of_not_mem h, List.map_singleton]

theorem lines_append_cons {l : List Char} (h : '\n' ∉ l) (z : List Char) :
    lines (l ++ '\n' :: z) = dropReturn l :: lines z := by
  rw [lines, pieces_append_cons h, List.map_cons, ← lines]

theorem ne_newline_of_not_isBlank {c : Char} (hc : isBlank c = false) : '\n' ≠ c := by
  rintro rfl
  exact absurd hc (by decide)

/-- A text that begins with no blank is one line, or its first line begins so as well. -/
theorem newline_cases {c : Char} (hc : isBlank c = false) (y : List Char) :
    '\n' ∉ c :: y ∨ ∃ l z, '\n' ∉ c :: l ∧ c :: y = c :: l ++ '\n' :: z := by
  by_cases hbreak : '\n' ∈ c :: y
  · right
    obtain ⟨l, z, hy, hl⟩ := List.eq_append_cons_of_mem hbreak
    cases l with
    | nil =>
      obtain ⟨rfl, -⟩ := List.cons.inj hy
      exact absurd rfl (ne_newline_of_not_isBlank hc)
    | cons d l =>
      obtain ⟨rfl, rfl⟩ := List.cons.inj hy
      exact ⟨l, z, hl, rfl⟩
  · exact .inl hbreak

end StaticPreview.Text
