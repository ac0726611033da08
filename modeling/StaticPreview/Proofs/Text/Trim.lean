import StaticPreview.Text.Blank

/-! # Trimmed texts

Trimming takes blanks away at the ends of a text, as far as the first character there that is none.
-/
namespace StaticPreview.Text

theorem not_mem_of_blank {gap : List Char} (hgap : AllBlank gap) {d : Char}
    (hd : isBlank d = false) : d ∉ gap := by
  intro hmem
  rw [hgap d hmem] at hd
  cases hd

theorem isSuffix_skipBlank (s : List Char) : skipBlank s <:+ s :=
  List.dropWhile_suffix isBlank

theorem isSuffix_trimStart (s : List Char) : trimStart s <:+ s :=
  isSuffix_skipBlank s

theorem isPrefix_trimEnd (s : List Char) : trimEnd s <+: s := by
  have h := List.reverse_prefix.mpr (List.dropWhile_suffix (l := s.reverse) isBlank)
  rwa [List.reverse_reverse] at h

theorem isInfix_trim (s : List Char) : trim s <:+: s :=
  (isPrefix_trimEnd (trimStart s)).isInfix.trans (isSuffix_trimStart s).isInfix

theorem trimEnd_append_cons {c : Char} (hc : isBlank c = false) (a s : List Char) :
    trimEnd (a ++ c :: s) = a ++ c :: trimEnd s := by
  have hreverse : (a ++ c :: s).reverse = s.reverse ++ c :: a.reverse := by simp
  rw [trimEnd, hreverse, List.dropWhile_append]
  split
  next h =>
    have hs : trimEnd s = [] := by simpa [trimEnd] using h
    simp [hs, hc]
  next => simp [trimEnd]

theorem trimStart_eq_nil_iff {s : List Char} : trimStart s = [] ↔ AllBlank s := by
  constructor
  · intro h
    obtain ⟨gap, hgap, hs⟩ := exists_gap s
    rw [hs, ← trimStart, h, List.append_nil]
    exact hgap
  · intro h
    simpa [trimStart, skipBlank] using skipBlank_append h []

theorem trimEnd_eq_nil_iff {s : List Char} : trimEnd s = [] ↔ AllBlank s := by
  rw [trimEnd, List.reverse_eq_nil_iff]
  refine trimStart_eq_nil_iff.trans ?_
  simp [AllBlank]

theorem trim_eq_nil_iff {s : List Char} : trim s = [] ↔ AllBlank s := by
  obtain ⟨gap, hgap, hs⟩ := exists_gap s
  rw [trim, trimEnd_eq_nil_iff]
  refine ⟨fun h => ?_, fun h c hc => h c ((isSuffix_trimStart s).mem hc)⟩
  rw [hs]
  exact List.forall_mem_append.mpr ⟨hgap, h⟩

theorem not_isBlank_of_head?_skipBlank {s : List Char} {c : Char}
    (h : c ∈ (skipBlank s).head?) : isBlank c = false := by
  have hhead := List.head?_dropWhile_not isBlank s
  rw [Option.mem_def, skipBlank] at h
  rwa [h] at hhead

theorem not_isBlank_of_getLast?_trimEnd {s : List Char} {c : Char}
    (h : c ∈ (trimEnd s).getLast?) : isBlank c = false := by
  rw [trimEnd, List.getLast?_reverse] at h
  exact not_isBlank_of_head?_skipBlank h

theorem exists_gap_trimEnd (s : List Char) : ∃ gap, AllBlank gap ∧ s = trimEnd s ++ gap := by
  obtain ⟨gap, hgap, hs⟩ := exists_gap s.reverse
  refine ⟨gap.reverse, fun c hc => hgap c (List.mem_reverse.mp hc), ?_⟩
  have hreverse := congrArg List.reverse hs
  rwa [List.reverse_reverse, List.reverse_append] at hreverse

theorem exists_gaps_trim (s : List Char) :
    ∃ gap behind, AllBlank gap ∧ AllBlank behind ∧ s = gap ++ (trim s ++ behind) := by
  obtain ⟨gap, hgap, hs⟩ := exists_gap s
  obtain ⟨behind, hbehind, hstart⟩ := exists_gap_trimEnd (skipBlank s)
  refine ⟨gap, behind, hgap, hbehind, ?_⟩
  rw [hstart] at hs
  exact hs

theorem skipBlank_append_cons {gap : List Char} (hgap : AllBlank gap) {c : Char}
    (hc : isBlank c = false) (s : List Char) : skipBlank (gap ++ c :: s) = c :: s := by
  rw [skipBlank_append hgap, skipBlank_of_head]
  simpa using hc

theorem skipBlank_cases (s : List Char) :
    (AllBlank s ∧ skipBlank s = []) ∨
      ∃ gap c r, AllBlank gap ∧ isBlank c = false ∧ s = gap ++ c :: r ∧ skipBlank s = c :: r := by
  obtain ⟨gap, hgap, hs⟩ := exists_gap s
  cases hrest : skipBlank s with
  | nil => exact .inl ⟨trimStart_eq_nil_iff.mp hrest, rfl⟩
  | cons c r =>
    have hc : c ∈ (skipBlank s).head? := by rw [hrest]; rfl
    rw [hrest] at hs
    exact .inr ⟨gap, c, r, hgap, not_isBlank_of_head?_skipBlank hc, hs, rfl⟩

theorem skipBlank_append_of_not_isBlank {c : Char} (hc : isBlank c = false) (z s : List Char) :
    skipBlank (z ++ c :: s) = skipBlank z ++ c :: s := by
  rcases skipBlank_cases z with ⟨hz, hrest⟩ | ⟨gap, d, r, hgap, hd, rfl, hrest⟩
  · rw [skipBlank_append_cons hz hc, hrest, List.nil_append]
  · rw [hrest, List.append_assoc, List.cons_append, skipBlank_append_cons hgap hd]

theorem trim_append_cons {gap : List Char} (hgap : AllBlank gap) {c : Char}
    (hc : isBlank c = false) (s : List Char) : trim (gap ++ c :: s) = trimEnd (c :: s) := by
  rw [trim, trimStart, skipBlank_append_cons hgap hc]

theorem trim_cases (s : List Char) :
    trim s = [] ∨ ∃ c r, isBlank c = false ∧ trim s = c :: r := by
  rcases skipBlank_cases s with ⟨hs, -⟩ | ⟨gap, c, r, hgap, hc, rfl, -⟩
  · exact .inl (trim_eq_nil_iff.mpr hs)
  · refine .inr ⟨c, trimEnd r, hc, ?_⟩
    rw [trim_append_cons hgap hc]
    exact trimEnd_append_cons hc [] r

theorem trim_blanks_append {gap : List Char} (hgap : AllBlank gap) (s : List Char) :
    trim (gap ++ s) = trim s := by
  rw [trim, trimStart, skipBlank_append hgap]
  rfl

theorem trim_append_of_blank {gap : List Char} (hgap : AllBlank gap) (s : List Char) :
    trim (s ++ gap) = trim s := by
  rcases skipBlank_cases s with ⟨hs, -⟩ | ⟨lead, c, r, hlead, hc, rfl, -⟩
  · rw [trim_eq_nil_iff.mpr hs, trim_eq_nil_iff.mpr (List.forall_mem_append.mpr ⟨hs, hgap⟩)]
  · rw [List.append_assoc, List.cons_append, trim_append_cons hlead hc, trim_append_cons hlead hc,
      ← List.cons_append, trimEnd_append_of_blank hgap]

end StaticPreview.Text
