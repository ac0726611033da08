import StaticPreview.Text.Cut

/-! # Pieces of a text

The pieces between the marks of a text are what the marks would join to it again.
-/
namespace StaticPreview.Text

variable {α : Type} [DecidableEq α]

theorem pieces_ne_nil (mark : α) (s : List α) : pieces mark s ≠ [] := by
  cases s with
  | nil => simp [pieces]
  | cons c r =>
    rw [pieces]
    split
    · simp
    · split <;> simp

theorem pieces_append_cons {mark : α} {a : List α} (ha : mark ∉ a) (b : List α) :
    pieces mark (a ++ mark :: b) = a :: pieces mark b := by
  induction a with
  | nil =>
    obtain ⟨piece, more, hb⟩ := List.exists_cons_of_ne_nil (pieces_ne_nil mark b)
    simp [pieces, hb]
  | cons c r ih =>
    obtain ⟨hc, hr⟩ := not_or.mp (mt List.mem_cons.mpr ha)
    simp [pieces, ih hr, Ne.symm hc]

theorem not_mem_of_mem_pieces {mark : α} {s : List α} :
    ∀ piece ∈ pieces mark s, mark ∉ piece := by
  induction s with
  | nil => simp [pieces]
  | cons c r ih =>
    obtain ⟨first, more, hr⟩ := List.exists_cons_of_ne_nil (pieces_ne_nil mark r)
    rw [hr, List.forall_mem_cons] at ih
    rw [pieces, hr]
    dsimp only
    by_cases hc : c = mark
    · rw [if_pos hc, List.forall_mem_cons, List.forall_mem_cons]
      exact ⟨List.not_mem_nil, ih⟩
    · rw [if_neg hc, List.forall_mem_cons]
      exact ⟨by simp [Ne.symm hc, ih.1], ih.2⟩

theorem mem_of_mem_pieces {mark c : α} {s piece : List α} (hpiece : piece ∈ pieces mark s)
    (hc : c ∈ piece) : c ∈ s := by
  induction s generalizing piece with
  | nil => simp_all [pieces]
  | cons d r ih =>
    obtain ⟨first, more, hr⟩ := List.exists_cons_of_ne_nil (pieces_ne_nil mark r)
    rw [pieces, hr] at hpiece
    rw [hr] at ih
    dsimp only at hpiece
    split at hpiece <;> rcases List.mem_cons.mp hpiece with rfl | hmore
    · cases hc
    · exact List.mem_cons_of_mem _ (ih hmore hc)
    · rcases List.mem_cons.mp hc with rfl | hc
      · exact List.mem_cons_self
      · exact List.mem_cons_of_mem _ (ih List.mem_cons_self hc)
    · exact List.mem_cons_of_mem _ (ih (List.mem_cons_of_mem _ hmore) hc)

/-- A mark divides the pieces before it from those behind it. -/
theorem pieces_append (mark : α) (a b : List α) :
    pieces mark (a ++ mark :: b) = pieces mark a ++ pieces mark b := by
  induction a with
  | nil => exact pieces_append_cons List.not_mem_nil b
  | cons c r ih =>
    obtain ⟨first, more, hr⟩ := List.exists_cons_of_ne_nil (pieces_ne_nil mark r)
    rw [List.cons_append, pieces, ih, pieces, hr]
    by_cases hc : c = mark <;> simp [hc]

theorem pieces_replicate (mark : α) (n : Nat) :
    pieces mark (List.replicate n mark) = List.replicate (n + 1) [] := by
  induction n with
  | zero => rfl
  | succ n ih =>
    rw [List.replicate_succ, ← List.nil_append (mark :: _), pieces_append, ih]
    rfl

theorem pieces_of_not_mem {mark : α} {s : List α} (h : mark ∉ s) :
    pieces mark s = [s] := by
  induction s with
  | nil => rfl
  | cons c r ih =>
    obtain ⟨hc, hr⟩ := not_or.mp (mt List.mem_cons.mpr h)
    simp [pieces, ih hr, Ne.symm hc]

theorem pieces_intercalate {mark : α} {ps : List (List α)} (hne : ps ≠ [])
    (h : ∀ piece ∈ ps, mark ∉ piece) : pieces mark ([mark].intercalate ps) = ps := by
  induction ps with
  | nil => exact absurd rfl hne
  | cons piece more ih =>
    obtain ⟨hpiece, hmore⟩ := List.forall_mem_cons.mp h
    cases more with
    | nil => simpa using pieces_of_not_mem hpiece
    | cons next more =>
      rw [List.intercalate_cons_cons, List.append_assoc, List.singleton_append,
        pieces_append_cons hpiece, ih (by simp) hmore]

omit [DecidableEq α] in
theorem mem_of_mem_intercalate {c mark : α} {ls : List (List α)}
    (hc : c ∈ [mark].intercalate ls) : c = mark ∨ ∃ line ∈ ls, c ∈ line := by
  induction ls with
  | nil => simp at hc
  | cons line more ih =>
    cases more with
    | nil => exact .inr ⟨line, List.mem_cons_self, by simpa using hc⟩
    | cons next more =>
      rw [List.intercalate_cons_cons, List.append_assoc, List.mem_append, List.mem_append] at hc
      rcases hc with hc | hc | hc
      · exact .inr ⟨line, List.mem_cons_self, hc⟩
      · exact .inl (List.mem_singleton.mp hc)
      · refine (ih hc).imp_right ?_
        rintro ⟨l, hl, hmem⟩
        exact ⟨l, List.mem_cons_of_mem line hl, hmem⟩

omit [DecidableEq α] in
theorem mem_intercalate_of_mem {c : α} (mark : α) {line : List α} {ls : List (List α)}
    (hline : line ∈ ls) (hc : c ∈ line) : c ∈ [mark].intercalate ls := by
  induction ls with
  | nil => cases hline
  | cons first more ih =>
    cases more with
    | nil =>
      rw [List.mem_singleton.mp hline] at hc
      simpa using hc
    | cons next more =>
      rw [List.intercalate_cons_cons, List.append_assoc]
      rcases List.mem_cons.mp hline with rfl | hmore
      · exact List.mem_append_left _ hc
      · exact List.mem_append_right _ (List.mem_append_right _ (ih hmore))

end StaticPreview.Text
