/-! # Cutting a text at a mark

Each cut yields the text before the mark and the text after it, and the mark with both parts
is the whole text again.
-/
namespace StaticPreview.Text

def cut? (mark : Char) : List Char → Option (List Char × List Char)
  | [] => none
  | c :: r => if c = mark then some ([], r) else (cut? mark r).map fun p => (c :: p.1, p.2)

theorem append_of_cut? {mark : Char} {s a b : List Char} (h : cut? mark s = some (a, b)) :
    a ++ mark :: b = s := by
  induction s generalizing a b with
  | nil => simp [cut?] at h
  | cons c r ih =>
    by_cases hc : c = mark
    · simp only [cut?, hc, if_true, Option.some.injEq, Prod.mk.injEq] at h
      obtain ⟨rfl, rfl⟩ := h
      simp [hc]
    · simp only [cut?, hc, if_false, Option.map_eq_some_iff] at h
      obtain ⟨⟨x, y⟩, hp, hxy⟩ := h
      obtain ⟨rfl, rfl⟩ := Prod.mk.inj hxy
      simp [ih hp]

theorem cut?_append {mark : Char} {a : List Char} (ha : ∀ c ∈ a, c ≠ mark) (b : List Char) :
    cut? mark (a ++ mark :: b) = some (a, b) := by
  induction a with
  | nil => simp [cut?]
  | cons c r ih =>
    have hr := ih fun d hd => ha d (List.mem_cons_of_mem c hd)
    simp [cut?, ha c List.mem_cons_self, hr]

theorem cut?_eq_some_iff {mark : Char} {s a b : List Char} :
    cut? mark s = some (a, b) ↔ mark ∉ a ∧ s = a ++ mark :: b := by
  constructor
  · intro h
    refine ⟨?_, (append_of_cut? h).symm⟩
    induction s generalizing a with
    | nil => cases h
    | cons c r ih =>
      rw [cut?] at h
      split at h
      next =>
        obtain ⟨rfl, -⟩ := Prod.mk.inj (Option.some.inj h)
        exact List.not_mem_nil
      next hc =>
        obtain ⟨⟨x, y⟩, hcut, hp⟩ := Option.map_eq_some_iff.mp h
        obtain ⟨rfl, rfl⟩ := Prod.mk.inj hp
        rw [List.mem_cons, not_or]
        exact ⟨Ne.symm hc, ih hcut⟩
  · rintro ⟨ha, rfl⟩
    refine cut?_append (fun c hc hmark => ?_) b
    rw [hmark] at hc
    exact ha hc

theorem length_of_cut? {mark : Char} {s a b : List Char} (h : cut? mark s = some (a, b)) :
    a.length < s.length ∧ b.length < s.length := by
  rw [← append_of_cut? h]
  simp
  omega

def cutLast? {α : Type} [DecidableEq α] (mark : α) : List α → Option (List α × List α)
  | [] => none
  | c :: r =>
    match cutLast? mark r with
    | some (a, b) => some (c :: a, b)
    | none => if c = mark then some ([], r) else none

theorem append_of_cutLast? {α : Type} [DecidableEq α] {mark : α} {s a b : List α}
    (h : cutLast? mark s = some (a, b)) :
    a ++ mark :: b = s := by
  induction s generalizing a b with
  | nil => simp [cutLast?] at h
  | cons c r ih =>
    rw [cutLast?] at h
    split at h
    next x y hxy =>
      obtain ⟨rfl, rfl⟩ := Prod.mk.inj (Option.some.inj h)
      simp [ih hxy]
    next =>
      split at h
      next hc =>
        obtain ⟨rfl, rfl⟩ := Prod.mk.inj (Option.some.inj h)
        simp [hc]
      next => simp at h

theorem cutLast?_eq_none_iff {α : Type} [DecidableEq α] {mark : α} {s : List α} :
    cutLast? mark s = none ↔ mark ∉ s := by
  induction s with
  | nil => simp [cutLast?]
  | cons c r ih =>
    rw [cutLast?, List.mem_cons, not_or, ← ih]
    cases cutLast? mark r <;> simp [eq_comm]

theorem cutLast?_eq_some_iff {α : Type} [DecidableEq α] {mark : α} {s a b : List α} :
    cutLast? mark s = some (a, b) ↔ s = a ++ mark :: b ∧ mark ∉ b := by
  induction s generalizing a with
  | nil => simp [cutLast?]
  | cons c r ih =>
    rw [cutLast?]
    cases hr : cutLast? mark r with
    | some p =>
      obtain ⟨x, y⟩ := p
      have hmem : mark ∈ r := by simp [← append_of_cutLast? hr]
      rw [hr] at ih
      cases a with
      | nil =>
        simp only [Option.some.injEq, Prod.mk.injEq, reduceCtorEq, false_and, List.nil_append,
          List.cons.injEq, false_iff, not_and]
        rintro ⟨-, rfl⟩ hb
        exact hb hmem
      | cons d a => simpa [and_assoc] using and_congr_right fun _ => ih
    | none =>
      have hnot := cutLast?_eq_none_iff.mp hr
      cases a with
      | nil =>
        simp only [List.nil_append, List.cons.injEq]
        constructor
        · intro h
          obtain ⟨hc, hp⟩ := Option.ite_none_right_eq_some.mp h
          obtain ⟨-, rfl⟩ := Prod.mk.inj (Option.some.inj hp)
          exact ⟨⟨hc, rfl⟩, hnot⟩
        · rintro ⟨⟨rfl, rfl⟩, -⟩
          simp
      | cons d a =>
        constructor
        · intro h
          obtain ⟨-, hp⟩ := Option.ite_none_right_eq_some.mp h
          simp at hp
        · rintro ⟨h, -⟩
          obtain ⟨-, rfl⟩ := List.cons.inj h
          simp at hnot

/-- Of two marked places in a text one stands behind the other, or they are the same place. -/
theorem append_cons_eq_append_cons {c d : Char} {a b x y : List Char}
    (h : a ++ c :: b = x ++ d :: y) : c ∈ y ∨ d ∈ b ∨ (a = x ∧ c = d ∧ b = y) := by
  rcases List.append_eq_append_iff.mp h with ⟨u, -, hu⟩ | ⟨u, -, hu⟩
  · cases u with
    | nil =>
      obtain ⟨rfl, rfl⟩ := List.cons.inj hu
      exact .inr (.inr ⟨List.append_cancel_right h, rfl, rfl⟩)
    | cons e u =>
      obtain ⟨rfl, rfl⟩ := List.cons.inj hu
      exact .inr (.inl (by simp))
  · cases u with
    | nil =>
      obtain ⟨rfl, rfl⟩ := List.cons.inj hu
      exact .inr (.inr ⟨List.append_cancel_right h, rfl, rfl⟩)
    | cons e u =>
      obtain ⟨rfl, rfl⟩ := List.cons.inj hu
      exact .inl (by simp)

/-- A mark that is not behind a text is in it. -/
theorem exists_of_append_eq_append_cons {mark : Char} {s more a b : List Char}
    (hmore : mark ∉ more) (h : s ++ more = a ++ mark :: b) :
    ∃ u, s = a ++ mark :: u ∧ b = u ++ more := by
  rcases List.append_eq_append_iff.mp h with ⟨u, -, hu⟩ | ⟨u, rfl, hu⟩
  · exact absurd (hu ▸ List.mem_append_right u List.mem_cons_self) hmore
  · cases u with
    | nil =>
      rw [List.nil_append] at hu
      exact absurd (hu ▸ List.mem_cons_self) hmore
    | cons c u =>
      obtain ⟨rfl, rfl⟩ := List.cons.inj hu
      exact ⟨u, rfl, rfl⟩

theorem append_cons_inj_of_last {mark : Char} {a b x y : List Char} (hb : mark ∉ b) (hy : mark ∉ y)
    (h : a ++ mark :: b = x ++ mark :: y) : a = x ∧ b = y := by
  rcases append_cons_eq_append_cons h with h | h | ⟨ha, -, hb⟩
  · exact absurd h hy
  · exact absurd h hb
  · exact ⟨ha, hb⟩

/-- What follows `lead` in a text that begins with it. -/
def after? {α : Type} [DecidableEq α] : List α → List α → Option (List α)
  | [], s => some s
  | _ :: _, [] => none
  | m :: lead, c :: r => if m = c then after? lead r else none

theorem after?_eq_some_iff {α : Type} [DecidableEq α] {lead s r : List α} :
    after? lead s = some r ↔ lead ++ r = s := by
  induction lead generalizing s with
  | nil => simp [after?, eq_comm]
  | cons m lead ih =>
    cases s with
    | nil => simp [after?]
    | cons c t => by_cases h : m = c <;> simp [after?, h, ih]

/-- Nothing that `lead` does not hold helps to find it. -/
theorem after?_append_cons {α : Type} [DecidableEq α] {c : α} {lead : List α} (hc : c ∉ lead)
    (s t : List α) : after? lead (s ++ c :: t) = (after? lead s).map (· ++ c :: t) := by
  induction lead generalizing s with
  | nil => simp [after?]
  | cons m lead ih =>
    obtain ⟨hm, hlead⟩ := not_or.mp (mt List.mem_cons.mpr hc)
    cases s with
    | nil => simp [after?, Ne.symm hm]
    | cons d s => by_cases h : m = d <;> simp [after?, h, ih hlead]

/-- Whether `part` stands anywhere in a text. -/
def holds (part : List Char) : List Char → Bool
  | [] => part.isEmpty
  | c :: r => part.isPrefixOf (c :: r) || holds part r

/-- What stands between the marks of a text. There is always a first piece. -/
def pieces {α : Type} [DecidableEq α] (mark : α) : List α → List (List α)
  | [] => [[]]
  | c :: r =>
    match pieces mark r with
    | [] => [[c]]
    | piece :: more => if c = mark then [] :: piece :: more else (c :: piece) :: more

theorem intercalate_pieces {α : Type} [DecidableEq α] (mark : α) (s : List α) :
    [mark].intercalate (pieces mark s) = s := by
  induction s with
  | nil => simp [pieces]
  | cons c r ih =>
    rw [pieces]
    cases hp : pieces mark r with
    | nil => simp [hp] at ih; simp [← ih]
    | cons piece more =>
      rw [hp] at ih
      by_cases hc : c = mark
      · subst hc
        simp [List.intercalate_cons_cons, ih]
      · cases more <;> simp_all [List.intercalate_cons_cons]

end StaticPreview.Text
