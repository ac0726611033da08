import StaticPreview.Proofs.Component.Returns

/-! # Returns inside of an operand

A callback in the operand of the last return has a return of its own. The text behind that one
reaches the same closing, so the return of the callback counts if its operand begins with the mark
that the closing mark of the whole operand belongs to, and it does not count otherwise.
-/
namespace StaticPreview.Component
open Text

/-- Whether a whole word `return` is followed by blanks and the opening mark. -/
def HasMarkedReturn (m : Marks) (s : List Char) : Prop :=
  ∃ rest, HasReturn s rest ∧ (skipBlank rest).head? = some m.opening

instance (m : Marks) (s : List Char) : Decidable (HasMarkedReturn m s) :=
  decidable_of_iff (∃ rest ∈ afterReturns none s, (skipBlank rest).head? = some m.opening)
    (exists_congr fun _ => and_congr_left fun _ => mem_afterReturns_none_iff)

/-- The operand of the last return inside of `inner` that has one, with `t` behind the whole. -/
def innerOperand? (m : Marks) (inner t : List Char) : Option (List Char) :=
  ((afterReturns none inner).map (· ++ m.closing :: t)).reverse.findSome? operand?

section
variable {m : Marks} {t : List Char} (ht : Closing t)
include ht

theorem operand_append_iff {n : Marks} {rest inner : List Char} :
    Operand n (rest ++ m.closing :: t) inner ↔
      n = m ∧ ∃ gap, AllBlank gap ∧ rest = gap ++ m.opening :: inner := by
  constructor
  · rintro ⟨gap, t', heq, hgap, ht'⟩
    have hplaces : rest ++ m.closing :: t = (gap ++ n.opening :: inner) ++ n.closing :: t' := by
      simpa using heq
    rcases append_cons_eq_append_cons hplaces with h | h | ⟨hrest, hmark, -⟩
    · exact absurd h (m.closing_not_mem ht')
    · exact absurd h (n.closing_not_mem ht)
    · obtain rfl := Marks.closing_injective hmark
      exact ⟨rfl, gap, hgap, hrest⟩
  · rintro ⟨rfl, gap, hgap, rfl⟩
    exact ⟨gap, t, by simp, hgap, ht⟩

theorem operand?_append_eq_some_iff {rest x : List Char} :
    operand? (rest ++ m.closing :: t) = some x ↔
      ∃ inner, skipBlank rest = m.opening :: inner ∧ x = m.operand inner := by
  rw [operand?_eq_some_iff]
  constructor
  · rintro ⟨n, inner, h, rfl⟩
    obtain ⟨rfl, gap, hgap, rfl⟩ := (operand_append_iff ht).mp h
    refine ⟨inner, ?_, rfl⟩
    rw [skipBlank_append hgap, skipBlank_of_head (by simp)]
  · rintro ⟨inner, hrest, rfl⟩
    obtain ⟨gap, hgap, hsplit⟩ := exists_gap rest
    exact ⟨m, inner, (operand_append_iff ht).mpr ⟨rfl, gap, hgap, hrest ▸ hsplit⟩, rfl⟩

theorem operand?_of_hasReturn_closing {rest : List Char} (h : HasReturn t rest) :
    operand? rest = none := by
  rw [Option.eq_none_iff_forall_ne_some]
  intro x hx
  obtain ⟨n, inner, ⟨gap, t', rfl, -, -⟩, -⟩ := operand?_eq_some_iff.mp hx
  obtain ⟨lead, rfl, -, -⟩ := h
  exact n.closing_not_mem ht (by simp)

theorem exists_return_of_innerOperand? {inner x : List Char}
    (h : innerOperand? m inner t = some x) :
    ∃ rest y, HasReturn inner rest ∧ skipBlank rest = m.opening :: y ∧ x = m.operand y := by
  obtain ⟨s, hs, hx⟩ := List.exists_of_findSome?_eq_some h
  obtain ⟨rest, hrest, rfl⟩ := List.mem_map.mp (List.mem_reverse.mp hs)
  obtain ⟨y, hy, hxy⟩ := (operand?_append_eq_some_iff ht).mp hx
  exact ⟨rest, y, mem_afterReturns_none_iff.mp hrest, hy, hxy⟩

theorem innerOperand?_eq_none_iff {inner : List Char} :
    innerOperand? m inner t = none ↔ ¬ HasMarkedReturn m inner := by
  constructor
  · rintro h ⟨rest, hrest, hmark⟩
    obtain ⟨x, hx⟩ := List.head?_eq_some_iff.mp hmark
    have hmem : rest ++ m.closing :: t ∈
        ((afterReturns none inner).map (· ++ m.closing :: t)).reverse :=
      List.mem_reverse.mpr (List.mem_map_of_mem (mem_afterReturns_none_iff.mpr hrest))
    have hnone := List.findSome?_eq_none_iff.mp h _ hmem
    rw [(operand?_append_eq_some_iff ht).mpr ⟨x, hx, rfl⟩] at hnone
    simp at hnone
  · intro h
    rw [Option.eq_none_iff_forall_ne_some]
    intro x hx
    obtain ⟨rest, y, hrest, hy, -⟩ := exists_return_of_innerOperand? ht hx
    exact h ⟨rest, hrest, by rw [hy, List.head?_cons]⟩

/-- A return inside of the operand wins over the operand. -/
theorem markup?_returnOf {P : List Char} (hP : EndsOffWord P) (inner : List Char) :
    markup? (P ++ returnOf m inner t) =
      some (unwrap ((innerOperand? m inner t).getD (m.operand inner))) := by
  have hself : operand? (' ' :: m.opening :: (inner ++ m.closing :: t)) = some (m.operand inner) :=
    operand?_eq_some_iff.mpr ⟨m, inner, ⟨[' '], t, rfl, by simp [AllBlank, isBlank], ht⟩, rfl⟩
  have hclosing : (afterReturns none t).reverse.findSome? operand? = none := by
    rw [List.findSome?_eq_none_iff]
    intro rest hrest
    have hreturn := mem_afterReturns_none_iff.mp (List.mem_reverse.mp hrest)
    exact operand?_of_hasReturn_closing ht hreturn
  rw [markup?, afterReturns_returnOf hP, innerOperand?]
  simp only [List.reverse_append, List.reverse_cons, List.findSome?_append, hclosing,
    Option.none_or]
  cases ((afterReturns none inner).map (· ++ m.closing :: t)).reverse.findSome? operand? with
  | none => simp [hself]
  | some x => simp

end

theorem count_operand (m : Marks) (inner : List Char) :
    (m.operand inner).count 'r' = inner.count 'r' := by
  cases m <;> simp [Marks.operand]

/-- Unwrapping keeps the letters of the word `return`, so a text and what stands behind a return in
it do not unwrap to the same. -/
theorem unwrap_ne_of_hasReturn {m : Marks} {inner rest x : List Char} (h : HasReturn inner rest)
    (hrest : skipBlank rest = m.opening :: x) :
    unwrap (m.operand x) ≠ unwrap (m.operand inner) := by
  intro heq
  have hcount : x.count 'r' = inner.count 'r' := by
    have h := congrArg (List.count 'r') heq
    rwa [count_unwrap (by decide) (by decide), count_unwrap (by decide) (by decide),
      count_operand, count_operand] at h
  have hrest' : rest.count 'r' = x.count 'r' := by
    have hne : m.opening ≠ 'r' := by cases m <;> decide
    rw [← count_skipBlank (by decide), hrest, List.count_cons_of_ne hne]
  obtain ⟨lead, rfl, -, -⟩ := h
  have hword : "return".toList.count 'r' = 2 := by decide
  rw [List.count_append, List.count_append, hword] at hcount
  omega

/-- There is always markup, and it is that of the last return unless a return inside of it also has
the opening mark. -/
theorem markup?_lastReturn (m : Marks) {P : List Char} (hP : EndsOffWord P) (inner : List Char) :
    (markup? (P ++ returnOf m inner ";\n\x7d".toList)).isSome ∧
      (markup? (P ++ returnOf m inner ";\n\x7d".toList) = some (unwrap (m.operand inner)) ↔
        ¬ HasMarkedReturn m inner) := by
  have ht : Closing ";\n\x7d".toList := isClosing_iff.mp (by decide)
  rw [markup?_returnOf ht hP]
  refine ⟨rfl, ?_⟩
  rw [← innerOperand?_eq_none_iff ht]
  constructor
  · intro h
    rw [Option.eq_none_iff_forall_ne_some]
    intro x hx
    rw [hx, Option.getD_some] at h
    obtain ⟨rest, y, hrest, hy, rfl⟩ := exists_return_of_innerOperand? ht hx
    exact unwrap_ne_of_hasReturn hrest hy (Option.some.inj h)
  · intro h
    rw [h, Option.getD_none]

def bareCallback : List Char :=
  "<ul>\x7ball.map(i => \x7b return <li/>; \x7d)\x7d</ul>".toList

theorem markup?_bareCallback :
    EndsOffWord "function List() \x7b\n  ".toList ∧ ¬ HasMarkedReturn .parens bareCallback ∧
      markup? ("function List() \x7b\n  ".toList ++
        returnOf .parens bareCallback ";\n\x7d".toList) = some (unwrap bareCallback) := by
  have hP : EndsOffWord "function List() \x7b\n  ".toList := by decide
  have hnot : ¬ HasMarkedReturn .parens bareCallback := by decide +kernel
  exact ⟨hP, hnot, (markup?_lastReturn .parens hP bareCallback).2.mpr hnot⟩

def parenCallback : List Char :=
  "<ul>\x7bitems.map(i => \x7b return (<li/>); \x7d)\x7d</ul>".toList

/-- The return of a callback, although it stands in balanced brackets, takes the place of the return
around it. -/
theorem markup?_parenCallback :
    EndsOffWord [] ∧ bracketsMatch [] parenCallback ∧
      markup? ([] ++ returnOf .parens parenCallback ";\n\x7d".toList) =
        some "<li/>); \x7d)\x7d</ul>".toList ∧
      markup? ([] ++ returnOf .parens parenCallback ";\n\x7d".toList) ≠
        some (unwrap parenCallback) := by
  refine ⟨by decide, by decide +kernel, by decide +kernel, by decide +kernel⟩

end StaticPreview.Component
