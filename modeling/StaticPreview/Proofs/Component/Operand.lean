import StaticPreview.Component.Operand
import StaticPreview.Proofs.Component.Closing

/-! # The operand of a return

The operand stands between two marks, and a closing follows the second one. No closing holds a
closing mark, and so the last such mark of the text is the one that ends the operand.
-/
namespace StaticPreview.Component
open Text

inductive Marks where
  | parens
  | angles

namespace Marks

def opening : Marks → Char
  | parens => '('
  | angles => '<'

def closing : Marks → Char
  | parens => ')'
  | angles => '>'

def operand : Marks → List Char → List Char
  | parens, inner => inner
  | angles, inner => '<' :: (inner ++ ['>'])

theorem closing_injective {m n : Marks} (h : m.closing = n.closing) : m = n := by
  cases m <;> cases n
  · rfl
  · exact absurd h (by decide)
  · exact absurd h (by decide)
  · rfl

theorem opening_injective {m n : Marks} (h : m.opening = n.opening) : m = n := by
  cases m <;> cases n
  · rfl
  · exact absurd h (by decide)
  · exact absurd h (by decide)
  · rfl

@[simp] theorem not_isBlank_opening (m : Marks) : isBlank m.opening = false := by
  cases m <;> decide

@[simp] theorem not_isWord_opening (m : Marks) : isWord m.opening = false := by
  cases m <;> decide

@[simp] theorem not_isWord_closing (m : Marks) : isWord m.closing = false := by
  cases m <;> decide

theorem closing_not_mem (m : Marks) {s : List Char} (h : Closing s) : m.closing ∉ s := by
  cases m
  · exact h.not_mem (by decide) (by decide)
  · exact h.not_mem (by decide) (by decide)

end Marks

def Operand (m : Marks) (s inner : List Char) : Prop :=
  ∃ gap t, s = gap ++ m.opening :: (inner ++ m.closing :: t) ∧ AllBlank gap ∧ Closing t

theorem operand_iff_skipBlank {m : Marks} {s inner : List Char} :
    Operand m s inner ↔
      ∃ t, skipBlank s = m.opening :: (inner ++ m.closing :: t) ∧ Closing t := by
  constructor
  · rintro ⟨gap, t, rfl, hgap, ht⟩
    refine ⟨t, ?_, ht⟩
    rw [skipBlank_append hgap, skipBlank_of_head (by simp)]
  · rintro ⟨t, hs, ht⟩
    obtain ⟨gap, hgap, hsplit⟩ := exists_gap s
    exact ⟨gap, t, hs ▸ hsplit, hgap, ht⟩

theorem operand?_of_opening {m : Marks} {s r : List Char} (h : skipBlank s = m.opening :: r) :
    operand? s = (cutLast? m.closing r).bind fun p =>
      if isClosing p.2 then some (m.operand p.1) else none := by
  cases m with
  | parens =>
    have hs : skipBlank s = '(' :: r := h
    simp only [operand?, hs, Marks.closing]
    cases cutLast? ')' r <;> rfl
  | angles =>
    have hs : skipBlank s = '<' :: r := h
    simp only [operand?, hs, Marks.closing]
    cases cutLast? '>' r <;> rfl

theorem exists_opening_of_operand? {s x : List Char} (h : operand? s = some x) :
    ∃ (m : Marks) (r : List Char), skipBlank s = m.opening :: r := by
  rw [operand?] at h
  split at h
  next r hr => exact ⟨.parens, r, hr⟩
  next r hr => exact ⟨.angles, r, hr⟩
  next => simp at h

theorem operand?_eq_some_iff {s x : List Char} :
    operand? s = some x ↔ ∃ m inner, Operand m s inner ∧ x = m.operand inner := by
  constructor
  · intro h
    obtain ⟨m, r, hr⟩ := exists_opening_of_operand? h
    rw [operand?_of_opening hr] at h
    obtain ⟨⟨inner, t⟩, hcut, ht⟩ := Option.bind_eq_some_iff.mp h
    obtain ⟨hclosing, hx⟩ := Option.ite_none_right_eq_some.mp ht
    obtain ⟨rfl, -⟩ := cutLast?_eq_some_iff.mp hcut
    exact ⟨m, inner, operand_iff_skipBlank.mpr ⟨t, hr, isClosing_iff.mp hclosing⟩,
      (Option.some.inj hx).symm⟩
  · rintro ⟨m, inner, h, rfl⟩
    obtain ⟨t, hs, ht⟩ := operand_iff_skipBlank.mp h
    rw [operand?_of_opening hs, cutLast?_eq_some_iff.mpr ⟨rfl, m.closing_not_mem ht⟩]
    simp [isClosing_iff.mpr ht]

theorem isSome_operand?_iff {s : List Char} :
    (operand? s).isSome ↔ ∃ m inner, Operand m s inner := by
  rw [Option.isSome_iff_exists]
  constructor
  · rintro ⟨x, hx⟩
    obtain ⟨m, inner, h, -⟩ := operand?_eq_some_iff.mp hx
    exact ⟨m, inner, h⟩
  · rintro ⟨m, inner, h⟩
    exact ⟨m.operand inner, operand?_eq_some_iff.mpr ⟨m, inner, h, rfl⟩⟩

/-- Whether parentheses and braces match in a text, after those whose closing marks are awaited. -/
def bracketsMatch (awaited : List Char) : List Char → Bool
  | [] => awaited.isEmpty
  | c :: r =>
    if c = '(' then bracketsMatch (')' :: awaited) r
    else if c = '\x7b' then bracketsMatch ('\x7d' :: awaited) r
    else if c = ')' ∨ c = '\x7d' then awaited.head? = some c && bracketsMatch awaited.tail r
    else bracketsMatch awaited r

theorem count_skipBlank {c : Char} (hc : isBlank c = false) (s : List Char) :
    (skipBlank s).count c = s.count c := by
  obtain ⟨gap, hgap, hs⟩ := exists_gap s
  have hnone : gap.count c = 0 :=
    List.count_eq_zero.mpr fun hmem => by simp [hgap c hmem] at hc
  conv => rhs; rw [hs]
  rw [List.count_append, hnone, Nat.zero_add]

theorem count_trim {c : Char} (hc : isBlank c = false) (s : List Char) :
    (trim s).count c = s.count c := by
  have hend (s : List Char) : (trimEnd s).count c = s.count c := by
    rw [trimEnd, List.count_reverse]
    exact (count_skipBlank hc s.reverse).trans List.count_reverse
  rw [trim, hend]
  exact count_skipBlank hc s

theorem eq_of_head?_of_getLast? {a b : Char} {s : List Char} (hne : a ≠ b)
    (hhead : s.head? = some a) (hlast : s.getLast? = some b) :
    s = a :: (s.tail.dropLast ++ [b]) := by
  obtain ⟨r, rfl⟩ := List.head?_eq_some_iff.mp hhead
  cases r with
  | nil => exact absurd (Option.some.inj hlast) hne
  | cons d t =>
    rw [List.getLast?_cons_cons] at hlast
    obtain ⟨t, ht⟩ := List.getLast?_eq_some_iff.mp hlast
    rw [List.tail_cons, ht, List.dropLast_concat]

theorem count_stripParens {c : Char} (hc : isBlank c = false) (hmark : c ∉ ['(', ')'])
    (s : List Char) : (stripParens s).count c = s.count c := by
  rw [stripParens]
  split
  next h =>
    obtain ⟨hhead, hlast, -⟩ := h
    have hs := eq_of_head?_of_getLast? (by decide) hhead hlast
    have hnone (d : Char) (hd : d ∈ ['(', ')']) : d ≠ c := fun h => hmark (h ▸ hd)
    rw [count_trim hc]
    conv => rhs; rw [hs]
    simp [hnone]
  next => rfl

theorem count_stripFragment {c : Char} (hc : isBlank c = false)
    (hmark : c ∉ ['<', '/', '>']) (s : List Char) : (stripFragment s).count c = s.count c := by
  rw [stripFragment]
  split
  next content h =>
    obtain ⟨r, hr, hcontent⟩ := Option.bind_eq_some_iff.mp h
    have hnone (d : Char) (hd : d ∈ ['<', '/', '>']) : d ≠ c := fun h => hmark (h ▸ hd)
    rw [count_trim hc, ← after?_eq_some_iff.mp hr, ← Markup.append_of_readContent? hcontent]
    simp [Markup.closingTag, hnone]
  next => rfl

theorem count_unwrap {c : Char} (hc : isBlank c = false) (hmark : c ∉ ['(', ')', '<', '/', '>'])
    (s : List Char) : (unwrap s).count c = s.count c := by
  have hparens : c ∉ ['(', ')'] := fun h => hmark (List.mem_append_left ['<', '/', '>'] h)
  have htags : c ∉ ['<', '/', '>'] := fun h => hmark (List.mem_append_right ['(', ')'] h)
  rw [unwrap, count_stripFragment hc htags, count_stripParens hc hparens, count_trim hc]

end StaticPreview.Component
