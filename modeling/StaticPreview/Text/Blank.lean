/-! # Blank characters

Blank means the Unicode property White_Space: twenty-five characters, among them the no-break
space and the ideographic space, but no zero-width character.
-/
namespace StaticPreview.Text

def isBlank (c : Char) : Bool :=
  let n := c.toNat
  n == 0x20 || (0x09 ≤ n && n ≤ 0x0D) || n == 0x85 || n == 0xA0 || n == 0x1680 ||
    (0x2000 ≤ n && n ≤ 0x200A) || n == 0x2028 || n == 0x2029 || n == 0x202F || n == 0x205F ||
    n == 0x3000

def AllBlank (s : List Char) : Prop := ∀ c ∈ s, isBlank c

instance : DecidablePred AllBlank := fun s => List.decidableBAll (isBlank · = true) s

def skipBlank (s : List Char) : List Char := s.dropWhile isBlank

theorem skipBlank_append {gap : List Char} (h : AllBlank gap) (s : List Char) :
    skipBlank (gap ++ s) = skipBlank s :=
  List.dropWhile_append_of_pos h

theorem skipBlank_of_head {s : List Char} (h : ∀ c ∈ s.head?, isBlank c = false) :
    skipBlank s = s := by
  cases s with
  | nil => rfl
  | cons c r => simp [skipBlank, h c rfl]

theorem exists_gap (s : List Char) : ∃ gap, AllBlank gap ∧ s = gap ++ skipBlank s :=
  ⟨s.takeWhile isBlank, List.all_eq_true.mp List.all_takeWhile,
    List.takeWhile_append_dropWhile.symm⟩

def trimStart (s : List Char) : List Char := skipBlank s

def trimEnd (s : List Char) : List Char := (s.reverse.dropWhile isBlank).reverse

def trim (s : List Char) : List Char := trimEnd (trimStart s)

theorem trimEnd_append_of_blank {gap : List Char} (h : AllBlank gap) (s : List Char) :
    trimEnd (s ++ gap) = trimEnd s := by
  have hgap : ∀ c ∈ gap.reverse, isBlank c := fun c hc => h c (List.mem_reverse.mp hc)
  simp only [trimEnd, List.reverse_append]
  rw [List.dropWhile_append_of_pos hgap]

theorem trimEnd_concat {c : Char} (h : isBlank c = false) (s : List Char) :
    trimEnd (s ++ [c]) = s ++ [c] := by
  simp [trimEnd, h]

def isAsciiBlank (c : Char) : Bool :=
  c == ' ' || c == '\t' || c == '\n' || c == '\x0c' || c == '\r'

theorem isBlank_of_isAsciiBlank {c : Char} (h : isAsciiBlank c) : isBlank c := by
  simp only [isAsciiBlank, Bool.or_eq_true, beq_iff_eq] at h
  rcases h with (((rfl | rfl) | rfl) | rfl) | rfl <;> decide

end StaticPreview.Text
