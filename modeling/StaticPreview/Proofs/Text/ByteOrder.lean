import StaticPreview.Text.Raw

/-! # The order of texts by their bytes

Texts are in the order of their characters. The bytes of a text as UTF-8 are in the same order: of
two characters the lesser one has a lesser byte where their bytes first differ.
-/
namespace StaticPreview.Text

def FirstBelow : List UInt8 → List UInt8 → Prop
  | b :: r, b' :: r' => b < b' ∨ b = b' ∧ FirstBelow r r'
  | _, _ => False

theorem FirstBelow.append_lt {l m : List UInt8} (h : FirstBelow l m) (x y : List UInt8) :
    l ++ x < m ++ y := by
  induction l generalizing m with
  | nil => cases h
  | cons b r ih =>
    cases m with
    | nil => cases h
    | cons b' r' =>
      rw [List.cons_append, List.cons_append, List.cons_lt_cons_iff]
      exact h.imp_right fun ⟨hb, hr⟩ => ⟨hb, ih hr⟩

/-- The bytes of a lesser character are lesser where they first differ. -/
theorem firstBelow_utf8EncodeChar {c c' : Char} (h : c < c') :
    FirstBelow (String.utf8EncodeChar c) (String.utf8EncodeChar c') := by
  have hvalue : c.val.toNat < c'.val.toNat := h
  have hlarge : c'.val.toNat < 0x110000 := by
    have hvalid := c'.valid
    rcases hvalid with hlow | ⟨-, hhigh⟩ <;> omega
  unfold String.utf8EncodeChar
  generalize c.val.toNat = v at hvalue
  generalize c'.val.toNat = v' at hvalue hlarge
  dsimp only
  -- One case for each number of bytes of the two; the lesser character never has more.
  repeat' split
  all_goals
    simp only [FirstBelow, UInt8.lt_iff_toNat_lt, ← UInt8.toNat_inj, UInt8.toNat_ofNat']
    simp (disch := omega) only [Nat.mod_eq_of_lt, Nat.reducePow]
    omega

theorem utf8Bytes_lt {s t : String} (h : s < t) : utf8Bytes s < utf8Bytes t := by
  rw [utf8Bytes, utf8Bytes]
  have hlist : s.toList < t.toList := h
  generalize s.toList = l at hlist
  generalize t.toList = m at hlist
  induction l generalizing m with
  | nil =>
    obtain ⟨c, r, rfl⟩ := List.exists_cons_of_ne_nil (l := m) (by rintro rfl; cases hlist)
    obtain ⟨b, rest, hb⟩ := List.exists_cons_of_ne_nil (String.utf8EncodeChar_ne_nil (c := c))
    rw [List.flatMap_cons, hb]
    exact List.nil_lt_cons _ _
  | cons c r ih =>
    cases m with
    | nil => cases hlist
    | cons c' r' =>
      rw [List.flatMap_cons, List.flatMap_cons]
      rcases List.cons_lt_cons_iff.mp hlist with hlt | ⟨rfl, hrest⟩
      · exact (firstBelow_utf8EncodeChar hlt).append_lt _ _
      · exact List.append_left_lt (ih r' hrest)

end StaticPreview.Text
