import StaticPreview.Markup.Attribute
import StaticPreview.Markup.Tag
import StaticPreview.Proofs.Text.Characters

/-! # Names of tags and attributes -/
namespace StaticPreview.Markup

def IsTagName : List Char → Prop
  | [] => False
  | c :: r => c.isAlpha ∧ ∀ d ∈ r, isNameChar d

instance : DecidablePred IsTagName
  | [] => .isFalse id
  | _ :: _ => inferInstanceAs (Decidable (_ ∧ _))

def IsAttributeName : List Char → Prop
  | [] => False
  | c :: r => Attribute.isNameStart c ∧ ∀ d ∈ r, Attribute.isNameChar d

instance : DecidablePred IsAttributeName
  | [] => .isFalse id
  | _ :: _ => inferInstanceAs (Decidable (_ ∧ _))

theorem isTagName_of_tagName? {s name : List Char} (h : tagName? s = some name) :
    IsTagName name := by
  cases s with
  | nil => simp [tagName?] at h
  | cons c r =>
    rw [tagName?] at h
    split at h
    next hc =>
      obtain rfl := Option.some.inj h
      exact ⟨hc, List.all_eq_true.mp List.all_takeWhile⟩
    next => simp at h

theorem isAttributeName_of_mem_parse {s : List Char} {a : Attribute} (h : a ∈ Attribute.parse s) :
    IsAttributeName a.name := by
  fun_induction Attribute.parse s with
  | case1 => simp at h
  | case2 r _ _ _ _ ih => exact ih h
  | case3 => simp at h
  | case4 c r _ hc name assignment _ ih =>
    rcases List.mem_cons.mp h with rfl | h
    · exact ⟨hc, List.all_eq_true.mp List.all_takeWhile⟩
    · exact ih h
  | case5 c r _ _ ih => exact ih h

theorem isNameChar_attribute {c : Char} (h : isNameChar c) : Attribute.isNameChar c := by
  simp only [isNameChar, Attribute.isNameChar, Bool.or_eq_true] at h ⊢
  rcases h with (((h | h) | h) | h) | h <;> simp [h]

theorem isNameChar_of_isAlpha {c : Char} (h : c.isAlpha) : isNameChar c := by
  simp [isNameChar, Char.isAlphanum, h]

theorem isNameChar_of_isNameStart {c : Char} (h : Attribute.isNameStart c) :
    Attribute.isNameChar c := by
  simp only [Attribute.isNameStart, Attribute.isNameChar, Char.isAlphanum, Bool.or_eq_true] at h ⊢
  rcases h with (h | h) | h <;> simp [h]

theorem not_isBlank_of_isNameChar {c : Char} (h : Attribute.isNameChar c) :
    Text.isBlank c = false := by
  simp only [Attribute.isNameChar, Bool.or_eq_true, beq_iff_eq] at h
  rcases h with ((((h | rfl) | rfl) | rfl) | rfl) | rfl
  · rw [Text.isAlphanum_iff_toNat] at h
    rw [Bool.eq_false_iff]
    intro hblank
    simp only [Text.isBlank, Bool.or_eq_true, Bool.and_eq_true, beq_iff_eq,
      decide_eq_true_eq] at hblank
    omega
  all_goals decide

/-- A character of a name is no mark of any kind. -/
theorem ne_of_isNameChar {c d : Char} (h : Attribute.isNameChar c)
    (hd : Attribute.isNameChar d = false) : c ≠ d := by
  rintro rfl
  simp [h] at hd

theorem IsTagName.isNameChar {name : List Char} (h : IsTagName name) :
    ∀ c ∈ name, isNameChar c := by
  cases name with
  | nil => exact h.elim
  | cons c r =>
    intro d hd
    rcases List.mem_cons.mp hd with rfl | hd
    · exact isNameChar_of_isAlpha h.1
    · exact h.2 d hd

theorem IsAttributeName.isNameChar {name : List Char} (h : IsAttributeName name) :
    ∀ c ∈ name, Attribute.isNameChar c := by
  cases name with
  | nil => exact h.elim
  | cons c r =>
    intro d hd
    rcases List.mem_cons.mp hd with rfl | hd
    · exact isNameChar_of_isNameStart h.1
    · exact h.2 d hd

theorem IsTagName.ne_nil {name : List Char} (h : IsTagName name) : name ≠ [] := by
  rintro rfl
  exact h

theorem IsAttributeName.ne_nil {name : List Char} (h : IsAttributeName name) : name ≠ [] := by
  rintro rfl
  exact h

end StaticPreview.Markup
