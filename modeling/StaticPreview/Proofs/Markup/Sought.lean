import StaticPreview.Proofs.Markup.WrittenTag
import StaticPreview.Proofs.Text.Runs

/-! # Tags as a search for a closing tag meets them

The search for the closing tag of one name counts the well-formed tags of that name and passes over
all others. The empty name is that of the fragment tag.
-/
namespace StaticPreview.Markup
open Text

def IsSoughtName (tag : List Char) : Prop :=
  tag = [] ∨ IsTagName tag

def EndsName (s : List Char) : Prop :=
  ∃ c r, s = c :: r ∧ (isBlank c ∨ c = '>' ∨ c = '/')

theorem IsSoughtName.isNameChar {tag : List Char} (h : IsSoughtName tag) :
    ∀ c ∈ tag, isNameChar c := by
  rcases h with rfl | h
  · simp
  · exact h.isNameChar

theorem not_isNameChar_of_endsName {c : Char} (h : isBlank c ∨ c = '>' ∨ c = '/') :
    isNameChar c = false := by
  rw [Bool.eq_false_iff]
  intro hc
  rcases h with h | rfl | rfl
  · simp [not_isBlank_of_isNameChar (isNameChar_attribute hc)] at h
  · exact absurd hc (by decide)
  · exact absurd hc (by decide)

theorem WrittenTag.WellFormed.endsName {t : WrittenTag} (h : t.WellFormed) {c : Char}
    (hc : c = '>' ∨ c = '/') (s : List Char) : EndsName (t.attributeText ++ c :: s) := by
  have hall := h.attributes
  have hgap := h.gap
  unfold attributeText
  generalize t.attributes = attributes at hall
  generalize t.gap = gap at hgap
  cases attributes with
  | nil =>
    cases gap with
    | nil => exact ⟨c, s, rfl, .inr hc⟩
    | cons d r =>
      have hd := isBlank_of_isAsciiBlank (hgap d List.mem_cons_self)
      exact ⟨d, r ++ c :: s, by simp, .inl hd⟩
  | cons a more =>
    obtain ⟨hne, hblank, -⟩ := hall a List.mem_cons_self
    obtain ⟨d, r, hdr⟩ := List.exists_cons_of_ne_nil hne
    have hd := isBlank_of_isAsciiBlank (hblank d (by simp [hdr]))
    exact ⟨d, _, by rw [List.flatMap_cons, hdr]; rfl, .inl hd⟩

theorem tagName?_append_of_head? {name s : List Char} (hname : IsTagName name)
    (hs : ∀ c ∈ s.head?, isNameChar c = false) : tagName? (name ++ s) = some name := by
  cases name with
  | nil => exact hname.elim
  | cons c r =>
    rw [List.cons_append, tagName?, if_pos hname.1, takeWhile_append_of_head? hname.2 hs]

theorem tagName?_append {name s : List Char} (hname : IsTagName name) (hs : EndsName s) :
    tagName? (name ++ s) = some name := by
  obtain ⟨d, t, rfl, hd⟩ := hs
  refine tagName?_append_of_head? hname ?_
  rintro c ⟨rfl⟩
  exact not_isNameChar_of_endsName hd

theorem opensTag_of_ne_nil {tag : List Char} (h : tag ≠ []) (s : List Char) :
    opensTag tag ('<' :: s) =
      match after? tag s with
      | some (c :: _) => isBlank c || c == '>' || c == '/'
      | _ => false := by
  have hopen : after? ('<' :: tag) ('<' :: s) = after? tag s := by simp [after?]
  rw [← hopen]
  cases tag with
  | nil => exact absurd rfl h
  | cons c r => rfl

/-- Of two names before texts that end names, neither goes on where the other ends. -/
theorem eq_of_append_eq {a b s t : List Char} (ha : ∀ c ∈ a, isNameChar c)
    (hb : ∀ c ∈ b, isNameChar c) (hs : EndsName s) (ht : EndsName t) (h : a ++ s = b ++ t) :
    a = b ∧ s = t := by
  have htake {n u : List Char} (hn : ∀ c ∈ n, isNameChar c) (hu : EndsName u) :
      (n ++ u).takeWhile isNameChar = n := by
    obtain ⟨c, r, rfl, hc⟩ := hu
    refine takeWhile_append_of_head? hn ?_
    rintro d ⟨rfl⟩
    exact not_isNameChar_of_endsName hc
  have hab : a = b := by rw [← htake ha hs, h, htake hb ht]
  subst hab
  exact ⟨rfl, List.append_cancel_left h⟩

theorem opensTag_append {tag name s : List Char} (htag : IsSoughtName tag)
    (hname : IsTagName name) (hs : EndsName s) :
    opensTag tag ('<' :: (name ++ s)) = decide (tag = name) := by
  rcases htag with rfl | htag
  · cases name with
    | nil => exact hname.elim
    | cons c r =>
      have hc : c ≠ '>' := ne_of_isNameChar
        (isNameChar_attribute (isNameChar_of_isAlpha hname.1)) (by decide)
      simp [opensTag, List.isPrefixOf, hc.symm]
  · rw [opensTag_of_ne_nil htag.ne_nil]
    by_cases heq : tag = name
    · subst heq
      obtain ⟨c, r, rfl, hc⟩ := hs
      rw [after?_eq_some_iff.mpr rfl]
      simpa [or_assoc] using hc
    · rw [decide_eq_false heq]
      split
      next c r h =>
        rw [Bool.eq_false_iff]
        intro hc
        have hc' : isBlank c ∨ c = '>' ∨ c = '/' := by simpa [or_assoc] using hc
        exact heq (eq_of_append_eq htag.isNameChar hname.isNameChar ⟨c, r, rfl, hc'⟩ hs
          (after?_eq_some_iff.mp h)).1
      next => rfl

theorem opensTag_fragment {tag : List Char} (htag : IsSoughtName tag) (s : List Char) :
    opensTag tag ('<' :: '>' :: s) = decide (tag = []) := by
  rcases htag with rfl | htag
  · rfl
  · cases tag with
    | nil => exact htag.elim
    | cons c r =>
      have hc : c ≠ '>' := ne_of_isNameChar
        (isNameChar_attribute (isNameChar_of_isAlpha htag.1)) (by decide)
      simp [opensTag, after?, hc]

theorem opensTag_slash {tag : List Char} (htag : IsSoughtName tag) (s : List Char) :
    opensTag tag ('<' :: '/' :: s) = false := by
  rcases htag with rfl | htag
  · rfl
  · cases tag with
    | nil => exact htag.elim
    | cons c r =>
      have hc : c ≠ '/' := ne_of_isNameChar
        (isNameChar_attribute (isNameChar_of_isAlpha htag.1)) (by decide)
      simp [opensTag, after?, hc]

theorem after?_closingTag_of_ne {c : Char} (hc : c ≠ '/') (tag s : List Char) :
    after? (closingTag tag) ('<' :: c :: s) = none := by
  simp [closingTag, after?, hc.symm]

theorem after?_closingTag_append {tag name : List Char} (htag : IsSoughtName tag)
    (hname : IsSoughtName name) (hne : tag ≠ name) (s : List Char) :
    after? (closingTag tag) (closingTag name ++ s) = none := by
  cases h : after? (closingTag tag) (closingTag name ++ s) with
  | none => rfl
  | some r =>
    have heq : tag ++ '>' :: r = name ++ '>' :: s := by
      simpa [closingTag] using after?_eq_some_iff.mp h
    have hend {n : List Char} (hn : IsSoughtName n) : ∀ c ∈ n, c ≠ '>' := fun c hc =>
      ne_of_isNameChar (isNameChar_attribute (hn.isNameChar c hc)) (by decide)
    have hcut := cut?_append (hend htag) r
    rw [heq, cut?_append (hend hname)] at hcut
    exact absurd (Prod.mk.inj (Option.some.inj hcut)).1.symm hne

end StaticPreview.Markup
