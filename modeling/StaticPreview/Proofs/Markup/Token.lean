import StaticPreview.Markup.Node

/-! # What a token covers

A token begins where the text begins, it holds its content, and the next token begins behind it.
-/
namespace StaticPreview.Markup.Token
open Text

/-- An element that is never closed has no content. -/
theorem element?_of_content?_eq_none {s name body after : List Char}
    (hname : tagName? s = some name) (hbody : tagBody? s = some (body, after))
    (hopen : selfCloses body = false) (hcontent : content? name after = none) :
    element? s = some (element name (body.drop name.length) [], after) := by
  rw [element?, hname, hbody]
  simp [hopen, hcontent, openBody]

theorem next?_container {expression : List Char} (h : ∀ c ∈ expression, c ≠ '\x7d')
    (s : List Char) :
    next? ('\x7b' :: expression ++ '\x7d' :: s) = some (container expression, s) := by
  simp [next?, cut?_append h]

/-- Whether `rest` is what a text leaves behind a token that holds `content`. -/
def Covers (content rest s : List Char) : Prop :=
  ∃ opening closing, opening ≠ [] ∧ opening ++ content ++ closing ++ rest = s

theorem Covers.isSuffix {content rest s : List Char} (h : Covers content rest s) : rest <:+ s := by
  obtain ⟨opening, closing, -, rfl⟩ := h
  exact List.suffix_append _ rest

theorem Covers.ne_nil {content rest s : List Char} (h : Covers content rest s) : s ≠ [] := by
  obtain ⟨opening, closing, hne, rfl⟩ := h
  simp [hne]

end StaticPreview.Markup.Token
