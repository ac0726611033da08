import StaticPreview.Proofs.Html.Canonical
import StaticPreview.Proofs.Markup.Handlers
import StaticPreview.Proofs.Markup.OpeningTag

/-! # Emitted attributes

The attributes that are written in HTML are read there as they were kept: a name without a value
as such a name, any other attribute as a literal under its name in HTML. None of them is dropped
or renamed when they are written again.
-/
namespace StaticPreview
open Markup Text

namespace Html.SpelledAttribute

def asAttribute (e : SpelledAttribute) : Attribute :=
  ⟨e.name, e.value.elim .absent .literal⟩

def part (e : SpelledAttribute) : TagPart :=
  .named [' '] e.name (e.value.elim .absent (.quoted [] [] '"'))

/-- Whether an attribute is written as it is read. -/
structure Settled (e : SpelledAttribute) : Prop where
  name : IsAttributeName e.name
  kept : ['o', 'n'].isPrefixOf e.name = false
  value : ∀ value ∈ e.value, htmlName e.name = e.name ∧ Safe value

variable {e : SpelledAttribute}

theorem written_part (e : SpelledAttribute) : e.part.written = e.written := by
  obtain ⟨name, _ | value⟩ := e <;>
    simp [part, written, TagPart.written, WrittenValue.written]

theorem attribute?_part (e : SpelledAttribute) : e.part.attribute? = some e.asAttribute := by
  obtain ⟨name, _ | value⟩ := e <;> rfl

theorem Settled.wellFormed_part (h : e.Settled) : e.part.WellFormed := by
  obtain ⟨name, value⟩ := e
  refine ⟨⟨by simp, by decide⟩, h.name, ?_⟩
  cases value with
  | none => trivial
  | some value =>
    obtain ⟨-, hsafe⟩ := h.value value rfl
    exact ⟨by decide, by decide, .inl rfl, fun c hc =>
      ne_of_not_isMarkupChar (hsafe.not_isMarkupChar c hc) (by decide)⟩

theorem Settled.emitted?_asAttribute (h : e.Settled) : e.asAttribute.emitted? = some e := by
  obtain ⟨name, value⟩ := e
  have hkept : ¬(Attribute.isHandler ⟨name, value.elim .absent .literal⟩) := by
    rw [Attribute.isHandler, h.kept]
    simp
  rw [asAttribute, Attribute.emitted?, if_neg hkept]
  cases value with
  | none => rfl
  | some value =>
    obtain ⟨hname, hsafe⟩ := h.value value rfl
    simp [hname, escape_of_safe hsafe]

end Html.SpelledAttribute

namespace Markup
open Html (SpelledAttribute)

section
variable {es : List SpelledAttribute} (h : ∀ e ∈ es, e.Settled)
include h

theorem parse_written : Attribute.parse (es.flatMap SpelledAttribute.written) =
    es.map SpelledAttribute.asAttribute := by
  have hparts : ∀ p ∈ es.map SpelledAttribute.part, p.WellFormed := by
    intro p hp
    obtain ⟨e, he, rfl⟩ := List.mem_map.mp hp
    exact (h e he).wellFormed_part
  have hend : EndsAttribute [] := ⟨by simp, by simp [skipBlank]⟩
  have hparse := OpeningTag.parse_parts_append hparts hend
  simpa [List.flatMap_map, List.filterMap_map, Function.comp_def, Attribute.parse,
    SpelledAttribute.written_part, SpelledAttribute.attribute?_part] using hparse

theorem emitted_written : emitted (es.flatMap SpelledAttribute.written) = es := by
  rw [emitted, parse_written h, List.filterMap_map]
  have hall : ∀ e ∈ es, (Attribute.emitted? ∘ SpelledAttribute.asAttribute) e = some e :=
    fun e he => (h e he).emitted?_asAttribute
  rw [List.filterMap_congr hall, List.filterMap_some]

theorem attributesHtml_written : attributesHtml (es.flatMap SpelledAttribute.written) =
    es.flatMap SpelledAttribute.written := by
  rw [attributesHtml_eq, emitted_written h]

end

theorem htmlName_cases (name : List Char) :
    htmlName name = name ∨ htmlName name = "class".toList ∨ htmlName name = "for".toList := by
  unfold htmlName
  split
  · exact .inr (.inl rfl)
  · split
    · exact .inr (.inr rfl)
    · exact .inl rfl

theorem htmlName_htmlName (name : List Char) : htmlName (htmlName name) = htmlName name := by
  rcases htmlName_cases name with h | h | h
  · rw [h, h]
  · rw [h]
    decide
  · rw [h]
    decide

theorem not_isHandler_htmlName {name : List Char} (h : ['o', 'n'].isPrefixOf name = false) :
    ['o', 'n'].isPrefixOf (htmlName name) = false := by
  rcases htmlName_cases name with hname | hname | hname
  · rw [hname, h]
  · rw [hname]
    decide
  · rw [hname]
    decide

theorem settled_of_emitted? {a : Attribute} (ha : IsAttributeName a.name) {e : SpelledAttribute}
    (h : a.emitted? = some e) : e.Settled := by
  have hescaped {name : List Char} (hname : IsAttributeName name)
      (hkept : ['o', 'n'].isPrefixOf name = false) (text : List Char) :
      SpelledAttribute.Settled ⟨htmlName name, some (Html.escape text)⟩ := by
    refine ⟨hname.htmlName, not_isHandler_htmlName hkept, ?_⟩
    rintro value ⟨rfl⟩
    exact ⟨htmlName_htmlName name, Html.safe_escape text⟩
  rw [Attribute.emitted?] at h
  split at h
  next => cases h
  next hhandler =>
    have hkept := Bool.eq_false_iff.mpr hhandler
    split at h
    next =>
      obtain rfl := Option.some.inj h
      exact ⟨ha, hkept, by simp⟩
    next text _ =>
      obtain rfl := Option.some.inj h
      exact hescaped ha hkept text
    next text _ =>
      split at h
      next hstyle =>
        obtain ⟨css, -, rfl⟩ := Option.map_eq_some_iff.mp h
        have hstyleName : IsAttributeName "style".toList := by decide
        exact hescaped hstyleName (by decide) css
      next =>
        obtain rfl := Option.some.inj h
        exact hescaped ha hkept text

theorem settled_of_mem_emitted {s : List Char} : ∀ e ∈ emitted s, e.Settled := by
  intro e he
  obtain ⟨a, ha, hemitted⟩ := List.mem_filterMap.mp he
  exact settled_of_emitted? (isAttributeName_of_mem_parse ha) hemitted

/-- What is kept of an attribute, if it is written in HTML at all. -/
def Attribute.kept? (a : Attribute) : Option Attribute :=
  a.emitted?.map SpelledAttribute.asAttribute

/-- The HTML of attributes is read as what was kept of them, in order, and it is its own HTML. -/
theorem parse_attributesHtml (s : List Char) :
    Attribute.parse (attributesHtml s) = (Attribute.parse s).filterMap Attribute.kept? ∧
      attributesHtml (attributesHtml s) = attributesHtml s := by
  have hsettled : ∀ e ∈ emitted s, e.Settled := settled_of_mem_emitted
  constructor
  · rw [attributesHtml_eq, parse_written hsettled, emitted, List.map_filterMap]
    rfl
  · rw [attributesHtml_eq s, attributesHtml_written hsettled]

end Markup
end StaticPreview
