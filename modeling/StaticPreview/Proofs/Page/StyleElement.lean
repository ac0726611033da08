import Mathlib.Data.List.Infix
import StaticPreview.Proofs.Html.Safe
import StaticPreview.Proofs.Page.Handlers
import StaticPreview.Proofs.Place.Document

/-! # The element that holds the stylesheet

The first style element of a preview is its own, and it holds the whole neutralized stylesheet. That
is the stylesheet with a backslash in each end tag of a style element, and all that stands between
the end tags is as it was.
-/
namespace StaticPreview.Page

def styleStart : List Char := "<style>".toList

def Lacks (tag s : List Char) : Prop :=
  ∀ rest, rest <:+ s → startsWith tag rest = false

instance (tag s : List Char) : Decidable (Lacks tag s) :=
  decidable_of_iff (∀ rest ∈ s.tails, startsWith tag rest = false) <| by
    simp only [Lacks, List.mem_tails]

def cutBefore? (tag : List Char) : List Char → Option (List Char × List Char)
  | [] => none
  | c :: r =>
    if startsWith tag (c :: r) then some ([], c :: r)
    else (cutBefore? tag r).map fun p => (c :: p.1, p.2)

/-- What the first style element of a page holds, and the page from the end tag of that element
on. -/
def styleElement? (page : List Char) : Option (List Char × List Char) := do
  let (_, element) ← cutBefore? styleStart page
  cutBefore? styleEnd (element.drop styleStart.length)

theorem toLower_eq_mark_iff {c : Char} : c.toLower = '<' ↔ c = '<' := by
  constructor
  · intro h
    rcases Text.toLower_cases c with hsame | ⟨hhigh, hlow, hlower⟩
    · rw [← hsame, h]
    · rw [h] at hlower
      have hmark : '<'.toNat = 60 := rfl
      omega
  · rintro rfl
    rfl

section
variable {name a b s : List Char}

theorem lacks_of_not_mem (hs : '<' ∉ s) : Lacks ('<' :: name) s := by
  intro rest hrest
  cases rest with
  | nil => rfl
  | cons c r =>
    have hc : ('<' == c.toLower) = false := by
      rw [beq_eq_false_iff_ne]
      intro h
      exact hs (toLower_eq_mark_iff.mp h.symm ▸ hrest.subset List.mem_cons_self)
    rw [startsWith, hc, Bool.false_and]

variable (hname : ∀ m ∈ name, m ≠ '<')
include hname

theorem startsWith_append_eq_false {c : Char} {r : List Char}
    (h : startsWith ('<' :: name) (c :: r) = false) :
    startsWith ('<' :: name) (c :: r ++ '<' :: b) = false := by
  rw [startsWith, ← Bool.not_eq_true, Bool.and_eq_true_iff] at h
  rw [List.cons_append, startsWith, ← Bool.not_eq_true, Bool.and_eq_true_iff]
  rintro ⟨hc, hrest⟩
  exact h ⟨hc, startsWith_append_mark hname hrest⟩

theorem Lacks.append_mark (ha : Lacks ('<' :: name) a) (hb : Lacks ('<' :: name) ('<' :: b)) :
    Lacks ('<' :: name) (a ++ '<' :: b) := by
  induction a with
  | nil => exact hb
  | cons c r ih =>
    intro rest hrest
    rcases List.suffix_cons_iff.mp hrest with rfl | hrest
    · exact startsWith_append_eq_false hname (ha _ List.suffix_rfl)
    · exact ih (fun x hx => ha x (hx.trans (List.suffix_cons c r))) rest hrest

/-- A tag is found where it begins, if it does not begin before. -/
theorem cutBefore?_append (ha : Lacks ('<' :: name) a)
    (hb : startsWith ('<' :: name) ('<' :: b) = true) :
    cutBefore? ('<' :: name) (a ++ '<' :: b) = some (a, '<' :: b) := by
  induction a with
  | nil => rw [List.nil_append, cutBefore?, if_pos hb]
  | cons c r ih =>
    have hc := startsWith_append_eq_false (b := b) hname (ha _ List.suffix_rfl)
    have hr := ih fun x hx => ha x (hx.trans (List.suffix_cons c r))
    rw [List.cons_append] at hc ⊢
    rw [cutBefore?, hc, hr]
    rfl

end

/-- A document up to its title. -/
def opening : List Char :=
  "<!DOCTYPE html>
<html lang=\"en\">
<head>
  <meta charset=\"utf-8\">
  <meta name=\"viewport\" content=\"width=device-width, initial-scale=1\">
  ".toList

def beforeStyle (title : List Char) : List Char :=
  opening ++ '<' :: ("title>".toList ++ Html.escape title) ++ '<' :: "/title>\n  ".toList

set_option maxRecDepth 4096 in
theorem beforeSheet_eq (title : List Char) :
    beforeSheet title = beforeStyle title ++ styleStart := by
  -- The literals are taken apart first, so that nothing has to decode them.
  have hopening : opening = _ := Text.toList_literal rfl
  have hname : "title>".toList = _ := Text.toList_literal rfl
  have hend : "/title>\n  ".toList = _ := Text.toList_literal rfl
  have hstart : styleStart = _ := Text.toList_literal rfl
  have hparts : beforeSheet title = opening ++ '<' :: "title>".toList ++ Html.escape title ++
      ('<' :: "/title>\n  ".toList ++ styleStart) := by
    rw [hopening, hname, hend, hstart]
    exact congrArg₂ (fun start stop => start ++ Html.escape title ++ stop)
      (Text.toList_literal rfl) (Text.toList_literal rfl)
  rw [hparts, beforeStyle]
  simp only [List.append_assoc, List.cons_append]

theorem lacks_styleStart_title (title : List Char) :
    Lacks styleStart ('<' :: ("title>".toList ++ Html.escape title)) := by
  intro rest hrest
  rcases List.suffix_cons_iff.mp hrest with rfl | hrest
  · rfl
  · refine lacks_of_not_mem (fun hmem => ?_) rest hrest
    rcases List.mem_append.mp hmem with hmem | hmem
    · exact absurd hmem (by decide)
    · exact absurd rfl (Html.ne_of_mem_escape rfl _ hmem)

set_option maxRecDepth 4096 in
theorem lacks_styleStart_opening : Lacks styleStart opening := by
  have hopening : opening = _ := Text.toList_literal rfl
  have hstart : styleStart = _ := Text.toList_literal rfl
  rw [hopening, hstart]
  decide +kernel

theorem lacks_styleStart_titleEnd : Lacks styleStart ('<' :: "/title>\n  ".toList) := by
  have hend : "/title>\n  ".toList = _ := Text.toList_literal rfl
  have hstart : styleStart = _ := Text.toList_literal rfl
  rw [hend, hstart]
  decide +kernel

theorem lacks_styleStart_beforeStyle (title : List Char) :
    Lacks styleStart (beforeStyle title) := by
  have hname : ∀ m ∈ "style>".toList, m ≠ '<' := by decide
  exact (lacks_styleStart_opening.append_mark hname (lacks_styleStart_title title)).append_mark
    hname lacks_styleStart_titleEnd

theorem cutBefore?_styleStart (title s : List Char) :
    cutBefore? styleStart (beforeStyle title ++ (styleStart ++ s)) =
      some (beforeStyle title, styleStart ++ s) :=
  cutBefore?_append (b := "style>".toList ++ s) (by decide) (lacks_styleStart_beforeStyle title) rfl

theorem cutBefore?_styleEnd (sheet body : List Char) :
    cutBefore? styleEnd (neutralize sheet ++ afterSheet body) =
      some (neutralize sheet, afterSheet body) := by
  obtain ⟨tail, htail⟩ := exists_afterSheet_eq body
  rw [htail]
  exact cutBefore?_append (b := "/style>".toList ++ tail) (by decide)
    (closesNoStyle_neutralize sheet) rfl

/-- A text cut at end tags of style elements: what stands before the first of them, and each of
them with what stands behind it. -/
structure StyleCut where
  first : List Char
  ends : List (List Char × List Char)

namespace StyleCut

def text (c : StyleCut) : List Char :=
  c.first ++ c.ends.flatMap fun e => e.1 ++ e.2

def replaced (mark : List Char) (c : StyleCut) : List Char :=
  c.first ++ c.ends.flatMap fun e => mark ++ e.2

/-- Whether the text is cut at all end tags of style elements in it and nowhere else. -/
structure AtAllEnds (c : StyleCut) : Prop where
  isEnd : ∀ e ∈ c.ends, e.1.map Char.toLower = styleEnd
  exists_eq : ∀ lead tag rest, c.text = lead ++ tag ++ rest → tag.map Char.toLower = styleEnd →
    ∃ before behind after, c.ends = before ++ (tag, behind) :: after ∧
      lead = (StyleCut.mk c.first before).text

end StyleCut

theorem startsWith_iff_exists {lead s : List Char} :
    startsWith lead s ↔ ∃ tag rest, s = tag ++ rest ∧ tag.map Char.toLower = lead := by
  rw [Place.startsWith_eq, List.isPrefixOf_iff_prefix, List.prefix_map_iff]
  constructor
  · rintro ⟨tag, ⟨rest, rfl⟩, rfl⟩
    exact ⟨tag, rest, rfl, rfl⟩
  · rintro ⟨tag, rest, rfl, rfl⟩
    exact ⟨tag, List.prefix_append tag rest, rfl⟩

theorem length_of_isEnd {tag : List Char} (h : tag.map Char.toLower = styleEnd) :
    tag.length = 7 := by
  rw [← List.length_map Char.toLower, h]
  rfl

/-- An end tag begins with the only mark in it. -/
theorem exists_of_isEnd {tag : List Char} (h : tag.map Char.toLower = styleEnd) :
    ∃ name, tag = '<' :: name ∧ '<' ∉ name := by
  have hend : styleEnd = '<' :: "/style".toList := rfl
  rw [hend] at h
  obtain ⟨c, name, rfl, hc, hname⟩ := List.map_eq_cons_iff.mp h
  refine ⟨name, by rw [toLower_eq_mark_iff.mp hc], fun hmem => ?_⟩
  have hlower := List.mem_map_of_mem (f := Char.toLower) hmem
  rw [hname] at hlower
  exact absurd hlower (by decide)

namespace StyleCut

variable {c : StyleCut} {s : List Char}

theorem text_cons (c : StyleCut) (d : Char) :
    (StyleCut.mk (d :: c.first) c.ends).text = d :: c.text := rfl

/-- What is cut at an end tag in front of a cut text. -/
theorem text_end (c : StyleCut) (tag : List Char) :
    (StyleCut.mk [] ((tag, c.first) :: c.ends)).text = tag ++ c.text := by
  simp [text]

theorem AtAllEnds.cons (h : c.AtAllEnds) {d : Char}
    (hd : startsWith styleEnd (d :: c.text) = false) :
    (StyleCut.mk (d :: c.first) c.ends).AtAllEnds := by
  refine ⟨h.isEnd, fun lead tag rest htext htag => ?_⟩
  rw [text_cons] at htext
  cases lead with
  | nil =>
    have hstart := startsWith_iff_exists.mpr ⟨tag, rest, htext, htag⟩
    rw [hd] at hstart
    cases hstart
  | cons x lead =>
    obtain ⟨rfl, hrest⟩ := List.cons.inj htext
    obtain ⟨before, behind, after, hends, rfl⟩ := h.exists_eq lead tag rest hrest htag
    exact ⟨before, behind, after, hends, rfl⟩

/-- An end tag that begins in another one is that one, or begins behind it. -/
theorem eq_nil_or_of_isEnd {tag tag' lead rest more : List Char}
    (htag : tag.map Char.toLower = styleEnd) (htag' : tag'.map Char.toLower = styleEnd)
    (h : tag ++ more = lead ++ (tag' ++ rest)) :
    lead = [] ∨ ∃ u, lead = tag ++ u ∧ more = u ++ (tag' ++ rest) := by
  rcases List.append_eq_append_iff.mp h with hbehind | ⟨u, hu, hmore⟩
  · exact .inr hbehind
  · cases lead with
    | nil => exact .inl rfl
    | cons x lead =>
      cases u with
      | nil => exact .inr ⟨[], by simpa using hu.symm, by simpa using hmore.symm⟩
      | cons y u =>
        obtain ⟨name, rfl, hname⟩ := exists_of_isEnd htag
        obtain ⟨name', rfl, -⟩ := exists_of_isEnd htag'
        obtain ⟨rfl, -⟩ := List.cons.inj hmore
        obtain ⟨-, rfl⟩ := List.cons.inj hu
        exact absurd (List.mem_append_right lead List.mem_cons_self) hname

theorem AtAllEnds.cons_end (h : c.AtAllEnds) {tag : List Char}
    (htag : tag.map Char.toLower = styleEnd) :
    (StyleCut.mk [] ((tag, c.first) :: c.ends)).AtAllEnds := by
  refine ⟨List.forall_mem_cons.mpr ⟨htag, h.isEnd⟩, fun lead tag' rest htext htag' => ?_⟩
  rw [text_end, List.append_assoc] at htext
  rcases eq_nil_or_of_isEnd htag htag' htext with rfl | ⟨u, rfl, hrest⟩
  · have hlength : tag.length = tag'.length := by rw [length_of_isEnd htag, length_of_isEnd htag']
    rw [List.nil_append] at htext
    obtain ⟨rfl, -⟩ := List.append_inj htext hlength
    exact ⟨[], c.first, c.ends, rfl, rfl⟩
  · obtain ⟨before, behind, after, hends, rfl⟩ :=
      h.exists_eq u tag' rest (by rw [hrest, List.append_assoc]) htag'
    exact ⟨(tag, c.first) :: before, behind, after, by rw [hends]; rfl, by simp [text]⟩

end StyleCut

/-- A stylesheet is neutralized at all end tags in it. -/
theorem exists_cut (sheet : List Char) :
    ∃ c : StyleCut, c.text = sheet ∧ c.AtAllEnds ∧
      neutralize sheet = c.replaced "<\\/style".toList := by
  fun_induction neutralize sheet with
  | case1 =>
    refine ⟨⟨[], []⟩, rfl, ⟨by simp, fun lead tag rest htext htag => ?_⟩, rfl⟩
    have hnil : lead ++ tag ++ rest = [] := htext.symm
    obtain ⟨name, rfl, -⟩ := exists_of_isEnd htag
    simp at hnil
  | case2 c r hstart ih =>
    obtain ⟨cut, htext, hends, heq⟩ := ih
    obtain ⟨tag, rest, hcr, htag⟩ := startsWith_iff_exists.mp hstart
    have hrest : r.drop 6 = rest := by
      have hdrop := congrArg (List.drop 7) hcr
      rwa [← length_of_isEnd htag, List.drop_left, length_of_isEnd htag] at hdrop
    refine ⟨⟨[], (tag, cut.first) :: cut.ends⟩, ?_, hends.cons_end htag, ?_⟩
    · rw [StyleCut.text_end, htext, hrest, hcr]
    · rw [heq]
      simp [StyleCut.replaced]
  | case3 c r hstart ih =>
    obtain ⟨cut, rfl, hends, heq⟩ := ih
    refine ⟨⟨c :: cut.first, cut.ends⟩, rfl, hends.cons (Bool.eq_false_iff.mpr hstart), ?_⟩
    rw [heq]
    rfl

/-- The style element of a preview holds the neutralized stylesheet and ends where the page closes
it, and in the neutralized stylesheet every end tag of a style element has its backslash while all
else is as it was. The places that are found in a copy without capitals are those of the
stylesheet. -/
theorem styleElement?_preview (body sheet : List Char) :
    Place.preview body sheet = .ok (preview body sheet) ∧
      styleElement? (preview body sheet) = some (neutralize sheet, afterSheet body) ∧
      ∃ c : StyleCut, c.text = sheet ∧ c.AtAllEnds ∧
        neutralize sheet = c.replaced "<\\/style".toList := by
  refine ⟨Place.preview_eq body sheet, ?_, exists_cut sheet⟩
  rw [preview, document_eq_sheet, beforeSheet_eq, styleElement?, List.append_assoc,
    List.append_assoc, cutBefore?_styleStart]
  change cutBefore? styleEnd ((styleStart ++ _).drop styleStart.length) = _
  rw [List.drop_left, cutBefore?_styleEnd]

end StaticPreview.Page
