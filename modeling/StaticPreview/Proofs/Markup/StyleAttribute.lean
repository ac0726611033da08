import StaticPreview.Proofs.Html.Joined
import StaticPreview.Proofs.Markup.OpeningTag
import StaticPreview.Proofs.Markup.StyleObject

/-! # Style objects in a tag

The declarations of a style object are joined before the text is escaped, and so a literal that ends
in a reference takes the semicolon behind it for its own. No property has an ampersand, so what the
literals end in decides.
-/
namespace StaticPreview.Markup
open Text

def StyleObject.texts (o : StyleObject) : List (List Char) :=
  o.pairs.map declarationText

theorem inlineStyle?_trim (s : List Char) : inlineStyle? (trim s) = inlineStyle? s := by
  rw [inlineStyle?, inlineStyle?, Declaration.parse_trim]

theorem isObject_of_trim_eq {text : List Char} {o : StyleObject} (h : trim text = o.written) :
    isObject text := by
  obtain ⟨inner, hwritten⟩ : ∃ inner, o.written = '\x7b' :: inner ++ ['\x7d'] := by
    rw [StyleObject.written]
    cases o.entries with
    | nil => exact ⟨o.tail, rfl⟩
    | cons e more =>
      exact ⟨e.written ++ (more.flatMap (fun e => ',' :: e.written) ++ o.tail),
        by simp [textBehind, StyleObject.closing]⟩
  have hfirst : o.written.head? = some '\x7b' := by
    rw [hwritten]
    rfl
  have hlast : o.written.getLast? = some '\x7d' := by
    rw [hwritten, List.getLast?_concat]
  simp [isObject, h, hfirst, hlast]

/-- The text of a style object, with blanks before and behind it, is written as its declarations,
joined and escaped. -/
theorem html_style {o : StyleObject} (h : o.WellFormed) (hquiet : o.Quiet) {text : List Char}
    (htext : trim text = o.written) :
    Attribute.html ⟨"style".toList, .expression text⟩ =
      if o.pairs = [] then []
      else " style=\"".toList ++ Html.escape (Html.joined o.texts) ++ ['"'] := by
  have hstyle : inlineStyle? text = style? o.pairs := by
    rw [← inlineStyle?_trim, htext, StyleObject.inlineStyle?_of_quiet h hquiet]
  have hobject : "style".toList = "style".toList ∧ isObject text := ⟨rfl, isObject_of_trim_eq htext⟩
  have hhtml : Attribute.html ⟨"style".toList, .expression text⟩ =
      ((style? o.pairs).map (Attribute.assignment "style".toList)).getD [] := by
    rw [← hstyle]
    exact if_pos hobject
  rw [hhtml, style?]
  split <;> rfl

/-- No property has an ampersand. -/
theorem amp_not_mem_propertyOf {key : List Char} (h : IsKey key) :
    '&' ∉ Declaration.propertyOf key := by
  have hname : '&' ∉ key.flatMap Declaration.hyphenate := by
    rw [List.mem_flatMap]
    rintro ⟨c, hc, hmem⟩
    have hchar := Declaration.isKeyChar_of_mem h c hc
    rw [Declaration.hyphenate] at hmem
    split at hmem
    next =>
      have hlower : '&' = c.toLower := by simpa using hmem
      rcases toLower_cases c with hsame | ⟨-, hlow, hnat⟩
      · rw [← hlower] at hsame
        rw [← hsame] at hchar
        exact absurd hchar (by decide)
      · have hamp : '&'.toNat = 38 := rfl
        rw [← hlower] at hnat
        omega
    next =>
      obtain rfl := List.mem_singleton.mp hmem
      exact absurd hchar (by decide)
  rw [Declaration.propertyOf]
  split
  next => simpa using hname
  next => exact hname

theorem endsInReference_declarationText_iff {p : List Char × List Char} (h : IsKey p.1) :
    Html.EndsInReference (declarationText p) ↔ Html.EndsInReference p.2 := by
  have hlead : '&' ∉ Declaration.propertyOf p.1 ++ [':', ' '] := by
    simpa using amp_not_mem_propertyOf h
  exact Html.endsInReference_append_iff hlead p.2

theorem isKey_of_mem_pairs {o : StyleObject} (h : o.WellFormed) {p : List Char × List Char}
    (hp : p ∈ o.pairs) : IsKey p.1 := by
  obtain ⟨e, he, hpair⟩ := List.mem_filterMap.mp hp
  rw [StyleEntry.pair?] at hpair
  split at hpair
  next =>
    obtain rfl := Option.some.inj hpair
    exact (h.entries e he).label.key
  next => cases hpair

theorem forall_mem_texts_iff {o : StyleObject} (h : o.WellFormed) :
    (∀ t ∈ o.texts.dropLast, ¬Html.EndsInReference t) ↔
      ∀ p ∈ o.pairs.dropLast, ¬Html.EndsInReference p.2 := by
  rw [StyleObject.texts, ← List.map_dropLast, List.forall_mem_map]
  refine forall₂_congr fun p hp => not_congr ?_
  exact endsInReference_declarationText_iff (isKey_of_mem_pairs h (List.dropLast_subset _ hp))

namespace OpeningTag

/-- A style object in a tag becomes one attribute between the others. Its value is what comes of the
declarations one by one if and only if no literal but the last ends in a reference that has no
semicolon; every reader of references then finds the semicolons between the same declarations. -/
theorem attributesHtml_of_style {t : OpeningTag} (ht : t.WellFormed) {o : StyleObject}
    (ho : o.WellFormed) (hquiet : o.Quiet) {lead more : List TagPart}
    {gap before behind text : List Char} (htext : trim text = o.written)
    (hparts : t.parts =
      lead ++ .named gap "style".toList (.expression before behind text) :: more) :
    attributesHtml t.attributeText =
        (lead.filterMap TagPart.attribute?).flatMap Attribute.html ++
          ((if o.pairs = [] then []
            else " style=\"".toList ++ Html.escape (Html.joined o.texts) ++ ['"']) ++
          (more.filterMap TagPart.attribute?).flatMap Attribute.html) ∧
      (Html.escape (Html.joined o.texts) = Html.joined (o.texts.map Html.escape) ↔
        ∀ p ∈ o.pairs.dropLast, ¬Html.EndsInReference p.2) ∧
      ((∀ p ∈ o.pairs.dropLast, ¬Html.EndsInReference p.2) →
        ∀ meaning, Html.DecodesMarks meaning →
          Html.decodeBy meaning (Html.escape (Html.joined o.texts)) =
            Html.joined (o.texts.map (Html.decodeBy meaning))) := by
  refine ⟨?_, ?_, fun hends meaning hmarks => ?_⟩
  · have hattributes : t.attributes = lead.filterMap TagPart.attribute? ++
        ⟨"style".toList, .expression text⟩ :: more.filterMap TagPart.attribute? := by
      rw [attributes, hparts, List.filterMap_append]
      rfl
    rw [attributesHtml, ht.parse_attributeText, hattributes, List.flatMap_append, List.flatMap_cons,
      html_style ho hquiet htext]
  · rw [Html.escape_joined_eq_iff, forall_mem_texts_iff ho]
  · rw [Html.decodeBy_escape hmarks, Html.decodeBy_joined ((forall_mem_texts_iff ho).mpr hends)]

/-- A literal with an ampersand that begins no reference, before another literal. -/
def ruleObject : StyleObject :=
  ⟨[⟨[' '], ⟨"content".toList, [], [' ']⟩, .literal '\'' "a & b".toList, []⟩,
    ⟨[' '], ⟨"color".toList, [], [' ']⟩, .literal '"' "red".toList, [' ']⟩], []⟩

def rule : OpeningTag :=
  ⟨"hr".toList,
    [.named [' '] "style".toList (.expression [] [] ruleObject.written),
      .named [' '] "hidden".toList .absent], [' '], true⟩

theorem groupText_ruleObject : GroupText ruleObject.written := by
  have hcontent : LiteralText '\'' "a & b".toList := .of_plain (by decide)
  have hcolor : LiteralText '"' "red".toList := .of_plain (by decide)
  have hinner : GroupText (" content: ".toList ++ ('\'' :: "a & b".toList ++ '\'' ::
      (", color: ".toList ++ ('"' :: "red".toList ++ '"' :: " ".toList)))) :=
    .plain_append (by decide) (.literal (by decide) hcontent
      (.plain_append (by decide) (.literal (by decide) hcolor (groupText_of_plain (by decide)))))
  exact .group hinner .nil

theorem wellFormed_rule : rule.WellFormed := by
  refine ⟨by decide, List.forall_mem_cons.mpr ⟨?_, List.forall_mem_singleton.mpr ?_⟩, by decide⟩
  · exact ⟨⟨by decide, by decide⟩, by decide, by decide, by decide, groupText_ruleObject⟩
  · exact ⟨⟨by decide, by decide⟩, by decide, trivial⟩

theorem attributesHtml_rule :
    rule.WellFormed ∧ ruleObject.WellFormed ∧ ruleObject.Quiet ∧
      trim ruleObject.written = ruleObject.written ∧
      (∀ p ∈ ruleObject.pairs.dropLast, ¬Html.EndsInReference p.2) ∧
      attributesHtml " style=\x7b\x7b content: 'a & b', color: \"red\" \x7d\x7d hidden ".toList =
        " style=\"content: a &amp; b; color: red\" hidden".toList ∧
      Html.decodeBy Html.tableMeaning (Html.escape (Html.joined ruleObject.texts)) =
        "content: a & b; color: red".toList := by
  have hwell : ruleObject.WellFormed := by decide
  have hquiet : ruleObject.Quiet := quietIn_of_plain hwell.entries (by decide)
  have htrim : trim ruleObject.written = ruleObject.written := by decide
  have hends : ∀ p ∈ ruleObject.pairs.dropLast, ¬Html.EndsInReference p.2 := by decide
  obtain ⟨hhtml, -, hdecode⟩ :=
    @attributesHtml_of_style _ wellFormed_rule _ hwell hquiet [] _ _ _ _ _ htrim rfl
  refine ⟨wellFormed_rule, hwell, hquiet, htrim, hends, hhtml.trans (by decide), ?_⟩
  exact (hdecode hends Html.tableMeaning Html.decodesMarks_tableMeaning).trans (by decide +kernel)

end OpeningTag

def StyleObject.font : StyleObject :=
  ⟨[⟨[' '], ⟨"fontFamily".toList, [], [' ']⟩, .literal '\'' "A&lt".toList, []⟩,
    ⟨[' '], ⟨"color".toList, [], [' ']⟩, .literal '\'' "red".toList, [' ']⟩], []⟩

/-- The semicolon behind the literal completes its reference, and a reader finds no semicolon. -/
theorem attributesHtml_font :
    StyleObject.font.WellFormed ∧ (∀ e ∈ StyleObject.font.entries, e.value.Plain) ∧
      attributesHtml " style=\x7b\x7b fontFamily: 'A&lt', color: 'red' \x7d\x7d".toList =
        " style=\"font-family: A&lt; color: red\"".toList ∧
      Html.joined (StyleObject.font.texts.map Html.escape) =
        "font-family: A&amp;lt; color: red".toList ∧
      Html.decodeBy Html.tableMeaning "font-family: A&lt; color: red".toList =
        "font-family: A< color: red".toList ∧
      Html.escape (Html.joined StyleObject.font.texts) ≠
        Html.joined (StyleObject.font.texts.map Html.escape) := by
  have hwell : StyleObject.font.WellFormed := by decide
  have hplain : ∀ e ∈ StyleObject.font.entries, e.value.Plain := by decide
  have hparse :
      Attribute.parse " style=\x7b\x7b fontFamily: 'A&lt', color: 'red' \x7d\x7d".toList =
        [⟨"style".toList, .expression StyleObject.font.written⟩] := by decide +kernel
  have htrim : trim StyleObject.font.written = StyleObject.font.written := by decide
  have hhtml := html_style hwell (quietIn_of_plain hwell.entries hplain) htrim
  refine ⟨hwell, hplain, ?_, by decide, by decide +kernel, by decide⟩
  rw [attributesHtml, hparse, List.flatMap_singleton, hhtml]
  decide

end StaticPreview.Markup
