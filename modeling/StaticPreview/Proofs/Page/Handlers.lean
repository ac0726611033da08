import StaticPreview.Proofs.Markup.Handlers
import StaticPreview.Proofs.Page.Root
import StaticPreview.Proofs.Page.Stylesheet

/-! # Event handlers in documents

A document holds the event handlers that are missed in the markup of its component, and no others.
The stylesheet is no part of this, since its text stands in one element.
-/
namespace StaticPreview
open Markup

namespace Page

def beforeSheet (title : List Char) : List Char :=
  "<!DOCTYPE html>
<html lang=\"en\">
<head>
  <meta charset=\"utf-8\">
  <meta name=\"viewport\" content=\"width=device-width, initial-scale=1\">
  <title>".toList ++ Html.escape title ++ "</title>
  <style>".toList

def afterSheet (body : List Char) : List Char :=
  "</style>
</head>
<body>
  <div id=\"root\">".toList ++ body ++ "</div>
</body>
</html>".toList

theorem document_eq_sheet (title body stylesheet : List Char) :
    document title body stylesheet =
      beforeSheet title ++ neutralize stylesheet ++ afterSheet body := by
  unfold document beforeSheet afterSheet
  rw [← List.append_assoc, ← List.append_assoc]

theorem isSuffix_beforeSheet (title : List Char) : "<style>".toList <:+ beforeSheet title := by
  have hend : "</title>\n  <style>".toList = "</title>\n  ".toList ++ "<style>".toList :=
    Text.toList_literal rfl
  unfold beforeSheet
  rw [hend, ← List.append_assoc]
  exact List.suffix_append _ _

theorem exists_afterSheet_eq (body : List Char) :
    ∃ tail, afterSheet body = "</style>".toList ++ tail := by
  have hstart : "</style>\n</head>\n<body>\n  <div id=\"root\">".toList =
      "</style>".toList ++ "\n</head>\n<body>\n  <div id=\"root\">".toList :=
    Text.toList_literal rfl
  unfold afterSheet
  rw [hstart, List.append_assoc, List.append_assoc]
  exact ⟨_, rfl⟩

set_option maxRecDepth 4096 in
theorem hasHandlers_beforeSheet (title : List Char) : Html.HasHandlers (beforeSheet title) [] :=
  ((Html.hasHandlers_literal (by decide +kernel)).append (Html.hasHandlers_escape title)).append
    (Html.hasHandlers_literal (by decide +kernel))

set_option maxRecDepth 4096 in
theorem hasHandlers_unavailableNotice (label : List Char) :
    Html.HasHandlers (unavailableNotice label) [] :=
  ((Html.hasHandlers_literal (by decide +kernel)).append (Html.hasHandlers_escape label)).append
    (Html.hasHandlers_literal (by decide +kernel))

set_option maxRecDepth 4096 in
theorem hasHandlers_failureNotice (label message : List Char) :
    Html.HasHandlers (failureNotice label message) [] :=
  ((((Html.hasHandlers_literal (by decide +kernel)).append (Html.hasHandlers_escape label)).append
    (Html.hasHandlers_literal (by decide +kernel))).append (Html.hasHandlers_escape message)).append
      (Html.hasHandlers_literal (by decide +kernel))

set_option maxRecDepth 4096 in
theorem hasHandlers_afterSheet {body : List Char} {names : List (List Char)}
    (hbody : Html.HasHandlers body names) : Html.HasHandlers (afterSheet body) names := by
  have hstart : Html.HasHandlers "</style>\n</head>\n<body>\n  <div id=\"root\">".toList [] :=
    Html.hasHandlers_literal (by decide +kernel)
  have hend : Html.HasHandlers "</div>\n</body>\n</html>".toList [] :=
    Html.hasHandlers_literal (by decide +kernel)
  have hall := (hstart.append hbody).append hend
  rwa [List.nil_append, List.append_nil] at hall

end Page

namespace Conversion

def attributes (source : List Char) : List Attribute :=
  ((Component.markup? source).map fun markup => attributesOfNodes (Node.parse markup)).getD []

theorem hasHandlers_body {source label body : List Char}
    (h : Conversion.body source label = .ok body) :
    Html.HasHandlers body (missed (attributes source)) := by
  rw [Conversion.body] at h
  split at h
  · cases h
  next markup hmarkup =>
    cases hr : render markup with
    | error e =>
      rw [hr] at h
      cases h
    | ok out =>
      rw [hr] at h
      obtain rfl := Except.ok.inj h
      rw [attributes, hmarkup]
      exact hasHandlers_of_htmlOfNodes_parse hr

/-- The event handlers of a page are those that are missed in the markup, and a failed page has
none. -/
theorem hasHandlers_root (source label stylesheet : List Char) :
    Html.HasHandlers (root label (body source label))
      (if (ofBody label stylesheet (body source label)).success then missed (attributes source)
        else []) := by
  cases h : body source label with
  | ok markup => exact hasHandlers_body h
  | error e =>
    cases e with
    | noMarkup _ => exact Page.hasHandlers_unavailableNotice label
    | anomaly cause => exact Page.hasHandlers_failureNotice label cause.message

theorem attributes?_attributesHtml (raw rest : List Char) :
    ∃ attributes, Html.attributes? (attributesHtml raw ++ '>' :: rest) = some (attributes, rest) ∧
      (attributes.map Prod.fst).filter Html.isHandlerName = missed (Attribute.parse raw) := by
  refine ⟨(emitted raw).map Html.SpelledAttribute.asRead, ?_, ?_⟩
  · rw [attributesHtml_eq, Html.attributes?_written wellFormed_of_mem_emitted]
  · rw [List.map_map, ← filter_emitted]
    rfl

/-- The event handlers of the HTML are those whose names have a capital in one of their first two
letters: those of a text of attributes, and those of the document of a component. -/
theorem handlers_eq_missed (raw rest : List Char) (stylesheet source label : String) :
    (∃ attributes, Html.attributes? (attributesHtml raw ++ '>' :: rest) = some (attributes, rest) ∧
      (attributes.map Prod.fst).filter Html.isHandlerName = missed (Attribute.parse raw)) ∧
    ∃ head tail, (convert stylesheet source label).html.toList =
        head ++ Page.neutralize stylesheet.toList ++ tail ∧
      "<style>".toList <:+ head ∧ "</style>".toList <+: tail ∧
      (∀ lead more, Page.neutralize stylesheet.toList = lead ++ more → more ≠ [] →
        Page.startsWith Page.styleEnd (more ++ tail) = false) ∧
      Html.handlers head = [] ∧
      Html.handlers tail =
        if (convert stylesheet source label).success then missed (attributes source.toList)
        else [] := by
  refine ⟨attributes?_attributesHtml raw rest, ?_⟩
  obtain ⟨title, htitle⟩ := html_ofBody label.toList stylesheet.toList
    (body source.toList label.toList)
  have hroot := hasHandlers_root source.toList label.toList stylesheet.toList
  obtain ⟨tail, htail⟩ :=
    Page.exists_afterSheet_eq (root label.toList (body source.toList label.toList))
  refine ⟨Page.beforeSheet title,
    Page.afterSheet (root label.toList (body source.toList label.toList)), ?_,
    Page.isSuffix_beforeSheet title, ⟨tail, htail.symm⟩, ?_,
    (Page.hasHandlers_beforeSheet title).handlers,
    (Page.hasHandlers_afterSheet hroot).handlers⟩
  · rw [convert, htitle, String.toList_ofList, Page.document_eq_sheet]
  · intro lead more hsheet hmore
    rw [htail]
    exact Page.startsWith_styleEnd_neutralize hsheet hmore _

/-- A handler in capitals stays. -/
theorem handlers_capitals :
    attributesHtml " ONCLICK=\"go()\"".toList = " ONCLICK=\"go()\"".toList ∧
      Html.attributes? (attributesHtml " ONCLICK=\"go()\"".toList ++ ['>']) =
        some ([("onclick".toList, "go()".toList)], []) ∧
      Html.handlers (convert "" "return <a ONCLICK='go()'/>;\x7d" "App.jsx").html.toList =
        ["onclick".toList] := by
  refine ⟨by decide +kernel, by decide +kernel, ?_⟩
  obtain ⟨title, htitle⟩ := html_ofBody "App.jsx".toList []
    (body "return <a ONCLICK='go()'/>;\x7d".toList "App.jsx".toList)
  have hroot := hasHandlers_root "return <a ONCLICK='go()'/>;\x7d".toList "App.jsx".toList []
  have hdocument := (Page.hasHandlers_beforeSheet title).append (Page.hasHandlers_afterSheet hroot)
  have hempty : ("" : String).toList = [] := rfl
  rw [convert, hempty, htitle, String.toList_ofList, Page.document_eq_sheet, Page.neutralize,
    List.append_nil, hdocument.handlers]
  decide +kernel

end Conversion
end StaticPreview
