import StaticPreview.Proofs.Markup.Balanced

/-! # The root of a document

What a document shows stands inside the element with the identifier `root`: rendered markup or a
notice. It is balanced in either case, so no source, label or stylesheet closes that element.
-/
namespace StaticPreview
open Markup

namespace Page

/-- A document ends with its root. -/
theorem document_eq (title body stylesheet : List Char) :
    ∃ head, document title body stylesheet =
      head ++ "<div id=\"root\">".toList ++ body ++ "</div>\n</body>\n</html>".toList := by
  have hroot : "</style>\n</head>\n<body>\n  <div id=\"root\">".toList =
      "</style>\n</head>\n<body>\n  ".toList ++ "<div id=\"root\">".toList :=
    Text.toList_literal rfl
  unfold document
  rw [hroot, ← List.append_assoc _ "</style>\n</head>\n<body>\n  ".toList]
  exact ⟨_, rfl⟩

private theorem encloses_plainTags (name : String)
    (hname : IsTagName name.toList ∧ isVoid name.toList = false) :
    Encloses (openingTag name.toList []) (closingTag name.toList) :=
  encloses_tags name.toList [] hname .nil

private theorem encloses_notice (kind : String) :
    Encloses (openingTag "div".toList (Attribute.assignment "class".toList kind.toList))
      (closingTag "div".toList) :=
  encloses_tags "div".toList _ (by decide) (safeAttributes_assignment (by decide) _)

/-- A run of plain text, given as a literal and used as its characters. -/
private theorem balanced_plain (run : String) {s : List Char} (_ : .ofList s = run)
    (h : ∀ c ∈ s, Html.isMarkupChar c = false ∧ c ≠ '&') : Balanced s := by
  have hsafe : Html.Safe (s ++ []) := .append_of_plain h trivial
  exact .of_safe (by simpa using hsafe)

set_option maxRecDepth 4096 in
theorem balanced_unavailableNotice (label : List Char) : Balanced (unavailableNotice label) := by
  have hheading := encloses_plainTags "h1" (by decide) _
    (balanced_plain "Preview unavailable" rfl (by decide))
  have hexample := encloses_plainTags "code" (by decide)
    "return (&lt;div&gt;...&lt;/div&gt;);".toList (.of_safe (by decide))
  have hadvice := encloses_plainTags "p" (by decide) _ ((balanced_plain
    "Write the component with a single JSX return at the end of its function, such as "
    rfl (by decide)).append hexample)
  have hbefore := ((balanced_plain "\n  " rfl (by decide)).append hheading).append
    (balanced_plain "\n  " rfl (by decide))
  have hafter := ((balanced_plain "\n  " rfl (by decide)).append hadvice).append
    (balanced_plain "\n" rfl (by decide))
  have hlabel := (encloses_plainTags "p" (by decide)).comp <| (Balanced.nil.encloses
    (balanced_plain " has no previewable markup." rfl (by decide))).comp <|
      encloses_plainTags "code" (by decide)
  have h := (encloses_notice "sf-notice").comp <| (hbefore.encloses hafter).comp hlabel
  exact h.congr (Text.toList_literal rfl)
    (Text.toList_literal rfl) _ (.of_safe (Html.safe_escape label))

theorem balanced_failureNotice (label message : List Char) :
    Balanced (failureNotice label message) := by
  have hheading := encloses_plainTags "h1" (by decide) _
    (balanced_plain "Preview failed" rfl (by decide))
  have hfile := (encloses_plainTags "p" (by decide)).comp <| ((balanced_plain "Could not convert "
    rfl (by decide)).encloses (balanced_plain "." rfl (by decide))).comp <|
      encloses_plainTags "code" (by decide)
  have hbefore := ((balanced_plain "\n  " rfl (by decide)).append hheading).append
    (balanced_plain "\n  " rfl (by decide))
  have hlabel := (hbefore.encloses (balanced_plain "\n  " rfl (by decide))).comp hfile
  have hmessage := (Balanced.nil.encloses (balanced_plain "\n" rfl (by decide))).comp
    (encloses_plainTags "pre" (by decide))
  exact (encloses_notice "sf-notice sf-error").both hlabel hmessage
    (Text.toList_literal rfl) (Text.toList_literal rfl)
    (Text.toList_literal rfl) (.of_safe (Html.safe_escape label))
    (.of_safe (Html.safe_escape message))

end Page

namespace Conversion

/-- What is shown at the root: the rendered markup, or a notice about the file. -/
def root (label : List Char) : Except ConversionError (List Char) → List Char
  | .ok body => body
  | .error (.noMarkup _) => Page.unavailableNotice label
  | .error (.anomaly cause) => Page.failureNotice label cause.message

theorem balanced_body {source label body : List Char}
    (h : Conversion.body source label = .ok body) : Balanced body := by
  unfold Conversion.body at h
  split at h
  · simp at h
  next markup _ =>
    cases hr : render markup with
    | error e =>
      rw [hr] at h
      cases h
    | ok out =>
      rw [hr] at h
      obtain rfl := Except.ok.inj h
      exact balanced_of_htmlOfNodes_parse hr

theorem balanced_root (source label : List Char) : Balanced (root label (body source label)) := by
  cases h : body source label with
  | ok markup => exact balanced_body h
  | error e =>
    cases e with
    | noMarkup _ => exact Page.balanced_unavailableNotice label
    | anomaly cause => exact Page.balanced_failureNotice label cause.message

theorem html_ofBody (label stylesheet : List Char) (result : Except ConversionError (List Char)) :
    ∃ title, (ofBody label stylesheet result).html =
      .ofList (Page.document title (root label result) stylesheet) := by
  cases result with
  | ok markup => exact ⟨_, rfl⟩
  | error e => cases e <;> exact ⟨_, rfl⟩

theorem success_ofBody (label stylesheet : List Char)
    (result : Except ConversionError (List Char)) :
    (ofBody label stylesheet result).success = false ↔
      (ofBody label stylesheet result).error.isSome := by
  cases result <;> simp [ofBody]

/-- Every conversion shows balanced markup at the root of its document, and it has an error
exactly when it has no success. -/
theorem convert_root_balanced (stylesheet source label : String) :
    (∃ head, (convert stylesheet source label).html.toList =
      head ++ "<div id=\"root\">".toList ++ root label.toList (body source.toList label.toList) ++
        "</div>\n</body>\n</html>".toList) ∧
    Balanced (root label.toList (body source.toList label.toList)) ∧
    ((convert stylesheet source label).success = false ↔
      (convert stylesheet source label).error.isSome) := by
  obtain ⟨title, htitle⟩ := html_ofBody label.toList stylesheet.toList
    (body source.toList label.toList)
  refine ⟨?_, balanced_root _ _, success_ofBody _ _ _⟩
  obtain ⟨head, hhead⟩ := Page.document_eq title
    (root label.toList (body source.toList label.toList)) stylesheet.toList
  exact ⟨head, by rw [convert, htitle, String.toList_ofList, hhead]⟩

end Conversion
end StaticPreview
