import StaticPreview.Proofs.Html.Elements
import StaticPreview.Proofs.Page.Handlers

/-! # Names on notices

The page of a file without markup shows the name of the file, and the page of a failure shows a
message as well. Each of them is the text of an element of its own.
-/
namespace StaticPreview.Page
open Html

/-- A page whose stylesheet stands in one element of its own, between `head` and `tail`. -/
structure SheetBetween (page sheet head tail : List Char) : Prop where
  page_eq : page = head ++ neutralize sheet ++ tail
  opened : "<style>".toList <:+ head
  closed : "</style>".toList <+: tail
  /-- Nothing closes that element before its end. -/
  startsWith_styleEnd : ∀ lead more, neutralize sheet = lead ++ more → more ≠ [] →
    startsWith styleEnd (more ++ tail) = false

theorem sheetBetween_document (title body sheet : List Char) :
    SheetBetween (document title body sheet) sheet (beforeSheet title) (afterSheet body) := by
  obtain ⟨tail, htail⟩ := exists_afterSheet_eq body
  refine ⟨document_eq_sheet title body sheet, isSuffix_beforeSheet title, ⟨tail, htail.symm⟩, ?_⟩
  intro lead more hsheet hmore
  rw [htail]
  exact startsWith_styleEnd_neutralize hsheet hmore _

/-- Elements that stand in the body of a page only. -/
def bodyElements : List String :=
  ["code", "pre", "li"]

section
variable {name : String}

set_option maxRecDepth 4096 in
theorem skips_beforeSheet (hname : name ∈ bodyElements) (title : List Char) :
    Skips (Tag.opens name) (beforeSheet title) := by
  refine ((skips_literal ?_).append (skips_escape title)).append (skips_literal ?_)
  · revert name
    decide +kernel
  · revert name
    decide +kernel

/-- What stands around the body. -/
theorem exists_skips_afterSheet (hname : name ∈ bodyElements) (body : List Char) :
    ∃ before after, afterSheet body = before ++ body ++ after ∧
      Skips (Tag.opens name) before ∧ Skips (Tag.opens name) after := by
  refine ⟨_, _, rfl, skips_literal ?_, skips_literal ?_⟩
  · revert name
    decide +kernel
  · revert name
    decide +kernel

theorem texts_afterSheet (hname : name ∈ bodyElements) {body : List Char}
    {found : List (List Char)} (h : ∀ after, texts (Tag.opens name) (body ++ after) =
      found ++ texts (Tag.opens name) after) :
    texts (Tag.opens name) (afterSheet body) = found := by
  obtain ⟨before, after, heq, hbefore, hafter⟩ := exists_skips_afterSheet hname body
  rw [heq, List.append_assoc, hbefore.texts_append, h, hafter.texts_eq, List.append_nil]

/-- The way of writing a component that the page of a file without markup recommends. -/
def advice : List Char :=
  "return (<div>...</div>);".toList

def unavailableLead : List Char :=
  "<div class=\"sf-notice\">\n  <h1>Preview unavailable</h1>\n  <p>".toList

def adviceLead : List Char :=
  " has no previewable markup.</p>\n  <p>Write the component with a single JSX return ".toList ++
    "at the end of its function, such as ".toList

def failureLead : List Char :=
  "<div class=\"sf-notice sf-error\">\n  <h1>Preview failed</h1>\n  <p>Could not convert ".toList

set_option maxRecDepth 4096 in
theorem unavailableNotice_eq (label : List Char) :
    unavailableNotice label = unavailableLead ++ (shown "code" label ++
      (adviceLead ++ (shown "code" advice ++ "</p>\n</div>".toList))) := by
  unfold unavailableNotice shown unavailableLead adviceLead advice
  rw [String.toList_ofList, String.toList_ofList, String.toList_ofList, String.toList_ofList,
    String.toList_ofList]
  simp only [List.append_assoc]
  rfl

theorem failureNotice_eq (label message : List Char) :
    failureNotice label message = failureLead ++ (shown "code" label ++
      (".</p>\n  ".toList ++ (shown "pre" message ++ "\n</div>".toList))) := by
  unfold failureNotice shown failureLead
  rw [String.toList_ofList, String.toList_ofList, String.toList_ofList, String.toList_ofList]
  simp only [List.append_assoc]
  rfl

theorem skips_unavailableLead : Skips (Tag.opens "code") unavailableLead :=
  skips_literal (by decide +kernel)

set_option maxRecDepth 4096 in
theorem skips_adviceLead : Skips (Tag.opens "code") adviceLead :=
  (skips_literal (by decide +kernel)).append (skips_literal (by decide +kernel))

theorem skips_failureLead (hname : name ∈ bodyElements) : Skips (Tag.opens name) failureLead := by
  apply skips_literal
  revert name
  decide +kernel

theorem texts_unavailableNotice (label b : List Char) :
    texts (Tag.opens "code") (unavailableNotice label ++ b) =
      [escape label, escape advice] ++ texts (Tag.opens "code") b := by
  have hafter : Skips (Tag.opens "code") "</p>\n</div>".toList := skips_literal (by decide +kernel)
  simp only [unavailableNotice_eq, List.append_assoc]
  rw [skips_unavailableLead.texts_append, texts_shown (by decide), skips_adviceLead.texts_append,
    texts_shown (by decide), hafter.texts_append]
  rfl

theorem texts_failureNotice (label message b : List Char) :
    texts (Tag.opens "code") (failureNotice label message ++ b) =
        [escape label] ++ texts (Tag.opens "code") b ∧
      texts (Tag.opens "pre") (failureNotice label message ++ b) =
        [escape message] ++ texts (Tag.opens "pre") b := by
  have hbetween : Tagged ".</p>\n  ".toList [.closing "p".toList] :=
    tagged_literal (by decide +kernel)
  have hafter : Tagged "\n</div>".toList [.closing "div".toList] :=
    tagged_literal (by decide +kernel)
  simp only [failureNotice_eq, List.append_assoc]
  constructor
  · rw [(skips_failureLead (by decide)).texts_append, texts_shown (by decide),
      texts_append hbetween rfl, (skips_shown (by decide) (by decide) message).texts_append,
      texts_append hafter rfl]
    rfl
  · rw [(skips_failureLead (by decide)).texts_append,
      (skips_shown (by decide) (by decide) label).texts_append, texts_append hbetween rfl,
      texts_shown (by decide), texts_append hafter rfl]
    rfl

/-- The file is named first, before the advice. -/
theorem texts_unavailable (label : List Char) :
    texts (Tag.opens "code") (afterSheet (unavailableNotice label)) =
      [escape label, escape advice] :=
  texts_afterSheet (by decide) (texts_unavailableNotice label)

/-- The page of a failure holds the label and the message, each in one element of its own. -/
theorem texts_failure (label message : List Char) :
    texts (Tag.opens "code") (afterSheet (failureNotice label message)) = [escape label] ∧
      texts (Tag.opens "pre") (afterSheet (failureNotice label message)) = [escape message] :=
  ⟨texts_afterSheet (by decide) fun b => (texts_failureNotice label message b).1,
    texts_afterSheet (by decide) fun b => (texts_failureNotice label message b).2⟩

end

end StaticPreview.Page
