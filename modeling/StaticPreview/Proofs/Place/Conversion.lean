import StaticPreview.Conversion
import StaticPreview.Proofs.Place.Component
import StaticPreview.Proofs.Place.Document
import StaticPreview.Proofs.Place.Render

/-! # Conversions by places

No conversion faults: each part of a text that it asks for is there, and no loop of it runs on.
-/
namespace StaticPreview.Place
open Text

def body (source label : List Char) : Checked (Except ConversionError (List Char)) := do
  match ← findMarkup source with
  | none => return .error (.noMarkup label)
  | some markup => return (← render markup).mapError .anomaly

def ofBody (label stylesheet : List Char) :
    Except ConversionError (List Char) → Checked Conversion
  | .ok body => return ⟨.ofList (← preview body stylesheet), true, none⟩
  | .error e => do
    let page ←
      match e with
      | .noMarkup _ => unavailable label stylesheet
      | .anomaly cause => failure label cause.message stylesheet
    return ⟨.ofList page, false, some (.ofList e.message)⟩

def convert (stylesheet source label : String) : Checked Conversion := do
  ofBody label.toList stylesheet.toList (← body source.toList label.toList)

theorem body_eq (source label : List Char) :
    body source label = .ok (Conversion.body source label) := by
  rw [body, Conversion.body, findMarkup_eq, ok_bind]
  cases Component.markup? source with
  | none => rfl
  | some markup =>
    simp only [render_eq, ok_bind]
    rfl

theorem ofBody_eq (label stylesheet : List Char) (body : Except ConversionError (List Char)) :
    ofBody label stylesheet body = .ok (Conversion.ofBody label stylesheet body) := by
  cases body with
  | ok body =>
    rw [ofBody, preview_eq]
    rfl
  | error e =>
    cases e with
    | noMarkup file =>
      simp only [ofBody, unavailable_eq, ok_bind]
      rfl
    | anomaly cause =>
      simp only [ofBody, failure_eq, ok_bind]
      rfl

/-- Every conversion by places comes to its end, whatever the source, the label and the
stylesheet, with the result of the conversion. So each part that it takes is one of those that
`isOk_slice_iff` allows, and it never takes more from a number than there is. -/
theorem convert_eq_ok (stylesheet source label : String) :
    convert stylesheet source label = .ok (Conversion.convert stylesheet source label) := by
  rw [convert, body_eq, ok_bind, ofBody_eq, Conversion.convert]

end StaticPreview.Place
