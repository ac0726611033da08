import StaticPreview.Component.Operand
import StaticPreview.Markup.Render
import StaticPreview.Page.Document

/-! # Converting a component file

Every file has a document. One that cannot be shown has a notice in it, and says why.
-/
namespace StaticPreview

inductive ConversionError where
  | noMarkup (label : List Char)
  | anomaly (cause : Markup.Anomaly)
  deriving DecidableEq, Repr

def ConversionError.message : ConversionError → List Char
  | noMarkup label => "No single JSX return statement found in ".toList ++ label
  | anomaly cause => "Conversion anomaly: ".toList ++ cause.message

structure Conversion where
  html : String
  success : Bool
  error : Option String
  deriving DecidableEq, Repr

namespace Conversion

def body (source label : List Char) : Except ConversionError (List Char) :=
  match Component.markup? source with
  | none => .error (.noMarkup label)
  | some markup => (Markup.render markup).mapError .anomaly

def ofBody (label stylesheet : List Char) : Except ConversionError (List Char) → Conversion
  | .ok body => ⟨.ofList (Page.preview body stylesheet), true, none⟩
  | .error e =>
    let page :=
      match e with
      | .noMarkup _ => Page.unavailable label stylesheet
      | .anomaly cause => Page.failure label cause.message stylesheet
    ⟨.ofList page, false, some (.ofList e.message)⟩

def convert (stylesheet source label : String) : Conversion :=
  ofBody label.toList stylesheet.toList (body source.toList label.toList)

end Conversion
end StaticPreview
