import StaticPreview.Html.Escape
import StaticPreview.Markup.Attribute
import StaticPreview.Markup.Style

/-! # Attributes in HTML

Event handlers are dropped, a style object becomes the text of its declarations, and every other
value is written as escaped text.
-/
namespace StaticPreview.Markup

def htmlName (name : List Char) : List Char :=
  if name = "className".toList then "class".toList
  else if name = "htmlFor".toList then "for".toList
  else name

def isObject (expression : List Char) : Bool :=
  let s := Text.trim expression
  s.head? == some '\x7b' && s.getLast? == some '\x7d'

namespace Attribute

def isHandler (a : Attribute) : Bool :=
  ['o', 'n'].isPrefixOf a.name

def assignment (name value : List Char) : List Char :=
  ' ' :: name ++ '=' :: '"' :: Html.escape value ++ ['"']

def html (a : Attribute) : List Char :=
  if a.isHandler then []
  else
    match a.value with
    | .absent => ' ' :: a.name
    | .literal text => assignment (htmlName a.name) text
    | .expression text =>
      if a.name = "style".toList ∧ isObject text then
        ((inlineStyle? text).map (assignment "style".toList)).getD []
      else assignment (htmlName a.name) text

end Attribute

/-- The text of all attributes, a blank before each, as it stands after the name of a tag. -/
def attributesHtml (s : List Char) : List Char :=
  (Attribute.parse s).flatMap Attribute.html

end StaticPreview.Markup
