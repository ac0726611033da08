import StaticPreview.Conversion
import StaticPreview.Json.Value

/-! # Messages to the pages of a preview

A page is told to reload, or is sent the preview that it should show.
-/
namespace StaticPreview

structure Preview where
  file : Option String
  conversion : Conversion
  deriving DecidableEq, Repr

namespace Server

inductive Message where
  | reload
  | refresh (preview : Preview)
  | connected
  deriving DecidableEq, Repr

end Server

open Json.Value in
def Conversion.fields (c : Conversion) : List (List Char × Json.Value (List Char)) :=
  [field "html" (ofString c.html), field "success" (.boolean c.success)] ++ field? "error" c.error

def Conversion.json (c : Conversion) : Json.Value (List Char) :=
  .object c.fields

open Json.Value in
def Server.Message.json : Server.Message → Json.Value (List Char)
  | .reload => .object [field "type" (ofString "reload")]
  | .refresh p =>
    .object (field "type" (ofString "refresh") :: field "file" (ofOption p.file) ::
      p.conversion.fields)
  | .connected => .object [field "type" (ofString "connected")]

def Server.Message.text (m : Server.Message) : String :=
  .ofList m.json.compact

def Conversion.text (c : Conversion) : String :=
  .ofList c.json.compact

end StaticPreview
