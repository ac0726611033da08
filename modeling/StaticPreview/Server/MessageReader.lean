import StaticPreview.Json.Record
import StaticPreview.Server.Message

/-! # Reading messages and conversions

The fields of a record may come in any order, but none of them twice. Fields that the record does
not have are passed over. A record may also be an array of its fields in their order.
-/
namespace StaticPreview

open Json

def Conversion.ofParts? (html success error : Option Read) : Option Conversion := do
  return ⟨← html >>= string?, ← success >>= boolean?, ← stringOrNull? error⟩

def Conversion.ofRead? : Read → Option Conversion
  | .object fields => do
    let r ← Record.ofFields? fields
    guard (r.isSingle ["html", "success", "error"])
    Conversion.ofParts? (r.get? "html") (r.get? "success") (r.get? "error")
  | .array [html, success] => Conversion.ofParts? (some html) (some success) none
  | .array [html, success, error] => Conversion.ofParts? (some html) (some success) (some error)
  | _ => none

def Conversion.ofText? (s : String) : Option Conversion :=
  Json.read? s.toList >>= Conversion.ofRead?

namespace Server.Message

def levelLimit : Nat := 128

def ofRecord? (r : Record) : Option Message := do
  guard (r.isSingle ["type"])
  match ← r.get? "type" >>= string? with
  | "reload" => return .reload
  | "connected" => return .connected
  | "refresh" =>
    guard (r.isSingle ["file", "html", "success", "error"])
    let conversion ← Conversion.ofParts? (r.get? "html") (r.get? "success") (r.get? "error")
    return .refresh ⟨← stringOrNull? (r.get? "file"), conversion⟩
  | _ => none

def ofItems? : List Read → Option Message
  | [] => none
  | kind :: parts => do
    match ← string? kind, parts with
    | "reload", [] => return .reload
    | "connected", [] => return .connected
    | "refresh", [file, html, success] =>
      let conversion ← Conversion.ofParts? (some html) (some success) none
      return .refresh ⟨← stringOrNull? (some file), conversion⟩
    | "refresh", [file, html, success, error] =>
      let conversion ← Conversion.ofParts? (some html) (some success) (some error)
      return .refresh ⟨← stringOrNull? (some file), conversion⟩
    | _, _ => none

def ofRead? (v : Read) : Option Message := do
  guard (isKept levelLimit v)
  match v with
  | .object fields => Record.ofFields? fields >>= ofRecord?
  | .array items => ofItems? items
  | _ => none

def ofText? (s : String) : Option Message :=
  Json.read? s.toList >>= ofRead?

end Server.Message
end StaticPreview
