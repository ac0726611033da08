import StaticPreview.Json.Reader

/-! # Records of JSON

The fields of a record may come in any order.
-/
namespace StaticPreview.Json

structure Record where
  fields : List (List Char × Read)

namespace Record

def ofFields? (fields : List (Option (List Char) × Read)) : Option Record :=
  (fields.mapM fun (f : Option (List Char) × Read) => f.1.map fun name => (name, f.2)).map mk

def isSingle (r : Record) (names : List String) : Bool :=
  names.all fun name => (r.fields.filter fun f => f.1 == name.toList).length ≤ 1

def get? (r : Record) (name : String) : Option Read :=
  r.fields.lookup name.toList

end Record

def string? : Read → Option String
  | .string (some s) => some (.ofList s)
  | _ => none

def boolean? : Read → Option Bool
  | .boolean b => some b
  | _ => none

def stringOrNull? : Option Read → Option (Option String)
  | none => some none
  | some .null => some none
  | some v => (string? v).map some

end StaticPreview.Json
