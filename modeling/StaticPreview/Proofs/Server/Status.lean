import StaticPreview.Proofs.Json.Roundtrip
import StaticPreview.Server.MessageReader
import StaticPreview.Server.Routes

/-! # Reading the status

What is known about the preview is read from the text of the status as it was written.
-/
namespace StaticPreview

def Json.strings? : Json.Read → Option (List String)
  | .array items => items.mapM string?
  | _ => none

namespace Server
open Json

structure Status where
  file : Option String
  success : Bool
  error : Option String
  sources : List String
  deriving DecidableEq, Repr

def Status.ofRecord? (r : Record) : Option Status := do
  return ⟨← stringOrNull? (r.get? "file"), ← r.get? "success" >>= boolean?,
    ← stringOrNull? (r.get? "error"), ← r.get? "sources" >>= strings?⟩

def Status.ofRead? : Json.Read → Option Status
  | .object fields => Record.ofFields? fields >>= ofRecord?
  | _ => none

def Status.ofText? (s : String) : Option Status :=
  Json.read? s.toList >>= ofRead?

def State.status (s : State) : Status :=
  ⟨s.current.file, s.current.conversion.success, s.current.conversion.error, s.sources.paths⟩

theorem numberless_statusJson (s : State) : s.statusJson.Numberless := by
  have hpaths (paths : List String) : Value.NumberlessItems (paths.map Value.ofString) := by
    induction paths with
    | nil => trivial
    | cons path more ih => exact ⟨trivial, ih⟩
  have hfile : (Value.ofOption s.current.file).Numberless := by
    cases s.current.file <;> trivial
  rw [State.statusJson]
  cases s.current.conversion.error with
  | none => exact ⟨hfile, trivial, hpaths _, trivial⟩
  | some error => exact ⟨hfile, trivial, trivial, hpaths _, trivial⟩

theorem strings?_map (paths : List String) :
    strings? ((Value.array (paths.map Value.ofString)).map some) = some paths := by
  rw [Value.map, Value.mapItems_eq, strings?, List.map_map]
  exact (mapM_map_eq_some string?_map paths).trans (by rw [List.map_id'])

/-- The status tells of the state. -/
theorem State.ofText?_statusText (s : State) : Status.ofText? s.statusText = some s.status := by
  have hread : Json.read? s.statusText.toList = some (s.statusJson.map some) := by
    rw [statusText, String.toList_ofList, (Value.isText_compact (numberless_statusJson s)).read?]
  have hfile := stringOrNull?_map s.current.file
  have herror (text : String) : stringOrNull? (some ((Value.ofString text).map some)) =
      some (some text) := stringOrNull?_map (some text)
  have hnone : stringOrNull? none = some none := rfl
  have hsuccess : boolean? ((Value.boolean s.current.conversion.success).map some) =
      some s.current.conversion.success := rfl
  have hsources := strings?_map s.sources.paths
  rw [Status.ofText?, hread, statusJson, Value.map, Value.mapFields_eq]
  change Record.ofFields? _ >>= Status.ofRecord? = _
  rw [Record.ofFields?_map]
  change Status.ofRecord? _ = _
  rw [Status.ofRecord?, State.status]
  cases s.current.conversion.error with
  | none =>
    simp [Record.get?, List.lookup_cons, Value.field, Value.field?, hfile, hsuccess, hnone,
      hsources]
  | some error =>
    simp [Record.get?, List.lookup_cons, Value.field, Value.field?, hfile, hsuccess, herror,
      hsources]

end Server
end StaticPreview
