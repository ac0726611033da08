import StaticPreview.Proofs.Json.Roundtrip
import StaticPreview.Site.Manifest

/-! # Reading the manifest

The entries of a manifest are read from its text as they were written, in their order.
-/
namespace StaticPreview.Site
open Json

def PageEntry.ofRecord? (r : Record) : Option PageEntry := do
  return ⟨← r.get? "source" >>= string?, ← r.get? "output" >>= string?,
    ← r.get? "success" >>= boolean?, ← stringOrNull? (r.get? "error")⟩

def PageEntry.ofRead? : Json.Read → Option PageEntry
  | .object fields => Record.ofFields? fields >>= ofRecord?
  | _ => none

/-- The entries that a text is the manifest of. -/
def entries? (s : String) : Option (List PageEntry) :=
  match Json.read? s.toList with
  | some (.array items) => items.mapM PageEntry.ofRead?
  | _ => none

theorem PageEntry.ofRead?_json (e : PageEntry) : ofRead? (e.json.map some) = some e := by
  have hstring (s : String) : string? ((Value.ofString s).map some) = some s := string?_map s
  have hsuccess : boolean? ((Value.boolean e.success).map some) = some e.success := rfl
  have herror (text : String) : stringOrNull? (some ((Value.ofString text).map some)) =
      some (some text) := stringOrNull?_map (some text)
  have hnone : stringOrNull? none = some none := rfl
  rw [json, Value.map, Value.mapFields_eq, ofRead?, Record.ofFields?_map, Option.bind_eq_bind,
    Option.bind_some]
  obtain ⟨source, output, success, error⟩ := e
  cases error <;>
    simp [ofRecord?, Record.get?, List.lookup_cons, Value.field, Value.field?, hstring, hsuccess,
      herror, hnone]

theorem numberless_json (e : PageEntry) : e.json.Numberless := by
  rw [PageEntry.json]
  cases e.error with
  | none => exact ⟨trivial, trivial, trivial, trivial⟩
  | some error => exact ⟨trivial, trivial, trivial, trivial, trivial⟩

/-- The manifest tells of the entries that it is written for. -/
theorem entries?_manifestText (entries : List PageEntry) :
    entries? (manifestText entries) = some entries := by
  have hnumberless : (Value.array (entries.map PageEntry.json)).Numberless := by
    induction entries with
    | nil => trivial
    | cons e more ih => exact ⟨numberless_json e, ih⟩
  rw [entries?, manifestText, String.toList_ofList, (Value.isText_pretty hnumberless 0).read?,
    Value.map, Value.mapItems_eq, List.map_map]
  exact (mapM_map_eq_some PageEntry.ofRead?_json entries).trans (by rw [List.map_id'])

end StaticPreview.Site
