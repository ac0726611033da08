import StaticPreview.Text.Raw

/-! # Raw texts that are shown

Where the program reports names and paths it shows them.
-/
namespace StaticPreview.RawText

instance : Coe RawText String := ⟨shown⟩

instance : Coe (List RawText) (List String) := ⟨List.map shown⟩

instance : Coe (List String) (List RawText) := ⟨List.map ofText⟩

end StaticPreview.RawText
