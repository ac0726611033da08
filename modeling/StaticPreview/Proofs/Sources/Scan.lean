import StaticPreview.Proofs.Disk.Reading
import StaticPreview.Proofs.Sources.Texts

/-! # What a scan takes from a file

A scan takes the text of a component file, if it can be read, under the names below the folder as
they are shown. It takes nothing from any other file.
-/
namespace StaticPreview
open StaticPreview.Path Disk

theorem isComponentFile_ofNames {init : List RawText} {last : RawText}
    (h : ∀ name ∈ init ++ [last], IsName name) :
    isComponentFile (ofNames (init ++ [last])) = isComponentName last := by
  rw [isComponentFile, fileName?_ofNames h, Option.any_some]

namespace Sources

/-- What a scan of a folder holds under a logical path, which is nothing if there is no folder. -/
def scannedAt (d : Disk) (folder : RawText) (key : String) : Option String :=
  (scan d folder).toOption.bind fun s => s.get? key

variable {d : Disk} {folder names : List RawText} {path : RawText}

theorem foldl_join_ofNames (h : ∀ name ∈ folder ++ names, IsName name) :
    names.foldl Path.join (ofNames folder) = ofNames (folder ++ names) := by
  induction names generalizing folder with
  | nil => rw [List.append_nil]; rfl
  | cons name rest ih =>
    have hfolder := (List.forall_mem_append.mp h).1
    have hrest : ∀ other ∈ (folder ++ [name]) ++ rest, IsName other := by simpa using h
    rw [List.foldl_cons, join_ofNames (h name (by simp)) hfolder, ih hrest, List.append_assoc,
      List.singleton_append]

/-- A file becomes a source if its name is that of a component and it can be read as text. -/
theorem scanned?_eq_some_iff {content : Content} {key text : String} :
    scanned? path (names, content) = some (key, text) ↔
      (∃ init name, names = init ++ [name] ∧ isComponentName name) ∧
        (checkPath (names.foldl Path.join path)).isOk ∧ content = .text text ∧
          key = slashed names := by
  rcases names.eq_nil_or_concat with rfl | ⟨init, last, rfl⟩
  · simp [scanned?]
  · rw [List.concat_eq_append, scanned?, List.getLast?_concat]
    cases content with
    | bytes b => simp
    | text s =>
      rw [Option.ite_none_right_eq_some, Bool.and_eq_true, Option.some.injEq, Prod.mk.injEq]
      constructor
      · rintro ⟨⟨hname, hcheck⟩, rfl, rfl⟩
        exact ⟨⟨init, last, rfl, hname⟩, hcheck, rfl, rfl⟩
      · rintro ⟨⟨init', name, hnames, hname⟩, hcheck, htext, rfl⟩
        obtain rfl : last = name := List.singleton_inj.mp (List.append_inj' hnames rfl).2
        exact ⟨⟨hname, hcheck⟩, rfl, Content.text.inj htext⟩

theorem exists_find?_of_scan {s : Sources} (h : scan d path = .ok s) :
    ∃ e, d.find? path = some e := by
  cases hfind : d.find? path with
  | none => simp [scan, hfind] at h
  | some e => exact ⟨e, rfl⟩

end Sources
end StaticPreview
