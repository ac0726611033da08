import Mathlib.Data.List.Basic
import StaticPreview.Proofs.Disk.Action
import StaticPreview.Proofs.Sources.Scan

/-! # What changes no sources

A scan finds the same sources as long as no file with the name of a component is written and no
folder or file goes. Folders that are made, and other files that are written, do not matter,
wherever they are.
-/
namespace StaticPreview
open StaticPreview.Path Disk

/-- A scan takes sources from nothing but the files with names of components. -/
theorem Sources.filterMap_scanned (e : Entry) (path : RawText) :
    (e.filesOfKind isIgnoredFolder isComponentName).filterMap (scanned? path) =
      (e.files isIgnoredFolder).filterMap (scanned? path) := by
  rw [Entry.filesOfKind, List.filterMap_filter]
  refine List.filterMap_congr fun file _ => ?_
  split
  · rfl
  next hkind =>
    refine (Option.eq_none_iff_forall_ne_some.mpr ?_).symm
    rintro ⟨key, text⟩ hscanned
    obtain ⟨⟨init, name, hnames, hname⟩, -⟩ := scanned?_eq_some_iff.mp hscanned
    exact hkind (by simp [hnames, hname])

/-- Whether a name is none of a component. -/
def IsOtherName (name : RawText) : Prop :=
  isComponentName name = false

instance (name : RawText) : Decidable (IsOtherName name) :=
  inferInstanceAs (Decidable (_ = _))

variable {d d' : Disk} {path : RawText}

/-- A file with the name of a component is where it was, and is what it was. -/
theorem Disk.GrownFrom.layout_eq_file_iff (h : d'.GrownFrom IsOtherName d) {init : List RawText}
    {name : RawText} (hname : isComponentName name) {content : Content} :
    d'.layout (init ++ [name]) = .file content ↔ d.layout (init ++ [name]) = .file content := by
  rcases h.layout (init ++ [name]) with hsame | ⟨hnothing, hfolder⟩ |
    ⟨-, other, last, _, hnames, hother, -⟩
  · rw [hsame]
  · simp [hnothing, hfolder]
  · have heq : name = last := List.singleton_inj.mp (List.append_inj' hnames rfl).2
    rw [IsOtherName, ← heq, hname] at hother
    cases hother

/-- Component files neither come nor go nor change when a disk grows by other files. -/
theorem Disk.GrownFrom.entryAt?_eq_file_iff (h : d'.GrownFrom IsOtherName d) (hd : d.WellFormed)
    {names : List RawText} (hfile : isComponentFile (ofNames names)) {content : Content} :
    d'.entryAt? names = some (.file content) ↔ d.entryAt? names = some (.file content) := by
  have hboth {d₁ d₂ : Disk} (hd₁ : d₁.WellFormed)
      (hsame : ∀ {init name}, isComponentName name →
        d₁.layout (init ++ [name]) = .file content → d₂.layout (init ++ [name]) = .file content)
      (hat : d₁.entryAt? names = some (.file content)) :
      d₂.entryAt? names = some (.file content) := by
    have hnames := hd₁.wellNamed_top.isName_of_at? hat
    rcases names.eq_nil_or_concat with rfl | ⟨init, name, rfl⟩
    · exact absurd hfile (by decide)
    · rw [List.concat_eq_append] at hnames hfile hat ⊢
      rw [isComponentFile_ofNames hnames] at hfile
      exact Entry.layout_eq_file_iff.mp (hsame hfile (Entry.layout_eq_file_iff.mpr hat))
  exact ⟨hboth (h.wellFormed hd) fun hname => (h.layout_eq_file_iff hname).mp,
    hboth hd fun hname => (h.layout_eq_file_iff hname).mpr⟩

/-- What a path leads to is found there still. -/
theorem Disk.GrownFrom.find?_eq (h : d'.GrownFrom IsOtherName d) {e : Entry}
    (hfind : d.find? path = some e) :
    ∃ names, d.walk path = .ok names ∧ d.entryAt? names = some e ∧
      d'.find? path = d'.entryAt? names := by
  obtain ⟨names, hwalk, hat⟩ := exists_walk_of_find? hfind
  have hcheck := (Option.ite_none_right_eq_some.mp ((d.find?_eq path).symm.trans hfind)).1
  refine ⟨names, hwalk, hat, ?_⟩
  rw [Disk.find?_eq, if_pos hcheck, h.hasFoldersOf.walk hwalk]
  rfl

/-- A scan that found sources finds the same ones again. -/
theorem Sources.scan_of_grownFrom (hd : d.WellFormed) (h : d'.GrownFrom IsOtherName d)
    {s : Sources} (hscan : scan d path = .ok s) : scan d' path = .ok s := by
  have hd' := h.wellFormed hd
  rw [scan] at hscan
  cases hfind : d.find? path with
  | none => simp [hfind] at hscan
  | some e =>
    obtain ⟨names, hwalk, hat, hfind'⟩ := h.find?_eq hfind
    rw [hfind] at hscan
    cases e with
    | folder es =>
      have hfolder : d.layout names = .folder := Entry.layout_eq_folder_iff.mpr ⟨es, hat⟩
      obtain ⟨es', hat'⟩ : ∃ es', d'.entryAt? names = some (.folder es') :=
        Entry.layout_eq_folder_iff.mp (h.hasFoldersOf.folder names hfolder)
      obtain rfl := Except.ok.inj hscan
      rw [scan, hfind', hat']
      have hsame := h.files hat hat' isIgnoredFolder isComponentName fun name hname => hname
      refine congrArg (fun files => Except.ok (ofList files)) ?_
      rw [← filterMap_scanned, hsame, filterMap_scanned]
    | file content =>
      have hfile : d.layout names = .file content := Entry.layout_eq_file_iff.mpr hat
      obtain ⟨init, name, rfl, -, hname, hlast⟩ :=
        (walk_cases hwalk).resolve_left (by simp [hfile])
      have hcomponent : isComponentFile path = isComponentName name := by
        rw [isComponentFile, fileName?_of_getLast? hname.1 hlast, Option.any_some]
      rw [scan, hfind']
      by_cases hkept : isComponentName name
      · have hat' : d'.entryAt? (init ++ [name]) = some (.file content) :=
          Entry.layout_eq_file_iff.mp ((h.layout_eq_file_iff hkept).mpr hfile)
        rw [hat']
        exact hscan
      · -- The file is no source, so what it holds does not matter.
        obtain ⟨content', hfile'⟩ : ∃ content', d'.layout (init ++ [name]) = .file content' := by
          rcases h.layout (init ++ [name]) with
            hsame | ⟨hnothing, -⟩ | ⟨-, _, _, content', -, -, hnew⟩
          · exact ⟨content, hsame.trans hfile⟩
          · simp [hfile] at hnothing
          · exact ⟨content', hnew⟩
        have hat' : d'.entryAt? (init ++ [name]) = some (.file content') :=
          Entry.layout_eq_file_iff.mp hfile'
        have hnone : isComponentFile path = false := by
          rw [hcomponent]
          simpa using hkept
        rw [hat']
        cases content <;> cases content' <;> simp_all

end StaticPreview
