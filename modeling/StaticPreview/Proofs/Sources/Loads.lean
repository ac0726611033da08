import StaticPreview.Proofs.Path.Under
import StaticPreview.Proofs.Sources.Scan

/-! # The files that a scan loads

Each file that a scan takes for a source has a logical path: its path as the scan spells it, without
the folder, which is spelled in the same way. Files have one logical path if their names are shown
alike. Of these the scan loads the one that it comes to last, so that a logical path leads to one
file.
-/
namespace StaticPreview.Sources
open StaticPreview.Path Disk

/-- Whether a scan of `path` takes a text under a logical path from the file that names lead to
from `path`. -/
inductive Takes (d : Disk) (path : RawText) : List RawText → String → String → Prop
  | below {es : List (RawText × Entry)} {names : List RawText} {content : Content}
      {key text : String} (hfind : d.find? path = some (.folder es))
      (hfile : (names, content) ∈ (Entry.folder es).files isIgnoredFolder)
      (hscanned : scanned? path (names, content) = some (key, text)) : Takes d path names key text
  | alone {text : String} (hfind : d.find? path = some (.file (.text text)))
      (hcomponent : isComponentFile path) : Takes d path [] "" text

/-- Whether it is the text that the scan loads: the last one that it takes under the logical
path. -/
inductive Loads (d : Disk) (path : RawText) : List RawText → String → String → Prop
  | below {es : List (RawText × Entry)} {names : List RawText} {content : Content}
      {key text : String} (hfind : d.find? path = some (.folder es))
      (hscanned : scanned? path (names, content) = some (key, text))
      (hlast : IsLast (fun file => ∃ text, scanned? path file = some (key, text))
        ((Entry.folder es).files isIgnoredFolder) (names, content)) : Loads d path names key text
  | alone {text : String} (hfind : d.find? path = some (.file (.text text)))
      (hcomponent : isComponentFile path) : Loads d path [] "" text

variable {d : Disk} {path : RawText} {key text : String} {names : List RawText} {s : Sources}

theorem Takes.key_eq (h : Takes d path names key text) : key = slashed names := by
  cases h with
  | below _ _ hscanned => exact (scanned?_eq_some_iff.mp hscanned).2.2.2
  | alone _ _ => rfl

theorem Takes.exists_find? (h : Takes d path names key text) : ∃ e, d.find? path = some e := by
  cases h with
  | below hfind _ _ => exact ⟨_, hfind⟩
  | alone hfind _ => exact ⟨_, hfind⟩

/-- What a scan loads is among what it takes. -/
theorem Loads.takes (h : Loads d path names key text) : Takes d path names key text := by
  cases h with
  | below hfind hscanned hlast => exact .below hfind hlast.mem hscanned
  | alone hfind hcomponent => exact .alone hfind hcomponent

theorem Takes.exists_loads (h : Takes d path names key text) :
    ∃ names' text', Loads d path names' key text' := by
  cases h with
  | below hfind hfile hscanned =>
    obtain ⟨⟨names', content⟩, hlast⟩ :=
      exists_isLast (p := fun file => ∃ text, scanned? path file = some (key, text)) hfile
        ⟨text, hscanned⟩
    obtain ⟨text', hscanned'⟩ := hlast.1
    exact ⟨names', text', .below hfind hscanned' hlast⟩
  | alone hfind hcomponent => exact ⟨[], text, .alone hfind hcomponent⟩

/-- What a scan holds is what it loads. -/
theorem get?_scan_iff (h : scan d path = .ok s) :
    s.get? key = some text ↔ ∃ names, Loads d path names key text := by
  rw [scan] at h
  cases hfind : d.find? path with
  | none => simp [hfind] at h
  | some e =>
    rw [hfind] at h
    cases e with
    | folder es =>
      obtain rfl := Except.ok.inj h
      rw [get?_ofList_filterMap_iff]
      constructor
      · rintro ⟨⟨names, content⟩, hscanned, hlast⟩
        exact ⟨names, .below hfind hscanned hlast⟩
      · rintro ⟨names, hloads⟩
        cases hloads with
        | below hfind' hscanned hlast =>
          obtain rfl := Entry.folder.inj (Option.some.inj (hfind.symm.trans hfind'))
          exact ⟨_, hscanned, hlast⟩
        | alone hfind' _ => simp [hfind] at hfind'
    | file content =>
      have hloads : (∃ names, Loads d path names key text) ↔
          key = "" ∧ content = .text text ∧ isComponentFile path := by
        constructor
        · rintro ⟨names, hloads⟩
          cases hloads with
          | below hfind' _ _ => simp [hfind] at hfind'
          | alone hfind' hcomponent => exact ⟨rfl, by simpa [hfind] using hfind', hcomponent⟩
        · rintro ⟨rfl, rfl, hcomponent⟩
          exact ⟨[], .alone hfind hcomponent⟩
      rw [hloads]
      cases content with
      | text only =>
        obtain rfl := Except.ok.inj h
        split
        next hcomponent => simp [get?_insert, get?_empty, hcomponent, eq_comm]
        next hcomponent => simp [get?_empty, hcomponent]
      | bytes b =>
        obtain rfl := Except.ok.inj h
        simp [get?_empty]

section
variable (hwell : d.top.WellNamed)
include hwell

/-- A file that is taken is where the names lead to from the folder. -/
theorem Takes.entryAt? {folder : List RawText} (h : Takes d path names key text)
    (hwalk : d.walk path = .ok folder) :
    d.entryAt? (folder ++ names) = some (.file (.text text)) := by
  obtain ⟨e, hfind⟩ := h.exists_find?
  obtain ⟨folder', hwalk', hat⟩ := exists_walk_of_find? hfind
  obtain rfl := Except.ok.inj (hwalk'.symm.trans hwalk)
  rw [entryAt?_append, hat, Option.bind_some]
  cases h with
  | below hfind' hfile hscanned =>
    obtain rfl := Option.some.inj (hfind.symm.trans hfind')
    obtain ⟨-, -, rfl, -⟩ := scanned?_eq_some_iff.mp hscanned
    exact ((Entry.mem_files (hwell.of_at? hat).2).mp hfile).1
  | alone hfind' _ =>
    obtain rfl := Option.some.inj (hfind.symm.trans hfind')
    rfl

theorem Takes.isName (h : Takes d path names key text) : ∀ name ∈ names, IsName name := by
  obtain ⟨e, hfind⟩ := h.exists_find?
  obtain ⟨folder, hwalk, -⟩ := exists_walk_of_find? hfind
  have hat := h.entryAt? hwell hwalk
  exact (List.forall_mem_append.mp (hwell.isName_of_at? hat)).2

theorem Takes.text_inj {key' text' : String} (h : Takes d path names key text)
    (h' : Takes d path names key' text') : text = text' := by
  obtain ⟨e, hfind⟩ := h.exists_find?
  obtain ⟨folder, hwalk, -⟩ := exists_walk_of_find? hfind
  have hsame := (h.entryAt? hwell hwalk).symm.trans (h'.entryAt? hwell hwalk)
  exact Content.text.inj (Entry.file.inj (Option.some.inj hsame))

/-- Whether no other file that a scan takes has the logical path of names. -/
def TakesAlone (d : Disk) (path : RawText) (names : List RawText) : Prop :=
  ∀ other text, Takes d path other (slashed names) text → other = names

theorem takesAlone_of_whole (hnames : ∀ name ∈ names, IsName name)
    (hwhole : ∀ name ∈ names, '\uFFFD' ∉ name.shown.toList) : TakesAlone d path names :=
  fun _ _ h => eq_of_map_shown_eq hwhole
    ((slashed_eq_iff (h.isName hwell) hnames).mp h.key_eq.symm)

/-- A scan holds the text of a file that shares its logical path with no other one. -/
theorem get?_scan_iff_of_alone (hscan : scan d path = .ok s) (hone : TakesAlone d path names) :
    s.get? (slashed names) = some text ↔ Takes d path names (slashed names) text := by
  rw [get?_scan_iff hscan]
  constructor
  · rintro ⟨names', hloads⟩
    obtain rfl := hone names' text hloads.takes
    exact hloads.takes
  · intro h
    obtain ⟨names', text', hloads⟩ := h.exists_loads
    obtain rfl := hone names' text' hloads.takes
    obtain rfl := h.text_inj hwell hloads.takes
    exact ⟨names', hloads⟩

/-- The logical path of a source that a scan finds is a path of names that are shown. -/
theorem exists_names_of_scan (hscan : scan d path = .ok s) (hkey : key ∈ s.paths) :
    ∃ names, (∀ name ∈ names, IsName name) ∧ key = slashed names := by
  obtain ⟨text, hkey⟩ := Option.isSome_iff_exists.mp ((s.mem_paths_iff key).mp hkey)
  obtain ⟨names, hloads⟩ := (get?_scan_iff hscan).mp hkey
  exact ⟨names, hloads.takes.isName hwell, hloads.takes.key_eq⟩

end

theorem components_foldl_join {folder : RawText} (hne : folder ≠ "")
    (hnames : ∀ name ∈ names, IsName name) :
    components (names.foldl Path.join folder) = components folder ++ names.map .name := by
  induction names generalizing folder with
  | nil => rw [List.map_nil, List.append_nil]; rfl
  | cons name more ih =>
    obtain ⟨hname, hmore⟩ := List.forall_mem_cons.mp hnames
    have hcomponents := components_join hne hname
    have hne' : Path.join folder name ≠ "" := by
      intro hempty
      rw [hempty] at hcomponents
      have hnil : components "" = [] := rfl
      simp [hnil] at hcomponents
    rw [List.foldl_cons, ih hne' hmore, hcomponents, List.append_assoc]
    rfl

theorem logical_foldl_join {folder : RawText} (hne : folder ≠ "")
    (hnames : ∀ name ∈ names, IsName name) :
    Path.logical folder (names.foldl Path.join folder) = slashed names := by
  have hbelow : below? folder (names.foldl Path.join folder) = some (names.map .name) := by
    rw [below?, components_foldl_join hne hnames, Text.after?_eq_some_iff]
  rw [Path.logical, hbelow, Option.getD_some, List.map_map]
  congr 1
  exact List.map_id'' (fun _ => rfl) names

theorem ne_empty_of_find? {e : Entry} (h : d.find? path = some e) : path ≠ "" := by
  rintro rfl
  cases h

/-- The logical path of a file is its path without the folder, as both are spelled in the scan. -/
theorem Takes.logical_foldl_join (hwell : d.top.WellNamed) (h : Takes d path names key text) :
    Path.logical path (names.foldl Path.join path) = key := by
  obtain ⟨e, hfind⟩ := h.exists_find?
  rw [Sources.logical_foldl_join (ne_empty_of_find? hfind) (h.isName hwell), h.key_eq]

/-- A scan of a folder without idle components takes a component file that can be read and that no
folder hides. -/
theorem takes_ofNames_iff (hd : d.WellFormed) {folder : List RawText}
    (h : ∀ name ∈ folder ++ names, IsName name) (hne : names ≠ []) :
    Takes d (ofNames folder) names (slashed names) text ↔
      (isComponentFile (ofNames (folder ++ names)) ∧
          ∀ name ∈ names.dropLast, isIgnoredFolder name = false) ∧
        (d.read (ofNames (folder ++ names))).toOption = some text := by
  have hfolder := (List.forall_mem_append.mp h).1
  have hcomponent : isComponentFile (ofNames (folder ++ names)) ↔
      ∃ init name, names = init ++ [name] ∧ isComponentName name := by
    obtain ⟨init, last, rfl⟩ := (names.eq_nil_or_concat).resolve_left hne
    rw [List.concat_eq_append, ← List.append_assoc] at *
    rw [isComponentFile_ofNames h]
    constructor
    · intro hname
      exact ⟨init, last, rfl, hname⟩
    · rintro ⟨init', name, hnames, hname⟩
      rwa [List.singleton_inj.mp (List.append_inj' hnames rfl).2]
  rw [toOption_read_ofNames_eq_some_iff hd h, entryAt?_append]
  constructor
  · intro htakes
    obtain ⟨e, hfind⟩ := htakes.exists_find?
    have hwalked := (Option.ite_none_right_eq_some.mp
      ((find?_ofNames hd hfolder).symm.trans hfind)).2
    cases htakes with
    | below hfind' hfile hscanned =>
      obtain rfl := Option.some.inj (hfind.symm.trans hfind')
      obtain ⟨hname, hcheck, rfl, -⟩ := scanned?_eq_some_iff.mp hscanned
      rw [foldl_join_ofNames h] at hcheck
      obtain ⟨hat, hkept⟩ := (Entry.mem_files (hd.wellNamed_top.of_at? hwalked).2).mp hfile
      exact ⟨⟨hcomponent.mpr hname, hkept⟩, hcheck, by rw [hwalked]; exact hat⟩
    | alone _ _ => exact absurd rfl hne
  · rintro ⟨⟨hname, hkept⟩, hcheck, hat⟩
    obtain ⟨e, hwalked, hat⟩ := Option.bind_eq_some_iff.mp hat
    have hfind : d.find? (ofNames folder) = some e := by
      rw [find?_ofNames hd hfolder, if_pos (isOk_checkPath_of_append hcheck), hwalked]
    cases e with
    | file content => simp [Entry.at?_file hne] at hat
    | folder es =>
      refine .below hfind ((Entry.mem_files (hd.wellNamed_top.of_at? hwalked).2).mpr ⟨hat, hkept⟩)
        (scanned?_eq_some_iff.mpr ⟨hcomponent.mp hname, ?_, rfl, rfl⟩)
      rwa [foldl_join_ofNames h]

/-- What a scan of a folder holds under a logical path that no two files have. -/
theorem scannedAt_ofNames (hd : d.WellFormed) {folder : List RawText}
    (h : ∀ name ∈ folder ++ names, IsName name) (hne : names ≠ [])
    (hone : TakesAlone d (ofNames folder) names) :
    scannedAt d (ofNames folder) (slashed names) =
      if isComponentFile (ofNames (folder ++ names)) ∧
          ∀ name ∈ names.dropLast, isIgnoredFolder name = false then
        (d.read (ofNames (folder ++ names))).toOption
      else none := by
  refine Option.ext fun text => ?_
  rw [Option.ite_none_right_eq_some, ← takes_ofNames_iff hd h hne, scannedAt]
  cases hscan : scan d (ofNames folder) with
  | error cause =>
    constructor
    · intro hnone
      cases hnone
    · intro htakes
      obtain ⟨e, hfind⟩ := htakes.exists_find?
      rw [scan, hfind] at hscan
      split at hscan <;> simp_all
  | ok s =>
    rw [Except.toOption, Option.bind_some]
    exact get?_scan_iff_of_alone hd.wellNamed_top hscan hone

end StaticPreview.Sources
