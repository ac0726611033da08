import Mathlib.Data.List.Basic
import StaticPreview.Proofs.Disk.Visits
import StaticPreview.Proofs.Disk.Walk
import StaticPreview.Proofs.Sources.Loads

/-! # Scanning along a walk

In whatever order a walk of a folder goes, the component files that it comes to and that can be read
are the sources of a scan. Of files whose names are shown alike the one that it comes to last is
kept.
-/
namespace StaticPreview
open StaticPreview.Path Disk

namespace Sources

/-- The source that a scan of a folder takes from where names lead below it: a component file that
can be read, under its path without the folder. -/
def taken? (d : Disk) (folder : RawText) (names : List RawText) : Option (String × String) :=
  let path := names.foldl Path.join folder
  if (d.find? path).any (fun e => !e.isFolder) && isComponentFile path then
    match d.read path with
    | .ok text => some (Path.logical folder path, text)
    | .error _ => none
  else none

def scanAlong (d : Disk) (folder : RawText) (visited : List (List RawText)) : Sources :=
  ofList (visited.filterMap (taken? d folder))

/-- Whether a walk of a folder, in any order, comes to all that it should and to nothing else.
Where paths are too long to be given to the system, something may be left out. -/
structure IsWalk (folder : RawText) (e : Entry) (visited : List (List RawText)) : Prop where
  visits : ∀ names ∈ visited, e.Visits isIgnoredFolder names
  complete : ∀ names, e.Visits isIgnoredFolder names →
    (checkPath (names.foldl Path.join folder)).isOk → names ∈ visited

theorem isWalk_visited {e : Entry} (he : e.WellNamed) (folder : RawText) :
    IsWalk folder e (e.visited isIgnoredFolder) :=
  ⟨fun _ h => (Entry.mem_visited he).mp h, fun _ h _ => (Entry.mem_visited he).mpr h⟩

theorem IsWalk.of_perm {folder : RawText} {e : Entry} {visited visited' : List (List RawText)}
    (h : IsWalk folder e visited) (hperm : visited.Perm visited') : IsWalk folder e visited' :=
  ⟨fun names hmem => h.visits names (hperm.mem_iff.mpr hmem),
    fun names hvisits hreached => hperm.mem_iff.mp (h.complete names hvisits hreached)⟩

/-- Whether names lead from a folder to the text of a component file that no folder hides from a
scan. Its path has to be one that can be given to the system. -/
structure Previewable (folder : RawText) (e : Entry) (names : List RawText) (text : String) :
    Prop where
  file : e.at? names = some (.file (.text text))
  component : isComponentFile (names.foldl Path.join folder)
  kept : ∀ name ∈ names.dropLast, isIgnoredFolder name = false
  reached : (checkPath (names.foldl Path.join folder)).isOk

/-- Whether no other file of that kind is below names that are shown alike. -/
def Alone (folder : RawText) (e : Entry) (names : List RawText) : Prop :=
  ∀ other text, Previewable folder e other text →
    other.map RawText.shown = names.map RawText.shown → other = names

theorem alone_of_whole {folder : RawText} {e : Entry} {names : List RawText}
    (hwhole : ∀ name ∈ names, '\uFFFD' ∉ name.shown.toList) : Alone folder e names :=
  fun _ _ _ hshown => eq_of_map_shown_eq hwhole hshown

variable {d : Disk} {folder : RawText} {names : List RawText}

theorem isComponentFile_join (folder : RawText) {name : RawText} (hname : IsName name) :
    isComponentFile (Path.join folder name) = isComponentName name := by
  have hnames : ∀ other ∈ [name], IsName other := by simpa using hname
  have hlast : (pieces (Path.join folder name)).getLast? = some name.toList := by
    rw [← under_singleton, pieces_under folder hnames (by simp), List.map_singleton,
      List.getLast?_concat]
  rw [isComponentFile, fileName?_of_getLast? hname hlast, Option.any_some]

theorem isComponentFile_foldl_join (folder : RawText) (hnames : ∀ name ∈ names, IsName name)
    (hne : names ≠ []) : isComponentFile (names.foldl Path.join folder) ↔
      ∃ init name, names = init ++ [name] ∧ isComponentName name := by
  obtain ⟨init, last, rfl⟩ := (names.eq_nil_or_concat).resolve_left hne
  rw [List.concat_eq_append] at hnames ⊢
  rw [List.foldl_append, List.foldl_cons, List.foldl_nil,
    isComponentFile_join _ (hnames last (by simp))]
  constructor
  · intro hname
    exact ⟨init, last, rfl, hname⟩
  · rintro ⟨init', name, hsame, hname⟩
    rwa [List.singleton_inj.mp (List.append_inj' hsame rfl).2]

theorem walk_foldl_join (hd : d.WellFormed) {base : List RawText} {e : Entry}
    (hwalk : d.walk folder = .ok base) (hat : d.entryAt? (base ++ names) = some e) :
    d.walk (names.foldl Path.join folder) = .ok (base ++ names) := by
  induction names generalizing folder base with
  | nil => rwa [List.append_nil]
  | cons name rest ih =>
    have hname : IsName name := hd.wellNamed_top.isName_of_at? hat name (by simp)
    have hsize : name.size ≤ longestName :=
      ((hd.wellNamed_top.of_at? hat).1 name (by simp)).2
    have hthere : d.layout (base ++ name :: rest) ≠ .nothing := by
      intro hnothing
      rw [layout, Entry.layout_eq_nothing_iff, ← entryAt?, hat] at hnothing
      cases hnothing
    have hfolder : d.layout base = .folder := layout_eq_folder_of_append (by simp) hthere
    have hnames : ∀ other ∈ [] ++ [name], IsName other := by simpa using hname
    have hstep : d.walk (under folder ([] ++ [name])) = .ok (base ++ ([] ++ [name])) :=
      (walk_under_eq_ok_iff_layout hd hwalk hfolder hnames).mpr
        ⟨rfl, by simpa using hfolder, hsize⟩
    rw [List.nil_append, under_singleton] at hstep
    rw [List.foldl_cons, ih hstep (by simpa using hat), List.append_assoc]
    rfl

/-- What is below a folder is found where its path can be given to the system. -/
theorem find?_foldl_join (hd : d.WellFormed) {e inner : Entry} (hfind : d.find? folder = some e)
    (hat : e.at? names = some inner) :
    d.find? (names.foldl Path.join folder) =
      if (checkPath (names.foldl Path.join folder)).isOk then some inner else none := by
  obtain ⟨base, hwalk, hbase⟩ := exists_walk_of_find? hfind
  have hbelow : d.entryAt? (base ++ names) = some inner := by
    rw [entryAt?_append, hbase, Option.bind_some, hat]
  rw [find?_eq, walk_foldl_join hd hwalk hbelow, Except.toOption, Option.bind_some, hbelow]

section
variable {es : List (RawText × Entry)} (hd : d.WellFormed)
  (hfind : d.find? folder = some (.folder es)) {key text : String}
include hd hfind

theorem wellNamed_of_find? : (Entry.folder es).WellNamed := by
  obtain ⟨base, -, hbase⟩ := exists_walk_of_find? hfind
  exact (hd.wellNamed_top.of_at? hbase).2

theorem isName_of_folder_at? {inner : Entry} (hat : (Entry.folder es).at? names = some inner) :
    ∀ name ∈ names, IsName name :=
  (wellNamed_of_find? hd hfind).isName_of_at? hat

/-- What is taken from a file that a walk comes to. -/
theorem taken?_eq_some_iff {inner : Entry} (hat : (Entry.folder es).at? names = some inner) :
    taken? d folder names = some (key, text) ↔
      inner = .file (.text text) ∧ isComponentFile (names.foldl Path.join folder) ∧
        (checkPath (names.foldl Path.join folder)).isOk ∧ key = slashed names := by
  have hfound := find?_foldl_join hd hfind hat
  have hread := toOption_read d (names.foldl Path.join folder)
  rw [hfound] at hread
  have hlogical : Path.logical folder (names.foldl Path.join folder) = slashed names :=
    logical_foldl_join (ne_empty_of_find? hfind) (isName_of_folder_at? hd hfind hat)
  rw [taken?, hfound, hlogical]
  by_cases hreached : (checkPath (names.foldl Path.join folder)).isOk
  · rw [if_pos hreached] at hread ⊢
    cases hresult : d.read (names.foldl Path.join folder) with
    | ok found =>
      rw [hresult] at hread
      obtain rfl : inner = .file (.text found) := Entry.text?_eq_some_iff.mp hread.symm
      rw [Option.any_some, Option.ite_none_right_eq_some]
      constructor
      · rintro ⟨hcomponent, hsame⟩
        obtain ⟨rfl, rfl⟩ := Prod.mk.inj (Option.some.inj hsame)
        exact ⟨rfl, hcomponent, hreached, rfl⟩
      · rintro ⟨hsame, hcomponent, -, rfl⟩
        cases hsame
        exact ⟨hcomponent, rfl⟩
    | error cause =>
      have hno : inner ≠ .file (.text text) := by
        rintro rfl
        rw [hresult] at hread
        cases hread
      simp [hno]
  · simp [hreached]

/-- A scan takes of each file that it lists what a walk takes that comes to the file. -/
theorem taken?_eq_bind_scanned? (hvisits : (Entry.folder es).Visits isIgnoredFolder names) :
    taken? d folder names = ((Entry.folder es).listed? names).bind (scanned? folder) := by
  obtain ⟨inner, hat⟩ := hvisits.exists_at?
  refine Option.ext ?_
  rintro ⟨key, text⟩
  rw [taken?_eq_some_iff hd hfind hat, Entry.listed?, hat, Option.bind_some]
  cases inner with
  | folder inner => simp [Entry.content?]
  | file content =>
    have hne : names ≠ [] := by
      rintro rfl
      cases hat
    rw [Entry.content?, Option.map_some, Option.bind_some, scanned?_eq_some_iff,
      isComponentFile_foldl_join folder (isName_of_folder_at? hd hfind hat) hne,
      Entry.file.injEq]
    exact and_left_comm.trans (and_congr_right fun _ => and_left_comm)

/-- A scan goes depth first. -/
theorem scan_eq_scanAlong :
    scan d folder = .ok (scanAlong d folder ((Entry.folder es).visited isIgnoredFolder)) := by
  have hwell := wellNamed_of_find? hd hfind
  rw [scan, hfind]
  refine congrArg (fun files => Except.ok (ofList files)) ?_
  rw [← Entry.filterMap_visited hwell, List.filterMap_filterMap]
  refine List.filterMap_congr fun names hmem => ?_
  exact (taken?_eq_bind_scanned? hd hfind ((Entry.mem_visited hwell).mp hmem)).symm

theorem slashed_eq_iff_of_previewable {names' : List RawText} {text' : String}
    (h : Previewable folder (.folder es) names text)
    (h' : Previewable folder (.folder es) names' text') :
    slashed names = slashed names' ↔ names.map RawText.shown = names'.map RawText.shown :=
  slashed_eq_iff (isName_of_folder_at? hd hfind h.file) (isName_of_folder_at? hd hfind h'.file)

variable {visited : List (List RawText)} (hwalk : IsWalk folder (.folder es) visited)
include hwalk

theorem taken?_eq_some_iff_previewable (hmem : names ∈ visited) :
    taken? d folder names = some (key, text) ↔
      Previewable folder (.folder es) names text ∧ key = slashed names := by
  have hvisits := hwalk.visits names hmem
  obtain ⟨inner, hat⟩ := hvisits.exists_at?
  rw [taken?_eq_some_iff hd hfind hat]
  constructor
  · rintro ⟨rfl, hcomponent, hreached, hkey⟩
    exact ⟨⟨hat, hcomponent, (Entry.visits_file_iff hat).mp hvisits, hreached⟩, hkey⟩
  · rintro ⟨⟨hat', hcomponent, -, hreached⟩, hkey⟩
    exact ⟨Option.some.inj (hat.symm.trans hat'), hcomponent, hreached, hkey⟩

omit hd hfind in
theorem IsWalk.mem (h : Previewable folder (.folder es) names text) : names ∈ visited :=
  hwalk.complete names ((Entry.visits_file_iff h.file).mpr h.kept) h.reached

/-- What is kept under a logical path is the text of the last file that a walk comes to. -/
theorem get?_scanAlong_iff :
    (scanAlong d folder visited).get? key = some text ↔
      ∃ names, Previewable folder (.folder es) names text ∧
        IsLast (fun other => slashed other = key ∧
          ∃ text, Previewable folder (.folder es) other text) visited names := by
  have hlast (names : List RawText) :
      IsLast (fun names => ∃ text, taken? d folder names = some (key, text)) visited names ↔
        IsLast (fun other => slashed other = key ∧
          ∃ text, Previewable folder (.folder es) other text) visited names := by
    refine IsLast.congr fun other hmem => ?_
    simp only [taken?_eq_some_iff_previewable hd hfind hwalk hmem, and_comm, exists_and_left,
      eq_comm (a := key)]
  rw [scanAlong, get?_ofList_filterMap_iff]
  simp only [hlast]
  refine exists_congr fun names => and_congr_left fun hkept => ?_
  rw [taken?_eq_some_iff_previewable hd hfind hwalk hkept.mem]
  exact and_iff_left hkept.1.1.symm

/-- Of files that are shown alike one is loaded by every walk. -/
theorem exists_get?_scanAlong (h : Previewable folder (.folder es) names text) :
    ∃ names' text', slashed names' = slashed names ∧
      Previewable folder (.folder es) names' text' ∧
      (scanAlong d folder visited).get? (slashed names) = some text' := by
  obtain ⟨names', hlast⟩ := exists_isLast (p := fun other => slashed other = slashed names ∧
    ∃ text, Previewable folder (.folder es) other text) (hwalk.mem h) ⟨rfl, text, h⟩
  obtain ⟨hkey, text', h'⟩ := hlast.1
  exact ⟨names', text', hkey, h', (get?_scanAlong_iff hd hfind hwalk).mpr ⟨names', h', hlast⟩⟩

/-- A file that shares its logical path with no other is loaded by every walk. -/
theorem get?_scanAlong_iff_of_alone (hnames : ∀ name ∈ names, IsName name)
    (halone : Alone folder (.folder es) names) :
    (scanAlong d folder visited).get? (slashed names) = some text ↔
      Previewable folder (.folder es) names text := by
  have hsame {other : List RawText} {text' : String}
      (h : Previewable folder (.folder es) other text') (hkey : slashed other = slashed names) :
      other = names :=
    halone other text' h ((slashed_eq_iff (isName_of_folder_at? hd hfind h.file) hnames).mp hkey)
  constructor
  · intro hget
    obtain ⟨other, h, hlast⟩ := (get?_scanAlong_iff hd hfind hwalk).mp hget
    obtain rfl := hsame h hlast.1.1
    exact h
  · intro h
    obtain ⟨other, text', hkey, h', hget⟩ := exists_get?_scanAlong hd hfind hwalk h
    obtain rfl := hsame h' hkey
    rw [hget, Content.text.inj (Entry.file.inj (Option.some.inj (h'.file.symm.trans h.file)))]

/-- A folder with anything in it, under any name, has the same source where it has the same file:
neither its own name nor what else is in it matters. -/
theorem get?_scanAlong_eq_of_at?_eq {d' : Disk} {folder' : RawText}
    {es' : List (RawText × Entry)} {visited' : List (List RawText)} (hd' : d'.WellFormed)
    (hfind' : d'.find? folder' = some (.folder es'))
    (hwalk' : IsWalk folder' (.folder es') visited') (hnames : ∀ name ∈ names, IsName name)
    (halone : Alone folder (.folder es) names) (halone' : Alone folder' (.folder es') names)
    (hsame : (Entry.folder es').at? names = (Entry.folder es).at? names)
    (hreached : (checkPath (names.foldl Path.join folder')).isOk =
      (checkPath (names.foldl Path.join folder)).isOk) :
    (scanAlong d' folder' visited').get? (slashed names) =
      (scanAlong d folder visited).get? (slashed names) := by
  have hcomponent (hne : names ≠ []) : isComponentFile (names.foldl Path.join folder') ↔
      isComponentFile (names.foldl Path.join folder) := by
    rw [isComponentFile_foldl_join folder' hnames hne, isComponentFile_foldl_join folder hnames hne]
  have hne {es : List (RawText × Entry)} {text : String}
      (hat : (Entry.folder es).at? names = some (.file (.text text))) : names ≠ [] := by
    rintro rfl
    cases hat
  refine Option.ext fun text => ?_
  rw [get?_scanAlong_iff_of_alone hd hfind hwalk hnames halone,
    get?_scanAlong_iff_of_alone hd' hfind' hwalk' hnames halone']
  constructor
  · rintro ⟨hat, hname, hkept, hshort⟩
    exact ⟨hsame ▸ hat, (hcomponent (hne hat)).mp hname, hkept, hreached ▸ hshort⟩
  · rintro ⟨hat, hname, hkept, hshort⟩
    exact ⟨hsame.trans hat, (hcomponent (hne hat)).mpr hname, hkept, hreached.trans hshort⟩

/-- Where no two files are shown alike, all walks take the same sources. -/
theorem scanAlong_eq_of_alone {visited' : List (List RawText)}
    (hwalk' : IsWalk folder (.folder es) visited')
    (halone : ∀ names text, Previewable folder (.folder es) names text →
      Alone folder (.folder es) names) :
    scanAlong d folder visited' = scanAlong d folder visited := by
  have hiff {visited : List (List RawText)} (hwalk : IsWalk folder (.folder es) visited)
      (key text : String) : (scanAlong d folder visited).get? key = some text ↔
        ∃ names, Previewable folder (.folder es) names text ∧ slashed names = key := by
    constructor
    · intro hget
      obtain ⟨names, h, hlast⟩ := (get?_scanAlong_iff hd hfind hwalk).mp hget
      exact ⟨names, h, hlast.1.1⟩
    · rintro ⟨names, h, rfl⟩
      exact (get?_scanAlong_iff_of_alone hd hfind hwalk (isName_of_folder_at? hd hfind h.file)
        (halone names text h)).mpr h
  apply ext
  intro key
  refine Option.ext fun text => ?_
  rw [hiff hwalk, hiff hwalk']

end

/-- A scan of a folder that can be read is one of its walks. What any walk takes has a source for
each component file that is text and that no folder on the way hides, under the names that lead to
the file as they are shown: the text of the file, or of the last one that it comes to of those that
are shown alike. What else is in the folder changes no source, nor does the name of the folder. -/
theorem scan_folder_eq_walk {d : Disk} (hd : d.WellFormed) {folder : RawText}
    {es : List (RawText × Entry)} (hfind : d.find? folder = some (.folder es)) :
    ∃ order, IsWalk folder (.folder es) order ∧ scan d folder = .ok (scanAlong d folder order) ∧
      (∀ visited, IsWalk folder (.folder es) visited →
        (∀ key text, (scanAlong d folder visited).get? key = some text ↔
          ∃ names, Previewable folder (.folder es) names text ∧
            IsLast (fun other => slashed other = key ∧
              ∃ text, Previewable folder (.folder es) other text) visited names) ∧
        (∀ names text, Previewable folder (.folder es) names text →
          ∃ kept, (scanAlong d folder visited).get? (slashed names) = some kept ∧
            (Alone folder (.folder es) names → kept = text)) ∧
        ∀ (d' : Disk) folder' es' visited', d'.WellFormed →
          d'.find? folder' = some (.folder es') → IsWalk folder' (.folder es') visited' →
          ∀ names, (∀ name ∈ names, IsName name) → Alone folder (.folder es) names →
            Alone folder' (.folder es') names →
            (Entry.folder es').at? names = (Entry.folder es).at? names →
            (checkPath (names.foldl Path.join folder')).isOk =
              (checkPath (names.foldl Path.join folder)).isOk →
            (scanAlong d' folder' visited').get? (slashed names) =
              (scanAlong d folder visited).get? (slashed names)) ∧
      (∀ names names' text text', Previewable folder (.folder es) names text →
        Previewable folder (.folder es) names' text' →
        (slashed names = slashed names' ↔
          names.map RawText.shown = names'.map RawText.shown)) ∧
      (∀ names, (∀ name ∈ names, '\uFFFD' ∉ name.shown.toList) →
        Alone folder (.folder es) names) ∧
      ((∀ names text, Previewable folder (.folder es) names text →
        Alone folder (.folder es) names) →
        ∀ visited, IsWalk folder (.folder es) visited →
          scanAlong d folder visited = scanAlong d folder order) := by
  have horder := isWalk_visited (wellNamed_of_find? hd hfind) folder
  refine ⟨_, horder, scan_eq_scanAlong hd hfind, fun visited hwalk => ⟨fun key text => ?_, ?_, ?_⟩,
    ?_, ?_, ?_⟩
  · exact get?_scanAlong_iff hd hfind hwalk
  · intro names text h
    obtain ⟨names', text', hkey, h', hget⟩ := exists_get?_scanAlong hd hfind hwalk h
    refine ⟨text', hget, fun halone => ?_⟩
    have hsame := halone names' text' h' ((slashed_eq_iff_of_previewable hd hfind h' h).mp hkey)
    subst hsame
    exact Content.text.inj (Entry.file.inj (Option.some.inj (h'.file.symm.trans h.file)))
  · intro d' folder' es' visited' hd' hfind' hwalk' names hnames halone halone' hsame hreached
    exact get?_scanAlong_eq_of_at?_eq hd hfind hwalk hd' hfind' hwalk' hnames halone halone' hsame
      hreached
  · intro names names' text text' h h'
    exact slashed_eq_iff_of_previewable hd hfind h h'
  · exact fun names hwhole => alone_of_whole hwhole
  · intro halone visited hwalk
    exact scanAlong_eq_of_alone hd hfind horder hwalk halone

/-- What a folder holds that is itself named like one that is passed over: a component, bytes that
are no text, a folder that is passed over, and one whose name resembles it. -/
def mixedEntries : List (RawText × Entry) :=
  [("App.jsx", .file (.text "<p/>")), ("Raw.jsx", .file (.bytes [0xff])),
    ("dist", .folder [("App.jsx", .file (.text "<b/>"))]),
    ("distant", .folder [("Row.jsx", .file (.text "<li/>"))])]

def mixedDisk : Disk := ⟨.folder [("dist", .folder mixedEntries)], []⟩

def mixedWalk : List (List RawText) :=
  [[], ["distant"], ["distant", "Row.jsx"], ["Raw.jsx"], ["App.jsx"]]

theorem scan_mixed :
    mixedDisk.WellFormed ∧ mixedDisk.find? "dist/" = some (.folder mixedEntries) ∧
      ∃ s, scan mixedDisk "dist/" = .ok s ∧ scanAlong mixedDisk "dist/" mixedWalk = s ∧
        s.get? "distant/Row.jsx" = some "<li/>" ∧ s.get? "Raw.jsx" = none := by
  have hd : mixedDisk.WellFormed := by decide +kernel
  have hfind : mixedDisk.find? "dist/" = some (.folder mixedEntries) := rfl
  have hwell : (Entry.folder mixedEntries).WellNamed := by decide +kernel
  have hperm : ((Entry.folder mixedEntries).visited isIgnoredFolder).Perm mixedWalk := by
    decide +kernel
  have hwalk : IsWalk "dist/" (.folder mixedEntries) mixedWalk :=
    (isWalk_visited hwell "dist/").of_perm hperm
  have hwhole : ∀ names ∈ mixedWalk, ∀ name ∈ names, '\uFFFD' ∉ name.shown.toList := by
    decide +kernel
  have halone (names : List RawText) (text : String)
      (h : Previewable "dist/" (.folder mixedEntries) names text) :
      Alone "dist/" (.folder mixedEntries) names :=
    alone_of_whole (hwhole names (hwalk.mem h))
  obtain ⟨order, -, hscan, hwalks, -, -, hsame⟩ := scan_folder_eq_walk hd hfind
  obtain ⟨hheld, hfound, -⟩ := hwalks mixedWalk hwalk
  refine ⟨hd, hfind, _, hscan, hsame halone mixedWalk hwalk, ?_, ?_⟩ <;>
    rw [← hsame halone mixedWalk hwalk]
  · have hrow : Previewable "dist/" (.folder mixedEntries) ["distant", "Row.jsx"] "<li/>" :=
      ⟨rfl, by decide +kernel, by decide +kernel, by decide +kernel⟩
    obtain ⟨kept, hget, htext⟩ := hfound _ _ hrow
    rw [htext (halone _ _ hrow)] at hget
    exact hget
  · refine Option.eq_none_iff_forall_ne_some.mpr fun text htext => ?_
    obtain ⟨names, h, hlast⟩ := (hheld _ _).mp htext
    have hnames : ∀ names ∈ mixedWalk, slashed names = "Raw.jsx" → names = ["Raw.jsx"] := by
      decide +kernel
    obtain rfl := hnames names (hwalk.mem h) hlast.1.1
    cases h.file

/-- What stands below a folder has a longer path. -/
theorem size_lt_size_foldl_join (hnames : ∀ name ∈ names, IsName name) (hne : names ≠ []) :
    folder.size < (names.foldl Path.join folder).size := by
  have hstep (folder : RawText) {name : RawText} (hname : IsName name) :
      folder.size < (Path.join folder name).size := by
    have hpos : 0 < name.size := List.length_pos_iff.mpr fun h => hname.1 (by simp [h])
    rw [Path.join, if_neg (by simp [isAbsolute_of_isName hname])]
    split <;> simp only [RawText.size_append] <;> omega
  induction names generalizing folder with
  | nil => exact absurd rfl hne
  | cons name rest ih =>
    obtain ⟨hname, hrest⟩ := List.forall_mem_cons.mp hnames
    rw [List.foldl_cons]
    by_cases hnil : rest = []
    · rw [hnil]
      exact hstep folder hname
    · exact Nat.lt_trans (hstep folder hname) (ih hrest hnil)

/-- A scan finds nothing in a folder whose path is as long as a path can be. -/
theorem get?_scan_of_longestPath (hd : d.WellFormed) {es : List (RawText × Entry)}
    (hfind : d.find? folder = some (.folder es)) (hlong : longestPath ≤ folder.size) {s : Sources}
    (hscan : scan d folder = .ok s) (key : String) : s.get? key = none := by
  obtain rfl := Except.ok.inj ((scan_eq_scanAlong hd hfind).symm.trans hscan)
  refine Option.eq_none_iff_forall_ne_some.mpr fun text htext => ?_
  obtain ⟨names, h, -⟩ := (get?_scanAlong_iff hd hfind
    (isWalk_visited (wellNamed_of_find? hd hfind) folder)).mp htext
  have hne : names ≠ [] := by
    rintro rfl
    cases h.file
  have hreached := (isOk_checkPath_iff.mp h.reached).2.2
  have hsize : folder.size < (names.foldl Path.join folder).size :=
    size_lt_size_foldl_join (isName_of_folder_at? hd hfind h.file) hne
  omega

/-- A path from the working folder with dots in front of it. -/
def fromHere (n : Nat) (path : RawText) : RawText :=
  .ofList (List.replicate n [dot, slash]).flatten ++ path

theorem pieces_fromHere (n : Nat) (path : RawText) :
    pieces (fromHere n path) = List.replicate n [dot] ++ pieces path := by
  rw [pieces, fromHere, RawText.toList_append, RawText.toList_ofList]
  induction n with
  | zero => rfl
  | succ n ih =>
    have hdot : slash ∉ [dot] := by decide
    rw [List.replicate_succ, List.flatten_cons, List.append_assoc]
    exact (Text.pieces_append_cons hdot _).trans (congrArg ([dot] :: ·) ih)

theorem walk_fromHere {es : List (RawText × Entry)}
    (hhere : d.entryAt? d.workingFolder = some (.folder es)) (n : Nat) {path : RawText}
    (hpath : isAbsolute path = false) : d.walk (fromHere n path) = d.walk path := by
  have hrelative : isAbsolute (fromHere n path) = false := by
    cases n with
    | zero => exact hpath
    | succ n => rfl
  have hstep : d.follow d.workingFolder [dot] = .ok d.workingFolder := by
    rw [follow, hhere]
    rfl
  have hfold (n : Nat) : (List.replicate n [dot] ++ pieces path).foldlM d.follow d.workingFolder =
      (pieces path).foldlM d.follow d.workingFolder := by
    induction n with
    | zero => rfl
    | succ n ih =>
      rw [List.replicate_succ, List.cons_append, List.foldlM_cons, hstep]
      exact ih
  rw [walk, walk, hrelative, hpath, pieces_fromHere, if_neg (by simp), hfold]

def firstRaw : RawText := "a" ++ .ofList [0xff] ++ ".jsx"

def secondRaw : RawText := "a" ++ .ofList [0xfe] ++ ".jsx"

def hiddenRaw : RawText := "." ++ .ofList [0xff]

/-- Two components whose names are shown alike, and one in a folder with a dot in front of a name
that is no text. -/
def rawEntries : List (RawText × Entry) :=
  [(firstRaw, .file (.text "<p/>")), (secondRaw, .file (.text "<b/>")),
    (hiddenRaw, .folder [("Row.jsx", .file (.text "<li/>"))])]

def rawDisk : Disk := ⟨.folder [("src", .folder rawEntries)], []⟩

/-- Of two components one is held, a folder with a dot in front is entered, and nothing is found
where the folder is spelled with as many dots as a path can have. -/
theorem scan_rawEntries :
    rawDisk.WellFormed ∧ rawDisk.find? "src" = some (.folder rawEntries) ∧
      (Entry.folder rawEntries).at? [firstRaw] = some (.file (.text "<p/>")) ∧
      (Entry.folder rawEntries).at? [secondRaw] = some (.file (.text "<b/>")) ∧
      (isComponentName firstRaw ∧ isComponentName secondRaw) ∧ firstRaw ≠ secondRaw ∧
      slashed [firstRaw] = slashed [secondRaw] ∧
      (Entry.folder rawEntries).at? [hiddenRaw, "Row.jsx"] = some (.file (.text "<li/>")) ∧
      hiddenRaw.toList.head? = some dot ∧
      (scan rawDisk "src").toOption.map toList =
        some [(".\uFFFD/Row.jsx", "<li/>"), ("a\uFFFD.jsx", "<b/>")] ∧
      rawDisk.find? (fromHere 2046 "src") = some (.folder rawEntries) ∧
      ∃ s, scan rawDisk (fromHere 2046 "src") = .ok s ∧ ∀ key, s.get? key = none := by
  have hd : rawDisk.WellFormed := by decide +kernel
  have hsize : (fromHere 2046 "src").size = longestPath := by
    rw [fromHere, RawText.size_append, RawText.size, RawText.toList_ofList, List.length_flatten,
      List.map_replicate, List.sum_replicate_nat]
    rfl
  have hcheck : (checkPath (fromHere 2046 "src")).isOk := by
    refine isOk_checkPath_iff.mpr ⟨fun h => ?_, ?_, Nat.le_of_eq hsize⟩
    · rw [RawText.size, h] at hsize
      cases hsize
    · rw [fromHere, RawText.toList_append, List.mem_append, RawText.toList_ofList]
      rintro (h | h)
      · obtain ⟨step, hstep, h⟩ := List.mem_flatten.mp h
        rw [List.eq_of_mem_replicate hstep] at h
        exact absurd h (by decide)
      · revert h
        decide
  have hhere : rawDisk.entryAt? rawDisk.workingFolder =
      some (.folder [("src", .folder rawEntries)]) := rfl
  have hfind : rawDisk.find? (fromHere 2046 "src") = some (.folder rawEntries) := by
    rw [find?_eq, if_pos hcheck, walk_fromHere hhere 2046 rfl]
    rfl
  refine ⟨hd, rfl, rfl, rfl, by decide +kernel, by decide, by decide +kernel, rfl, rfl,
    by decide +kernel, hfind, _, scan_eq_scanAlong hd hfind, fun key => ?_⟩
  exact get?_scan_of_longestPath hd hfind (Nat.le_of_eq hsize.symm) (scan_eq_scanAlong hd hfind) key

end Sources
end StaticPreview
