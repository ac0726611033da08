import StaticPreview.Proofs.Disk.Below
import StaticPreview.Proofs.Sources.Scan
import StaticPreview.Site.Build

/-! # Where pages are

The page of a source is below the folder of the site where the source is below its own, but for the
extension of its last name. That name is never one of a component. Where it is no name at all, the
page is never written.
-/
namespace StaticPreview
open StaticPreview.Path Disk

namespace Path

def split (path : RawText) : List RawText :=
  (pieces path).map .ofList

theorem map_toList_split (path : RawText) : (split path).map RawText.toList = pieces path := by
  simp [split, Function.comp_def]

theorem split_ne_nil (path : RawText) : split path ≠ [] := by
  simpa [split, pieces] using Text.pieces_ne_nil slash path.toList

theorem joinNames_split (path : RawText) : joinNames (split path) = path := by
  rw [joinNames, map_toList_split, joinPieces_pieces]

theorem split_inj {p q : RawText} (h : split p = split q) : p = q := by
  rw [← joinNames_split p, h, joinNames_split q]

theorem under_split (folder path : RawText) : under folder (split path) = join folder path := by
  rw [under, joinNames_split]

/-- The stem of a name that is a text is the beginning of this text. -/
theorem exists_stem (name : String) : ∃ stem : String, stem.toList <+: name.toList ∧
    (splitExtension (RawText.ofText name).toList).1 = (RawText.ofText stem).toList := by
  rw [splitExtension]
  split
  next c stem extension h =>
    obtain ⟨t, u, hname, hstem, -⟩ := RawText.exists_of_flatMap_eq_append (b := dot) (by decide)
      (Text.append_of_cutLast? h).symm
    refine ⟨.ofList t, ?_, ?_⟩
    · rw [hname, String.toList_ofList]
      exact List.prefix_append _ _
    · rw [hstem, RawText.ofText, Text.utf8Bytes, String.toList_ofList]
  next => exact ⟨name, List.prefix_rfl, rfl⟩

/-- The name of a text as a page is a text. -/
theorem exists_replaceExtension (name : String) : ∃ page : String,
    replaceExtension (RawText.ofText name).toList (RawText.ofText "html").toList =
        (RawText.ofText page).toList ∧
      (page = ".." ∨ ∃ stem, stem.toList <+: name.toList ∧ page = stem ++ ".html") := by
  obtain ⟨stem, hprefix, hstem⟩ := exists_stem name
  rw [replaceExtension]
  dsimp only
  rw [hstem]
  split
  · exact ⟨"..", rfl, .inl rfl⟩
  · refine ⟨stem ++ ".html", ?_, .inr ⟨stem, hprefix, rfl⟩⟩
    rw [RawText.ofText_append, RawText.toList_append]
    rfl

theorem withExtension_joinNames {init : List RawText} {last : RawText}
    (hnames : ∀ name ∈ init ++ [last], IsName name) (extension : RawText) :
    withExtension (joinNames (init ++ [last])) extension =
      joinNames (init ++ [.ofList (replaceExtension last.toList extension.toList)]) := by
  have hpieces := pieces_joinNames hnames (by simp)
  have hfile : fileName? (joinNames (init ++ [last])) = some last := by
    refine fileName?_of_getLast? (hnames last (by simp)) ?_
    rw [hpieces, List.map_append, List.map_singleton, List.getLast?_concat]
  rw [withExtension, hfile, hpieces]
  cases init with
  | nil => exact (joinNames_singleton _).symm
  | cons first more =>
    have hmore : ∀ name ∈ more ++ [last], IsName name := (List.forall_mem_cons.mp hnames).2
    have hkept := dropIdle_names hmore
    rw [List.cons_append, List.map_cons]
    dsimp only
    rw [hkept, List.map_append, List.map_singleton]
    obtain ⟨piece, others, hcons⟩ := List.exists_cons_of_ne_nil
      (l := more.map RawText.toList ++ [last.toList]) (by simp)
    rw [hcons]
    dsimp only
    rw [← hcons, List.dropLast_concat, joinNames, List.map_append]
    rfl

end Path

theorem isComponentName_html (stem : String) :
    isComponentName (RawText.ofText (stem ++ ".html")) = false := by
  have hsplit : (RawText.ofText (stem ++ ".html")).toList =
      (RawText.ofText stem).toList ++ dot :: (RawText.ofText "html").toList := by
    rw [RawText.ofText_append, RawText.toList_append]
    rfl
  have hcut : Text.cutLast? dot (RawText.ofText (stem ++ ".html")).toList =
      some ((RawText.ofText stem).toList, (RawText.ofText "html").toList) :=
    Text.cutLast?_eq_some_iff.mpr ⟨hsplit, by decide⟩
  have hextension : componentExtensions.contains
      (((splitExtension (RawText.ofText (stem ++ ".html")).toList).2.bind fun e =>
        (RawText.ofList e).text?).getD "") = false := by
    rw [splitExtension, hcut]
    cases (RawText.ofText stem).toList with
    | nil => rfl
    | cons c r =>
      have hhtml : componentExtensions.contains
          (((some (RawText.ofText "html").toList).bind fun e =>
            (RawText.ofList e).text?).getD "") = false := by
        decide
      exact hhtml
  rw [isComponentName, hextension, Bool.false_and]

/-- Whether a text is the logical path of names. -/
def IsLogical (source : String) : Prop :=
  ∃ names : List String, (∀ name ∈ names, IsName name) ∧ source = "/".intercalate names

theorem isLogical_slashed {names : List RawText} (h : ∀ name ∈ names, IsName name) :
    IsLogical (slashed names) := by
  refine ⟨names.map RawText.shown, ?_, rfl⟩
  intro name hname
  obtain ⟨raw, hraw, rfl⟩ := List.mem_map.mp hname
  exact (h raw hraw).isName_shown

namespace Site

variable {source : String} {folder : RawText} {init : List String} {last : String}

/-- A page is under the names of its source, but for the last. -/
theorem exists_pagePath_eq (hnames : ∀ name ∈ init ++ [last], IsName name) :
    ∃ page, pagePath ("/".intercalate (init ++ [last])) =
        RawText.ofText ("/".intercalate (init ++ [page])) ∧
      (page = ".." ∨ ∃ stem, stem.toList <+: last.toList ∧ page = stem ++ ".html") := by
  obtain ⟨page, hpage, hkind⟩ := exists_replaceExtension last
  refine ⟨page, ?_, hkind⟩
  have hraw : ∀ name ∈ init.map RawText.ofText ++ [RawText.ofText last], IsName name := by
    simpa [or_imp, forall_and] using hnames
  rw [pagePath, ← joinNames_map_ofText, ← joinNames_map_ofText, List.map_append, List.map_append,
    List.map_singleton, List.map_singleton, withExtension_joinNames hraw, hpage,
    RawText.ofList_toList]

/-- The names of a page below the folder of the site. -/
def pageNames (source : String) : List RawText :=
  split (pagePath source)

theorem under_pageNames (folder : RawText) (source : String) :
    under folder (pageNames source) = Path.join folder (pagePath source) :=
  under_split folder (pagePath source)

theorem pageNames_ne_nil (source : String) : pageNames source ≠ [] :=
  split_ne_nil _

theorem slash_not_mem_html {stem : String} (hstem : '/' ∉ stem.toList) :
    '/' ∉ (stem ++ ".html").toList := by
  rw [String.toList_append, List.mem_append, not_or]
  exact ⟨hstem, by decide⟩

theorem isName_html {stem : String} (hstem : '/' ∉ stem.toList) :
    IsName (RawText.ofText (stem ++ ".html")) := by
  constructor
  · have hlength : (RawText.ofText (stem ++ ".html")).size = (RawText.ofText stem).size + 5 := by
      rw [RawText.ofText_append, RawText.size_append]
      rfl
    rw [RawText.size] at hlength
    simp only [List.mem_cons, List.not_mem_nil, or_false]
    rintro (h | h | h) <;> rw [h] at hlength <;> simp at hlength
  · exact (RawText.mem_ofText_iff (by decide)).not.mpr (slash_not_mem_html hstem)

theorem html_ne_manifest (stem : String) :
    RawText.ofText (stem ++ ".html") ≠ RawText.ofText "manifest.json" := by
  intro h
  have hend := congrArg (fun s => s.toList.getLast?) (RawText.ofText_inj.mp h)
  simp at hend

/-- What the path of a page ends in: no name of a component and not the manifest. Where it is no
name, the names of the page are not all names. -/
structure IsPageEnd (source : String) (last : RawText) : Prop where
  isComponentName : isComponentName last = false
  ne_manifest : last ≠ "manifest.json"
  isName : (∀ name ∈ pageNames source, IsName name) ∨ ¬ IsName last

theorem pageNames_eq {page : String} (hinit : ∀ name ∈ init, IsName name)
    (hpage : '/' ∉ page.toList)
    (hpath : pagePath source = RawText.ofText ("/".intercalate (init ++ [page]))) :
    pageNames source = (init ++ [page]).map RawText.ofText := by
  have hslash : ∀ piece ∈ ((init ++ [page]).map RawText.ofText).map RawText.toList,
      slash ∉ piece := by
    intro piece hpiece
    obtain ⟨_, hraw, rfl⟩ := List.mem_map.mp hpiece
    obtain ⟨name, hname, rfl⟩ := List.mem_map.mp hraw
    rcases List.mem_append.mp hname with hname | hname
    · exact (hinit name hname).2
    · rw [List.mem_singleton.mp hname]
      exact (RawText.mem_ofText_iff (by decide)).not.mpr hpage
  rw [pageNames, hpath, ← joinNames_map_ofText, joinNames, split,
    pieces_joinPieces (by simp) hslash, List.map_map]
  exact List.map_id'' RawText.ofList_toList _

/-- The path of a page goes down along the names of the folders of its source and ends in the name
of the page. -/
theorem pieces_page (h : IsLogical source) :
    isAbsolute (pagePath source) = false ∧ ∃ (init : List RawText) (last : RawText),
      pieces (pagePath source) = init.map RawText.toList ++ [last.toList] ∧
        IsPageEnd source last := by
  obtain ⟨names, hnames, rfl⟩ := h
  rcases names.eq_nil_or_concat with rfl | ⟨init, last, rfl⟩
  · exact ⟨rfl, [], "", rfl, by decide, by decide, .inr (by decide)⟩
  · rw [List.concat_eq_append] at hnames ⊢
    obtain ⟨page, hpath, hkind⟩ := exists_pagePath_eq hnames
    have hinit := (List.forall_mem_append.mp hnames).1
    have hlast : '/' ∉ last.toList :=
      (RawText.mem_ofText_iff (by decide)).not.mp (hnames last (by simp)).2
    have hpage : '/' ∉ page.toList := by
      rcases hkind with rfl | ⟨stem, hstem, rfl⟩
      · decide
      · exact slash_not_mem_html fun hmem => hlast (hstem.mem hmem)
    have hpageNames := pageNames_eq hinit hpage hpath
    have hpieces := map_toList_split (pagePath ("/".intercalate (init ++ [last])))
    rw [← pageNames, hpageNames, List.map_append, List.map_singleton, List.map_append,
      List.map_singleton] at hpieces
    refine ⟨?_, init.map RawText.ofText, RawText.ofText page, hpieces.symm, ?_⟩
    · rw [← Bool.not_eq_true, isAbsolute_iff_pieces, ← hpieces]
      rintro ⟨piece, more, hroot⟩
      cases init with
      | nil => simp at hroot
      | cons first rest =>
        have hempty : (RawText.ofText first).toList = [] := (List.cons.inj hroot).1
        exact (hinit first (by simp)).1 (by simp [hempty])
    · rcases hkind with rfl | ⟨stem, hstem, rfl⟩
      · exact ⟨by decide, by decide, .inr (by decide)⟩
      · refine ⟨isComponentName_html stem, html_ne_manifest stem, .inl ?_⟩
        rw [hpageNames, List.map_append]
        refine List.forall_mem_append.mpr ⟨by simpa using hinit, ?_⟩
        simpa using isName_html fun hmem => hlast (hstem.mem hmem)

theorem getLast?_pieces_page (h : IsLogical source) (folder : RawText) :
    ∃ last : RawText, (pieces (Path.join folder (pagePath source))).getLast? = some last.toList ∧
      IsPageEnd source last := by
  obtain ⟨hrelative, init, last, hpieces, hlast⟩ := pieces_page h
  refine ⟨last, ?_, hlast⟩
  rw [pieces_join folder hrelative, hpieces, ← List.append_assoc, List.getLast?_concat]

theorem pagePath_ne_manifest (h : IsLogical source) : pagePath source ≠ "manifest.json" := by
  obtain ⟨-, init, last, hpieces, hlast⟩ := pieces_page h
  intro hpath
  have hend : (pieces "manifest.json").getLast? = some last.toList := by
    rw [← hpath, hpieces, List.getLast?_concat]
  exact hlast.ne_manifest (RawText.ext (Option.some.inj hend).symm)

theorem failing_on {ε α : Type} (cause : DiskError → ε) (action : Action DiskError α) (d : Disk) :
    (failing cause action).on d = ((action.on d).1.mapError cause, (action.on d).2) :=
  rfl

theorem failing_on_eq_ok_iff {ε α : Type} {cause : DiskError → ε} {action : Action DiskError α}
    {x : α} {d d' : Disk} :
    (failing cause action).on d = (.ok x, d') ↔ action.on d = (.ok x, d') := by
  rw [failing_on]
  obtain ⟨e | y, d₁⟩ := action.on d <;> simp [Except.mapError]

def pageText (stylesheet : String) (file : String × String) : String :=
  (Conversion.convert stylesheet file.2 file.1).html

def entryOf (stylesheet : String) (file : String × String) : PageEntry :=
  pageEntry file.1 (Conversion.convert stylesheet file.2 file.1)

theorem failing_makeParents {ε : Type} (cause : DiskError → ε) (path : RawText) :
    failing cause (makeParents path) =
      match parent? path with
      | some parent => failing cause (makeFolders parent)
      | none => pure () := by
  rw [makeParents]
  cases parent? path <;> rfl

theorem buildPage_eq (folder : RawText) (stylesheet : String) (file : String × String) :
    buildPage folder stylesheet file = (do
      failing .folder (makeParents (Path.join folder (pagePath file.1)))
      failing (.page (Path.join folder (pagePath file.1)).shown)
        (write (Path.join folder (pagePath file.1)) (pageText stylesheet file))
      return entryOf stylesheet file) := by
  unfold buildPage
  dsimp only
  -- As a variable the path is not taken apart in search of its parent.
  generalize Path.join folder (pagePath file.1) = path
  rw [failing_makeParents]
  cases parent? path <;> rfl

theorem buildPage_on (folder : RawText) (stylesheet : String) (file : String × String)
    (d : Disk) :
    (buildPage folder stylesheet file).on d =
      match (makeParents (Path.join folder (pagePath file.1))).on d with
      | (.error e, d') => (.error (.folder e), d')
      | (.ok _, d') =>
        match (write (Path.join folder (pagePath file.1)) (pageText stylesheet file)).on d' with
        | (.error e, d'') => (.error (.page (Path.join folder (pagePath file.1)).shown e), d'')
        | (.ok _, d'') => (.ok (entryOf stylesheet file), d'') := by
  rw [buildPage_eq, Action.on_bind, failing_on]
  obtain ⟨e | x, d'⟩ := (makeParents (Path.join folder (pagePath file.1))).on d
  · rfl
  · dsimp only [Except.mapError]
    rw [Action.on_bind, failing_on]
    obtain ⟨e | x, d''⟩ :=
      (write (Path.join folder (pagePath file.1)) (pageText stylesheet file)).on d' <;> rfl

end Site
end StaticPreview
