import StaticPreview.Proofs.Site.Built
import StaticPreview.Proofs.Site.Listing
import StaticPreview.Proofs.Sources.Loads
import StaticPreview.Proofs.Text.ByteOrder

/-! # The site that a build leaves

Where the file operations of a build succeed for one order of its pages, and for some texts of its
sources, they succeed for all of them. If the pages of no two sources share a place, every order
leaves the same files and yields the same result.
-/
namespace StaticPreview.Site
open StaticPreview.Path Disk

variable {folder : RawText} {stylesheet : String} {base : List RawText} {d d' : Disk}
  {sources : Sources}

/-- Whether the file operations of a build with pages for the given sources succeed: for some texts
of theirs, some stylesheet and in some order. -/
def CanBuild (d : Disk) (folder : RawText) (paths : List String) : Prop :=
  ∃ (sources : Sources) (schedule : Schedule) (stylesheet : String),
    sources.paths = paths ∧ ((buildWithBy schedule folder stylesheet sources).on d).1.isOk

/-- The document in the place of the index: the page of the source that has its name, if any. -/
def indexText (stylesheet : String) (sources : Sources) : String :=
  ((sources.toList.find? fun file => pagePath file.1 == "index.html").map
    (pageText stylesheet)).getD (indexPage (sources.toList.map (entryOf stylesheet)) stylesheet)

/-- Whether a folder holds the site of sources. -/
structure HoldsSite (d : Disk) (folder : RawText) (stylesheet : String) (sources : Sources) :
    Prop where
  page : ∀ file ∈ sources.toList,
    d.read (Path.join folder (pagePath file.1)) = .ok (pageText stylesheet file)
  manifest : d.read (Path.join folder "manifest.json") =
    .ok (manifestText (sources.toList.map (entryOf stylesheet)))
  index : d.read (Path.join folder "index.html") = .ok (indexText stylesheet sources)

theorem HoldsSite.entries? (h : HoldsSite d folder stylesheet sources) :
    ∃ manifest, d.read (Path.join folder "manifest.json") = .ok manifest ∧
      Site.entries? manifest = some (sources.toList.map (entryOf stylesheet)) :=
  ⟨_, h.manifest, entries?_manifestText _⟩

theorem HoldsSite.indexPage (h : HoldsSite d folder stylesheet sources)
    (hfree : RawText.ofText "index.html" ∉ sources.paths.map pagePath) :
    d.read (Path.join folder "index.html") =
      .ok (Site.indexPage (sources.toList.map (entryOf stylesheet)) stylesheet) := by
  have hnone : (sources.toList.find? fun file => pagePath file.1 == "index.html") = none := by
    refine List.find?_eq_none.mpr fun file hfile hpage => hfree ?_
    exact List.mem_map.mpr ⟨file.1, List.mem_map_of_mem hfile, by simpa using hpage⟩
  rw [h.index, indexText, hnone, Option.map_none, Option.getD_none]

theorem isLogical_of_scan (hd : d.WellFormed) (hscan : Sources.scan d folder = .ok sources) :
    ∀ source ∈ sources.paths, IsLogical source := by
  intro source hsource
  obtain ⟨names, hnames, rfl⟩ := Sources.exists_names_of_scan hd.wellNamed_top hscan hsource
  exact isLogical_slashed hnames

theorem buildBy_on_eq (schedule : Schedule) (settings : Settings) (stylesheet : String)
    (d : Disk) :
    (buildBy schedule settings stylesheet).on d =
      match Sources.scan d settings.sourceFolder with
      | .error cause => (.error (.sources cause), d)
      | .ok sources => (buildWithBy schedule settings.outputFolder stylesheet sources).on d := by
  have hlift (found : Except SourceError Sources) : Action.on (ε := BuildError)
      (ExceptT.mk (pure (found.mapError .sources))) d = (found.mapError .sources, d) :=
    rfl
  rw [buildBy, Action.on_bind, Action.on_get]
  dsimp only
  rw [Action.on_bind, hlift]
  cases Sources.scan d settings.sourceFolder <;> rfl

theorem buildBy_on {settings : Settings} (schedule : Schedule) (stylesheet : String)
    (hscan : Sources.scan d settings.sourceFolder = .ok sources) :
    (buildBy schedule settings stylesheet).on d =
      (buildWithBy schedule settings.outputFolder stylesheet sources).on d := by
  rw [buildBy_on_eq, hscan]

theorem pageNames_eq_singleton_iff {source : String} {name : RawText}
    (hname : slash ∉ name.toList) : pageNames source = [name] ↔ pagePath source = name := by
  have hsplit : split name = [name] := by
    rw [split, pieces, Text.pieces_of_not_mem hname, List.map_singleton, RawText.ofList_toList]
  constructor
  · intro h
    exact split_inj (h.trans hsplit.symm)
  · intro h
    rw [pageNames, h, hsplit]

theorem nodup_sitePlaces {paths : List String} (hlogical : ∀ source ∈ paths, IsLogical source)
    (hdiffer : (paths.map pagePath).Nodup) : (sitePlaces paths).Nodup := by
  have hpages : (paths.map pageNames).Nodup := by
    have hsplit := hdiffer.map fun _ _ h => split_inj h
    rwa [List.map_map] at hsplit
  have hmanifest : [RawText.ofText "manifest.json"] ∉ paths.map pageNames := by
    intro hmem
    obtain ⟨source, hsource, hnames⟩ := List.mem_map.mp hmem
    exact pagePath_ne_manifest (hlogical source hsource)
      ((pageNames_eq_singleton_iff (by decide)).mp hnames)
  rw [sitePlaces]
  split
  · exact List.nodup_append.mpr ⟨hpages, by simp, by simpa using hmanifest⟩
  next hindex =>
    have hfree : [RawText.ofText "index.html"] ∉ paths.map pageNames := by
      intro hmem
      obtain ⟨source, hsource, hnames⟩ := List.mem_map.mp hmem
      refine hindex (List.mem_map.mpr ⟨source, hsource, ?_⟩)
      exact (pageNames_eq_singleton_iff (by decide)).mp hnames
    refine List.nodup_append.mpr ⟨hpages, by decide, ?_⟩
    intro names hnames other hother heq
    rcases List.mem_cons.mp hother with rfl | hother
    · exact hmanifest (heq ▸ hnames)
    · rw [List.mem_singleton.mp hother] at heq
      exact hfree (heq ▸ hnames)

/-- No two files of a site have the same place if no two pages have. -/
theorem nodup_siteFiles (hlogical : ∀ source ∈ sources.paths, IsLogical source)
    (hdiffer : (sources.paths.map pagePath).Nodup) (schedule : Schedule) (stylesheet : String) :
    ((siteFiles schedule stylesheet sources).map Prod.fst).Nodup :=
  (perm_siteFiles schedule stylesheet sources).nodup_iff.mpr (nodup_sitePlaces hlogical hdiffer)

theorem siteFiles_perm (schedule schedule' : Schedule) (stylesheet : String) (sources : Sources) :
    (siteFiles schedule stylesheet sources).Perm (siteFiles schedule' stylesheet sources) := by
  refine List.Perm.append_right _ (List.Perm.map _ ?_)
  exact (schedule.perm sources.toList).trans (schedule'.perm sources.toList).symm

theorem mem_siteFiles_page {file : String × String} (hfile : file ∈ sources.toList)
    (schedule : Schedule) (stylesheet : String) :
    (pageNames file.1, pageText stylesheet file) ∈ siteFiles schedule stylesheet sources := by
  refine List.mem_append_left _ (List.mem_map.mpr ⟨file, ?_, rfl⟩)
  exact (schedule.perm sources.toList).mem_iff.mpr hfile

theorem ready_of_canBuild (hd : d.WellFormed) {paths : List String}
    (hlogical : ∀ source ∈ paths, IsLogical source) (h : CanBuild d folder paths) :
    ∃ d₁ base, Ready d folder paths d₁ base := by
  obtain ⟨other, schedule, style, rfl, hok⟩ := h
  rcases hon : (buildWithBy schedule folder style other).on d with ⟨e | result, d₂⟩ <;>
    rw [hon] at hok
  · cases hok
  · obtain ⟨d₁, base, hready, -⟩ := ready_of_buildWithBy hlogical hd hon
    exact ⟨d₁, base, hready⟩

/-- The file operations succeed in a new folder, if the names of all files can be and none of them
is on the way to another one. -/
theorem canBuild_of_empty {d₁ : Disk} (hlogical : ∀ source ∈ sources.paths, IsLogical source)
    (hmade : (makeFolders folder).on d = (.ok (), d₁)) (hleads : d₁.Leads folder base)
    (hempty : ∀ names, names ≠ [] → d₁.layout (base ++ names) = .nothing)
    (hplaceable : ∀ names ∈ sitePlaces sources.paths, Placeable folder names)
    (hapart : (sitePlaces sources.paths).Pairwise Apart) : CanBuild d folder sources.paths := by
  have hroom : d₁.HasRoom folder base (sitePlaces sources.paths) := by
    refine ⟨hplaceable, ?_, ?_⟩
    · intro place hplace
      obtain ⟨names, hnames, rfl⟩ := List.mem_map.mp hplace
      constructor
      · intro q hq hne content
        rcases List.prefix_or_prefix_of_prefix hq (List.prefix_append base names) with
          hbase | ⟨more, rfl⟩
        · rw [layout_of_isPrefix hleads.layout hbase]
          simp
        · by_cases hmore : more = []
          · rw [hmore, List.append_nil, hleads.layout]
            simp
          · rw [hempty more hmore]
            simp
      · rw [hempty names (hplaceable names hnames).ne_nil]
        simp
    · exact hapart.map _ fun a b h => (Apart.append_iff base).mpr h
  obtain ⟨d', hon, -⟩ :=
    Ready.buildWithBy hlogical ⟨hmade, hleads, hroom⟩ .inOrder ""
  exact ⟨sources, .inOrder, "", rfl, by rw [hon]; rfl⟩

/-- A project that has not been built yet. -/
def newProject (sources : Entry) : Disk :=
  ⟨.folder [("src", sources)], []⟩

/-- A project without an output folder can be built if its pages are apart. -/
theorem canBuild_newProject {e : Entry} (he : e.WellNamed)
    (hscan : Sources.scan (newProject e) "src" = .ok sources)
    (hplaceable : ∀ names ∈ sitePlaces sources.paths, Placeable "dist" names)
    (hapart : (sitePlaces sources.paths).Pairwise Apart) :
    CanBuild (newProject e) "dist" sources.paths := by
  have hd : (newProject e).WellFormed := ⟨rfl, by decide, by decide, he, trivial⟩
  have htop : (newProject e).layout [] = .folder := rfl
  have hd₁ : ((newProject e).put ["dist"] .emptyFolder).WellFormed :=
    hd.put htop (by decide) trivial
  refine canBuild_of_empty (isLogical_of_scan hd hscan) rfl ⟨hd₁, rfl, rfl⟩ ?_ hplaceable hapart
  intro names hne
  obtain ⟨name, more, rfl⟩ := List.exists_cons_of_ne_nil hne
  rfl

def cardProject : Disk :=
  newProject (.folder [("App.jsx", .file (.text "return <p>Hi</p>;\n\x7d")),
    ("components", .folder [("Card.tsx", .file (.text ""))])])

def cardSources : Sources :=
  .ofList [("App.jsx", "return <p>Hi</p>;\n\x7d"), ("components/Card.tsx", "")]

theorem wellFormed_cardProject : cardProject.WellFormed := by decide

theorem scan_cardProject : Sources.scan cardProject "src" = .ok cardSources := rfl

theorem paths_cardSources : cardSources.paths = ["App.jsx", "components/Card.tsx"] := by
  decide +kernel

theorem sitePlaces_cardSources : sitePlaces cardSources.paths =
    ([["App.html"], ["components", "Card.html"], ["manifest.json"], ["index.html"]] :
      List (List RawText)) := by
  rw [paths_cardSources]
  decide +kernel

end StaticPreview.Site
