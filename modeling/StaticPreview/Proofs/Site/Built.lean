import StaticPreview.Proofs.Site.Schedule

/-! # What a build leaves

Whatever the order of its pages is, a build completes if and only if its folder can be made and has
room for the site. Then it puts the pages of the sources below that folder, the manifest and the
index, and yields one entry for each source in the order of the sources.
-/
namespace StaticPreview.Site
open StaticPreview.Path Disk

variable {ε : Type} {folder : RawText} {stylesheet : String} {base : List RawText} {d d' : Disk}

def pageFiles (stylesheet : String) (files : List (String × String)) : Files :=
  files.map fun file => (pageNames file.1, pageText stylesheet file)

/-- The manifest, and the index unless a page has its place. -/
def listingFiles (stylesheet : String) (entries : List PageEntry) : Files :=
  (["manifest.json"], manifestText entries) ::
    if entries.any fun e => e.output == "index.html" then []
    else [(["index.html"], indexPage entries stylesheet)]

/-- The files of a site in the order in which they are written. -/
def siteFiles (schedule : Schedule) (stylesheet : String) (sources : Sources) : Files :=
  pageFiles stylesheet (schedule.arrange sources.toList) ++
    listingFiles stylesheet (sources.toList.map (entryOf stylesheet))

theorem buildPage_on_eq_ok_iff {file : String × String} {entry : PageEntry} :
    (buildPage folder stylesheet file).on d = (.ok entry, d') ↔
      entry = entryOf stylesheet file ∧
        (do
          makeParents (Path.join folder (pagePath file.1))
          write (Path.join folder (pagePath file.1)) (pageText stylesheet file)).on d =
        (.ok (), d') := by
  rw [buildPage_on, Action.on_bind]
  rcases (makeParents (Path.join folder (pagePath file.1))).on d with ⟨e | x, d₁⟩
  · simp
  · dsimp only
    rcases (write (Path.join folder (pagePath file.1)) (pageText stylesheet file)).on d₁ with
      ⟨e | x, d₂⟩
    · simp
    · simp [eq_comm]

/-- What ends in no name is never written. -/
theorem write_page_of_not_isName {source : String} (h : IsLogical source)
    (hnames : ¬ ∀ name ∈ pageNames source, IsName name) (folder : RawText) (text : String)
    (d : Disk) :
    ∃ cause, (write (Path.join folder (pagePath source)) text).on d = (.error cause, d) := by
  obtain ⟨last, hlast, hend⟩ := getLast?_pieces_page h folder
  rcases write_cases (Path.join folder (pagePath source)) text d with hfail |
    ⟨_, name, -, -, -, -, hname, hname', -⟩
  · exact hfail
  · rw [hlast] at hname'
    obtain rfl : last = name := RawText.ext (Option.some.inj hname')
    exact absurd hname.1 (hend.isName.resolve_left hnames)

/-- A page is one file below the folder of the site. -/
theorem puts_buildPage {file : String × String} (h : IsLogical file.1) (folder : RawText)
    (base : List RawText) (stylesheet : String) :
    Puts folder base (buildPage folder stylesheet file)
      [(pageNames file.1, pageText stylesheet file)] (entryOf stylesheet file) := by
  by_cases hnames : ∀ name ∈ pageNames file.1, IsName name
  · have hwrite := Puts.write_parents hnames (pageNames_ne_nil file.1) folder base
      (pageText stylesheet file)
    rw [under_pageNames] at hwrite
    constructor
    · intro d d' entry hd hon
      exact hwrite.room hd (buildPage_on_eq_ok_iff.mp hon).2
    · intro d hd hroom
      obtain ⟨d', hon, hafter⟩ := hwrite.run hd hroom
      exact ⟨d', buildPage_on_eq_ok_iff.mpr ⟨rfl, hon⟩, hafter⟩
  · constructor
    · intro d d' entry hd hon
      obtain ⟨-, hcomposed⟩ := buildPage_on_eq_ok_iff.mp hon
      obtain ⟨_, d₁, -, hwrite⟩ := Action.on_bind_eq_ok_iff.mp hcomposed
      obtain ⟨cause, hfail⟩ :=
        write_page_of_not_isName h hnames folder (pageText stylesheet file) d₁
      simp [hfail] at hwrite
    · intro d hd hroom
      exact absurd (hasRoom_singleton_iff.mp hroom).1.isName hnames

/-- Writes the manifest, and the index unless a page has its place. -/
def writeListings (folder : RawText) (stylesheet : String) (entries : List PageEntry) :
    Action BuildError Unit := do
  failing .listing (write (Path.join folder "manifest.json") (manifestText entries))
  if entries.any fun e => e.output == "index.html" then return
  failing .listing (write (Path.join folder "index.html") (indexPage entries stylesheet))

theorem puts_writeListings (folder : RawText) (stylesheet : String) (base : List RawText)
    (entries : List PageEntry) :
    Puts folder base (writeListings folder stylesheet entries) (listingFiles stylesheet entries)
      () := by
  have hmanifestName : IsName "manifest.json" := by decide
  have hindexName : IsName "index.html" := by decide
  have hmanifest := puts_failing BuildError.listing
    (Puts.write_singleton hmanifestName folder base (manifestText entries))
  have hindex := puts_failing BuildError.listing
    (Puts.write_singleton hindexName folder base (indexPage entries stylesheet))
  rw [under_singleton] at hmanifest hindex
  rw [writeListings, listingFiles]
  refine hmanifest.bind ?_
  cases entries.any fun e => e.output == "index.html" with
  | true => exact .pure folder base ()
  | false => exact hindex

theorem buildWithBy_eq (schedule : Schedule) (folder : RawText) (stylesheet : String)
    (sources : Sources) :
    buildWithBy schedule folder stylesheet sources = (do
      failing .folder (makeFolders folder)
      let entries ← gatherBy (schedule.arrange sources.toList) sources.toList
        (buildPage folder stylesheet)
      writeListings folder stylesheet entries
      return ⟨entries, folder⟩) := by
  unfold buildWithBy writeListings
  simp only [bind_assoc]
  apply bind_congr
  intro _
  apply bind_congr
  intro entries
  apply bind_congr
  intro _
  cases entries.any fun e => e.output == "index.html" <;> simp

def resultOf (folder : RawText) (stylesheet : String) (sources : Sources) : BuildResult :=
  ⟨sources.toList.map (entryOf stylesheet), folder⟩

/-- Once its folder is there, a build puts the files of the site into it and nothing else. -/
theorem puts_build {sources : Sources} (hlogical : ∀ source ∈ sources.paths, IsLogical source)
    (schedule : Schedule) (folder : RawText) (base : List RawText) (stylesheet : String) :
    Puts folder base
      (do
        let entries ← gatherBy (schedule.arrange sources.toList) sources.toList
          (buildPage folder stylesheet)
        writeListings folder stylesheet entries
        return (⟨entries, folder⟩ : BuildResult))
      (siteFiles schedule stylesheet sources) (resultOf folder stylesheet sources) := by
  have hpage : ∀ file ∈ sources.toList, Puts folder base (buildPage folder stylesheet file)
      [(pageNames file.1, pageText stylesheet file)] (entryOf stylesheet file) :=
    fun file hfile =>
      puts_buildPage (hlogical file.1 (List.mem_map_of_mem hfile)) folder base stylesheet
  have hpages := puts_gatherBy (schedule.perm sources.toList) sources.nodup_toList hpage
  have hlistings := Puts.bind (f := fun _ => pure (resultOf folder stylesheet sources))
    (puts_writeListings folder stylesheet base (sources.toList.map (entryOf stylesheet)))
    (Puts.pure folder base (resultOf folder stylesheet sources))
  rw [List.append_nil] at hlistings
  exact hpages.bind hlistings

theorem leads_of_makeFolders (hd : d.WellFormed) (hne : folder ≠ "")
    (hon : (makeFolders folder).on d = (.ok (), d')) : ∃ base, d'.Leads folder base := by
  obtain ⟨-, base, hwalk, hbase⟩ := holdsFolder_iff.mp (holdsFolder_of_makeFolders hne hon)
  have hgrown := GrownFrom.makeFolders (fun _ => False) folder d
  rw [hon] at hgrown
  exact ⟨base, hgrown.wellFormed hd, hwalk, hbase⟩

theorem leads_empty (hd : d.WellFormed) (hfolder : d.layout d.workingFolder = .folder) :
    d.Leads "" d.workingFolder := by
  refine ⟨hd, ?_, hfolder⟩
  have hwalk : d.walk "" = [[]].foldlM d.follow d.workingFolder := rfl
  rw [hwalk, List.foldlM_cons, follow_of_idle rfl hfolder]
  rfl

/-- No page is built from the working folder where that is no folder. -/
theorem buildPage_on_of_not_folder {file : String × String} (h : IsLogical file.1)
    (hfolder : d.layout d.workingFolder ≠ .folder) :
    ((buildPage "" stylesheet file).on d).2 = d := by
  have hrelative : isAbsolute (Path.join "" (pagePath file.1)) = false := by
    rw [Path.join, if_neg (by simp [(pieces_page h).1]), if_pos (.inl rfl), RawText.empty_append]
    exact (pieces_page h).1
  have hparents : ((makeParents (Path.join "" (pagePath file.1))).on d).2 = d := by
    rw [makeParents]
    split
    next parent hparent =>
      refine makeFolders_on_of_not_folder ?_ hfolder
      rw [← Bool.not_eq_true] at hrelative ⊢
      exact mt (isAbsolute_of_parent? hparent) hrelative
    next => rfl
  rw [buildPage_on]
  rcases hon : (makeParents (Path.join "" (pagePath file.1))).on d with ⟨e | x, d₁⟩ <;>
    rw [hon] at hparents <;> obtain rfl : d₁ = d := hparents
  · rfl
  · obtain ⟨cause, hfail⟩ := write_on_of_not_folder (pageText stylesheet file) hrelative hfolder
    dsimp only
    rw [hfail]

theorem runAll_on_of_same {actions : List (Action ε α)}
    (h : ∀ act ∈ actions, (act.on d).2 = d) : ((runAll actions).run d).2 = d := by
  induction actions with
  | nil => rfl
  | cons act more ih =>
    obtain ⟨hact, hmore⟩ := List.forall_mem_cons.mp h
    rw [runAll_cons, hact]
    exact ih hmore

theorem writeListings_on_of_not_folder (stylesheet : String) (entries : List PageEntry)
    (hfolder : d.layout d.workingFolder ≠ .folder) :
    ∃ cause, (writeListings "" stylesheet entries).on d = (.error cause, d) := by
  have hrelative : isAbsolute "manifest.json" = false := rfl
  obtain ⟨cause, hfail⟩ := write_on_of_not_folder (manifestText entries) hrelative hfolder
  have hpath : Path.join "" "manifest.json" = "manifest.json" := rfl
  refine ⟨.listing cause, ?_⟩
  rw [writeListings, Action.on_bind, failing_on, hpath, hfail]
  rfl

/-- A build that completes has a folder for its site. -/
theorem leads_of_buildWithBy {schedule : Schedule} {sources : Sources} {result : BuildResult}
    (hlogical : ∀ source ∈ sources.paths, IsLogical source) (hd : d.WellFormed)
    (hon : (buildWithBy schedule folder stylesheet sources).on d = (.ok result, d')) :
    ∃ d₁ base, (makeFolders folder).on d = (.ok (), d₁) ∧ d₁.Leads folder base := by
  rw [buildWithBy_eq] at hon
  obtain ⟨_, d₁, hfolder, hrest⟩ := Action.on_bind_eq_ok_iff.mp hon
  have hmade := failing_on_eq_ok_iff.mp hfolder
  by_cases hempty : folder = ""
  · subst hempty
    obtain ⟨-, rfl⟩ := Prod.mk.inj ((makeFolders_empty d).symm.trans hmade)
    by_cases hworking : d.layout d.workingFolder = .folder
    · exact ⟨d, d.workingFolder, hmade, leads_empty hd hworking⟩
    · -- Nothing is built, and in the end the manifest cannot be written.
      have hpages : ((runAll ((schedule.arrange sources.toList).map
          (buildPage "" stylesheet))).run d).2 = d := by
        refine runAll_on_of_same ?_
        intro act hact
        obtain ⟨file, hfile, rfl⟩ := List.mem_map.mp hact
        have hmem := (schedule.perm sources.toList).mem_iff.mp hfile
        exact buildPage_on_of_not_folder (hlogical _ (List.mem_map_of_mem hmem)) hworking
      obtain ⟨entries, d₂, hgather, hlistings⟩ := Action.on_bind_eq_ok_iff.mp hrest
      rw [gatherBy_on, hpages] at hgather
      obtain ⟨-, rfl⟩ := Prod.mk.inj hgather
      obtain ⟨_, d₃, hwrite, -⟩ := Action.on_bind_eq_ok_iff.mp hlistings
      obtain ⟨cause, hfail⟩ := writeListings_on_of_not_folder stylesheet entries hworking
      simp [hfail] at hwrite
  · obtain ⟨base, hleads⟩ := leads_of_makeFolders hd hempty hmade
    exact ⟨d₁, base, hmade, hleads⟩

theorem withSlashes_of_not_mem {path : String} (h : '\\' ∉ path.toList) :
    withSlashes path = path := by
  have hsame : ∀ c ∈ path.toList, (if c = '\\' then '/' else c) = id c := by
    intro c hc
    refine if_neg ?_
    rintro rfl
    exact h hc
  rw [withSlashes, List.map_congr_left hsame, List.map_id, String.ofList_toList]

theorem withSlashes_eq_iff {path text : String} (hslash : '/' ∉ text.toList)
    (hback : '\\' ∉ text.toList) : withSlashes path = text ↔ path = text := by
  constructor
  · intro h
    have hpath : '\\' ∉ path.toList := by
      intro hmem
      apply hslash
      rw [← h, withSlashes, String.toList_ofList]
      exact List.mem_map.mpr ⟨'\\', hmem, if_pos rfl⟩
    rw [← h, withSlashes_of_not_mem hpath]
  · rintro rfl
    exact withSlashes_of_not_mem hback

/-- The places of the files of a site with pages for the given sources. -/
def sitePlaces (paths : List String) : List (List RawText) :=
  paths.map pageNames ++ [RawText.ofText "manifest.json"] ::
    if RawText.ofText "index.html" ∈ paths.map pagePath then []
    else [[RawText.ofText "index.html"]]

structure Ready (d : Disk) (folder : RawText) (paths : List String) (d₁ : Disk)
    (base : List RawText) : Prop where
  made : (makeFolders folder).on d = (.ok (), d₁)
  leads : d₁.Leads folder base
  room : d₁.HasRoom folder base (sitePlaces paths)

theorem any_output_eq_iff (stylesheet : String) (files : List (String × String)) :
    ((files.map (entryOf stylesheet)).any fun e => e.output == "index.html") ↔
      RawText.ofText "index.html" ∈ (files.map Prod.fst).map pagePath := by
  rw [List.any_map, List.any_eq_true, List.map_map, List.mem_map]
  have hsame (file : String × String) :
      ((entryOf stylesheet file).output == "index.html") ↔ pagePath file.1 = "index.html" := by
    rw [beq_iff_eq, ← RawText.shown_eq_iff (by decide)]
    exact withSlashes_eq_iff (by decide) (by decide)
  simp only [Function.comp_apply, hsame]

theorem perm_siteFiles (schedule : Schedule) (stylesheet : String) (sources : Sources) :
    ((siteFiles schedule stylesheet sources).map Prod.fst).Perm (sitePlaces sources.paths) := by
  have hpages : ((pageFiles stylesheet (schedule.arrange sources.toList)).map Prod.fst).Perm
      (sources.paths.map pageNames) := by
    have harranged := ((schedule.perm sources.toList).map Prod.fst).map pageNames
    simpa [pageFiles, Sources.paths, Function.comp_def] using harranged
  have hlistings : (listingFiles stylesheet (sources.toList.map (entryOf stylesheet))).map
      Prod.fst = [RawText.ofText "manifest.json"] ::
        if RawText.ofText "index.html" ∈ sources.paths.map pagePath then []
        else [[RawText.ofText "index.html"]] := by
    have hindex := any_output_eq_iff stylesheet sources.toList
    rw [← Sources.paths] at hindex
    simp only [listingFiles, hindex]
    split <;> rfl
  rw [siteFiles, List.map_append, hlistings]
  exact hpages.append_right _

section
variable {sources : Sources} (hlogical : ∀ source ∈ sources.paths, IsLogical source)
include hlogical

/-- A build completes only where its folder can be made and has room, and leaves its files there. -/
theorem ready_of_buildWithBy {schedule : Schedule} {result : BuildResult} (hd : d.WellFormed)
    (hon : (buildWithBy schedule folder stylesheet sources).on d = (.ok result, d')) :
    ∃ d₁ base, Ready d folder sources.paths d₁ base ∧
      result = resultOf folder stylesheet sources ∧ d'.Leads folder base ∧
      d'.layout = d₁.layout.withFiles base (siteFiles schedule stylesheet sources) := by
  obtain ⟨d₁, base, hmade, hleads⟩ := leads_of_buildWithBy hlogical hd hon
  rw [buildWithBy_eq, Action.on_bind, failing_on_eq_ok_iff.mpr hmade] at hon
  obtain ⟨hvalue, hroom, hafter⟩ :=
    (puts_build hlogical schedule folder base stylesheet).on_eq_ok hleads hon
  exact ⟨d₁, base, ⟨hmade, hleads, hroom.of_perm (perm_siteFiles schedule stylesheet sources)⟩,
    hvalue, hafter⟩

/-- Where the folder is ready a build succeeds with the same result for every schedule, and leaves
the files of the site. -/
theorem Ready.buildWithBy {d₁ : Disk} (h : Ready d folder sources.paths d₁ base)
    (schedule : Schedule) (stylesheet : String) :
    ∃ d', (buildWithBy schedule folder stylesheet sources).on d =
        (.ok (resultOf folder stylesheet sources), d') ∧ d'.Leads folder base ∧
      d'.layout = d₁.layout.withFiles base (siteFiles schedule stylesheet sources) := by
  obtain ⟨d', hon, hafter⟩ := (puts_build hlogical schedule folder base stylesheet).run h.leads
    (h.room.of_perm (perm_siteFiles schedule stylesheet sources).symm)
  refine ⟨d', ?_, hafter⟩
  rw [buildWithBy_eq]
  exact Action.on_bind_eq_ok_iff.mpr ⟨(), d₁, failing_on_eq_ok_iff.mpr h.made, hon⟩

end

end StaticPreview.Site
