import StaticPreview.Proofs.Site.Complete

/-! # Pages that share a place

Two sources whose paths differ in their extension alone have the same page. A build of both
completes, and the page is that of the source whose page was built last. The manifest points to the
page of every source if and only if no two sources share one, as long as no path has a backslash,
which the manifest turns into a slash.
-/
namespace StaticPreview.Site
open StaticPreview.Path Disk

variable {folder : RawText} {stylesheet : String} {d d' : Disk} {sources : Sources}

theorem pageNames_eq_iff {source source' : String} :
    pageNames source = pageNames source' ↔ pagePath source = pagePath source' := by
  constructor
  · exact split_inj
  · intro h
    rw [pageNames, h, pageNames]

/-- A page shares its place with pages only. -/
theorem filter_siteFiles (hlogical : ∀ source ∈ sources.paths, IsLogical source)
    {file : String × String} (hfile : file ∈ sources.toList) (schedule : Schedule)
    (stylesheet : String) :
    (siteFiles schedule stylesheet sources).filter (·.1 == pageNames file.1) =
      pageFiles stylesheet ((schedule.arrange sources.toList).filter
        fun other => pagePath other.1 == pagePath file.1) := by
  have hpages : (pageFiles stylesheet (schedule.arrange sources.toList)).filter
      (·.1 == pageNames file.1) = pageFiles stylesheet ((schedule.arrange sources.toList).filter
        fun other => pagePath other.1 == pagePath file.1) := by
    rw [pageFiles, List.filter_map]
    congr 2
    funext other
    simp [pageNames_eq_iff]
  have hlistings : (listingFiles stylesheet (sources.toList.map (entryOf stylesheet))).filter
      (·.1 == pageNames file.1) = [] := by
    have hsource := List.mem_map_of_mem (f := Prod.fst) hfile
    have hmanifest : [RawText.ofText "manifest.json"] ≠ pageNames file.1 := by
      intro h
      exact pagePath_ne_manifest (hlogical file.1 hsource)
        ((pageNames_eq_singleton_iff (by decide)).mp h.symm)
    rw [List.filter_eq_nil_iff, listingFiles]
    intro listing hlisting
    rw [beq_iff_eq]
    split at hlisting
    · rw [List.mem_singleton.mp hlisting]
      exact hmanifest
    next hindex =>
      rcases List.mem_cons.mp hlisting with rfl | hlisting
      · exact hmanifest
      · rw [List.mem_singleton.mp hlisting]
        intro h
        have hpage := (pageNames_eq_singleton_iff (by decide)).mp h.symm
        exact hindex ((any_output_eq_iff stylesheet sources.toList).mpr
          (List.mem_map.mpr ⟨file.1, hsource, hpage⟩))
  rw [siteFiles, List.filter_append, hpages, hlistings, List.append_nil]

/-- The page of a source has a text for its path, with no backslash that the source has not. -/
theorem exists_text_pagePath {source : String} (h : IsLogical source) : ∃ text : String,
    pagePath source = text ∧ ('\\' ∈ text.toList → '\\' ∈ source.toList) := by
  obtain ⟨names, hnames, rfl⟩ := h
  rcases names.eq_nil_or_concat with rfl | ⟨init, last, rfl⟩
  · exact ⟨"", rfl, by simp⟩
  · rw [List.concat_eq_append] at hnames ⊢
    obtain ⟨page, hpath, hkind⟩ := exists_pagePath_eq hnames
    refine ⟨_, hpath, ?_⟩
    rw [String.toList_intercalate, String.toList_intercalate]
    intro hmem
    rcases Text.mem_of_mem_intercalate hmem with hslash | ⟨line, hline, hin⟩
    · cases hslash
    · rw [List.map_append, List.mem_append, List.map_singleton, List.mem_singleton] at hline
      rcases hline with hinit | rfl
      · refine Text.mem_intercalate_of_mem '/' ?_ hin
        rw [List.map_append]
        exact List.mem_append_left _ hinit
      · have hlast : last.toList ∈ (init ++ [last]).map String.toList := by simp
        refine Text.mem_intercalate_of_mem '/' hlast ?_
        rcases hkind with rfl | ⟨stem, hstem, rfl⟩
        · exact absurd hin (by decide)
        · rw [String.toList_append, List.mem_append] at hin
          exact hstem.mem (hin.resolve_right (by decide))

/-- Without a backslash the manifest has the path of a page as it is. -/
theorem ofText_output {file : String × String} (h : IsLogical file.1) (hback : '\\' ∉ file.1.toList)
    (stylesheet : String) : RawText.ofText (entryOf stylesheet file).output = pagePath file.1 := by
  obtain ⟨text, hpath, htext⟩ := exists_text_pagePath h
  have houtput : (entryOf stylesheet file).output = withSlashes (pagePath file.1).shown := rfl
  rw [houtput, hpath, RawText.shown_ofText, withSlashes_of_not_mem (mt htext hback)]

/-- On the page of a source stands what was built last of all that have this page. -/
theorem Ready.read_page {d₁ : Disk} {base : List RawText} {schedule : Schedule}
    (hready : Ready d folder sources.paths d₁ base)
    (hlogical : ∀ source ∈ sources.paths, IsLogical source) (hleads : d'.Leads folder base)
    (hlayout : d'.layout = d₁.layout.withFiles base (siteFiles schedule stylesheet sources))
    {file : String × String} (hfile : file ∈ sources.toList) :
    ∃ last, ((schedule.arrange sources.toList).filter fun other =>
        pagePath other.1 == pagePath file.1).getLast? = some last ∧
      d'.read (Path.join folder (pagePath file.1)) = .ok (pageText stylesheet last) := by
  have hroom := hready.room.of_perm (perm_siteFiles schedule stylesheet sources).symm
  have hplace := List.mem_map_of_mem (f := Prod.fst) (mem_siteFiles_page hfile schedule stylesheet)
  obtain ⟨page, hpage, hstays⟩ := Layout.withFiles_apply hroom.fits hplace
  rw [filter_siteFiles hlogical hfile, pageFiles, List.getLast?_map,
    Option.map_eq_some_iff] at hpage
  obtain ⟨last, hlast, rfl⟩ := hpage
  refine ⟨last, hlast, ?_⟩
  rw [← under_pageNames]
  exact hleads.read_under (hroom.placeable _ hplace) ((congrFun hlayout _).trans hstays)

/-- Where no two pages have the same place, the last writer of a page is its own source. -/
theorem eq_of_getLast?_samePage {schedule : Schedule} {file last : String × String}
    (hdiffer : (sources.paths.map pagePath).Nodup) (hfile : file ∈ sources.toList)
    (hlast : ((schedule.arrange sources.toList).filter fun other =>
      pagePath other.1 == pagePath file.1).getLast? = some last) : last = file := by
  obtain ⟨hmem, hsame⟩ := List.mem_filter.mp (List.mem_of_getLast? hlast)
  rw [Sources.paths, List.map_map] at hdiffer
  exact List.inj_on_of_nodup_map hdiffer ((schedule.perm _).mem_iff.mp hmem) hfile
    (by simpa using hsame)

/-- Of the pages that share a place the one that is built last stays. -/
theorem buildBy_sharedPages {settings : Settings} {schedule : Schedule} {result : BuildResult}
    (hd : d.WellFormed) (hscan : Sources.scan d settings.sourceFolder = .ok sources)
    (hon : (buildBy schedule settings stylesheet).on d = (.ok result, d')) :
    result.entries = sources.toList.map (fun file =>
        pageEntry file.1 (Conversion.convert stylesheet file.2 file.1)) ∧
      (∀ file ∈ sources.toList, ∃ last,
        ((schedule.arrange sources.toList).filter fun other =>
          pagePath other.1 == pagePath file.1).getLast? = some last ∧
        d'.read (Path.join settings.outputFolder (pagePath file.1)) =
          .ok (Conversion.convert stylesheet last.2 last.1).html) ∧
      ((∀ source ∈ sources.paths, '\\' ∉ source.toList) →
        (((result.entries.map PageEntry.output).Nodup ∧ ∀ file ∈ sources.toList,
            d'.read (Path.join settings.outputFolder
                (pageEntry file.1 (Conversion.convert stylesheet file.2 file.1)).output) =
              .ok (Conversion.convert stylesheet file.2 file.1).html) ↔
          (sources.paths.map pagePath).Nodup)) := by
  have hlogical := isLogical_of_scan hd hscan
  rw [buildBy_on schedule stylesheet hscan] at hon
  obtain ⟨d₁, base, hready, rfl, hleads, hlayout⟩ := ready_of_buildWithBy hlogical hd hon
  refine ⟨rfl, fun file hfile => hready.read_page hlogical hleads hlayout hfile, ?_⟩
  intro hback
  have houtput : ∀ file ∈ sources.toList,
      RawText.ofText (entryOf stylesheet file).output = pagePath file.1 := by
    intro file hfile
    have hsource := List.mem_map_of_mem (f := Prod.fst) hfile
    exact ofText_output (hlogical _ hsource) (hback _ hsource) stylesheet
  have houtputs : ((resultOf settings.outputFolder stylesheet sources).entries.map
      PageEntry.output).map RawText.ofText = sources.paths.map pagePath := by
    rw [resultOf, Sources.paths, List.map_map, List.map_map, List.map_map]
    exact List.map_congr_left houtput
  have hnodup := List.nodup_map_iff (l := (resultOf settings.outputFolder stylesheet
    sources).entries.map PageEntry.output) fun s t => RawText.ofText_inj.mp
  rw [← hnodup, houtputs]
  refine ⟨And.left, fun hdiffer => ⟨hdiffer, ?_⟩⟩
  intro file hfile
  obtain ⟨last, hlast, hread⟩ := hready.read_page hlogical hleads hlayout hfile
  rw [eq_of_getLast?_samePage hdiffer hfile hlast, ← houtput file hfile] at hread
  exact hread

/-- Two components that differ in their extension alone. -/
def twinProject : Disk :=
  newProject (.folder [("App.jsx", .file (.text "return <p>a</p>;\n\x7d")),
    ("App.tsx", .file (.text "return <p>b</p>;\n\x7d"))])

def twinSources : Sources :=
  .ofList [("App.jsx", "return <p>a</p>;\n\x7d"), ("App.tsx", "return <p>b</p>;\n\x7d")]

theorem toList_twinSources : twinSources.toList =
    [("App.jsx", "return <p>a</p>;\n\x7d"), ("App.tsx", "return <p>b</p>;\n\x7d")] := by
  decide +kernel

theorem wellFormed_twinProject : twinProject.WellFormed := by decide

theorem scan_twinProject : Sources.scan twinProject Settings.default.sourceFolder =
    .ok twinSources :=
  rfl

theorem build_twinProject : ∃ d', (buildBy .inOrder .default "").on twinProject =
    (.ok (resultOf "dist" "" twinSources), d') := by
  have hpaths : twinSources.paths = ["App.jsx", "App.tsx"] := by
    rw [Sources.paths, toList_twinSources]
    rfl
  have hplaces : sitePlaces twinSources.paths =
      ([["App.html"], ["App.html"], ["manifest.json"], ["index.html"]] : List (List RawText)) := by
    rw [hpaths]
    decide +kernel
  have hcan : CanBuild twinProject "dist" twinSources.paths := by
    refine canBuild_newProject (by decide) rfl ?_ ?_ <;> rw [hplaces] <;> decide
  have hlogical := isLogical_of_scan wellFormed_twinProject scan_twinProject
  obtain ⟨d₁, base, hready⟩ := ready_of_canBuild wellFormed_twinProject hlogical hcan
  obtain ⟨d', hon, -⟩ := hready.buildWithBy hlogical .inOrder ""
  exact ⟨d', (buildBy_on .inOrder "" scan_twinProject).trans hon⟩

theorem buildBy_twinProject : ∃ result d',
    (buildBy .inOrder .default "").on twinProject = (.ok result, d') ∧
      d'.read "dist/App.html" =
        .ok (Conversion.convert "" "return <p>b</p>;\n\x7d" "App.tsx").html := by
  obtain ⟨d', hon⟩ := build_twinProject
  have hshared := buildBy_sharedPages wellFormed_twinProject scan_twinProject hon
  obtain ⟨last, hlast, hread⟩ := hshared.2.1 ("App.jsx", "return <p>a</p>;\n\x7d")
    (by rw [toList_twinSources]; exact List.mem_cons_self)
  have hsecond : last = ("App.tsx", "return <p>b</p>;\n\x7d") := by
    have harranged : Schedule.inOrder.arrange twinSources.toList = twinSources.toList := rfl
    rw [harranged, toList_twinSources] at hlast
    have hboth : ([("App.jsx", "return <p>a</p>;\n\x7d"),
        ("App.tsx", "return <p>b</p>;\n\x7d")].filter fun other =>
          pagePath other.1 == pagePath "App.jsx").getLast? =
          some ("App.tsx", "return <p>b</p>;\n\x7d") := by
      decide +kernel
    exact Option.some.inj (hlast.symm.trans hboth)
  rw [hsecond] at hread
  have hpath : Path.join "dist" (pagePath "App.jsx") = "dist/App.html" := by decide +kernel
  exact ⟨_, d', hon, hpath ▸ hread⟩

/-- The manifest lists one page for two sources. -/
theorem output_twinProject : ∃ result d',
    (build .default "").on twinProject = (.ok result, d') ∧
      ¬ (result.entries.map PageEntry.output).Nodup := by
  obtain ⟨d', hon⟩ := build_twinProject
  rw [buildBy_inOrder] at hon
  refine ⟨_, d', hon, ?_⟩
  have houtputs : (resultOf "dist" "" twinSources).entries.map PageEntry.output =
      ["App.jsx", "App.tsx"].map fun source => withSlashes (pagePath source).shown := by
    rw [resultOf, toList_twinSources]
    rfl
  rw [houtputs]
  decide +kernel

end StaticPreview.Site
