import StaticPreview.Proofs.Site.Complete
import StaticPreview.Proofs.Sources.Frame

/-! # Building leaves its sources alone

A build writes files with names of pages and listings and makes folders, and it does nothing else
wherever it stops. No such name is one of a component, so a build never changes what a scan finds,
even where the site lies among the sources. A second build finds every file as it would write it.
-/
namespace StaticPreview.Site
open StaticPreview.Path Disk

variable {ε α β φ : Type} {own : RawText → Prop} {folder : RawText} {stylesheet : String}
  {base : List RawText} {d d' : Disk} {sources : Sources}

theorem grownFrom_bind {a : Action ε α} {f : α → Action ε β}
    (ha : (a.on d).2.GrownFrom own d)
    (hf : ∀ x d', ((f x).on d').2.GrownFrom own d') : ((a >>= f).on d).2.GrownFrom own d := by
  rw [Action.on_bind]
  rcases hon : a.on d with ⟨e | x, d'⟩ <;> rw [hon] at ha
  · exact ha
  · exact ha.trans (hf x d')

theorem grownFrom_failing {cause : DiskError → ε} {a : Action DiskError α}
    (h : (a.on d).2.GrownFrom own d) : ((failing cause a).on d).2.GrownFrom own d := by
  rw [failing_on]
  exact h

theorem grownFrom_runAll {actions : List (Action ε α)}
    (h : ∀ act ∈ actions, ∀ d, (act.on d).2.GrownFrom own d) (d : Disk) :
    ((runAll actions).run d).2.GrownFrom own d := by
  induction actions generalizing d with
  | nil => exact .refl own d
  | cons act more ih =>
    obtain ⟨hact, hmore⟩ := List.forall_mem_cons.mp h
    rw [runAll_cons]
    exact (hact d).trans (ih hmore (act.on d).2)

theorem grownFrom_buildPage {file : String × String} (h : IsLogical file.1)
    (folder : RawText) (stylesheet : String) (d : Disk) :
    ((buildPage folder stylesheet file).on d).2.GrownFrom IsOtherName d := by
  obtain ⟨last, hlast, hpage⟩ := getLast?_pieces_page h folder
  rw [buildPage_eq]
  refine grownFrom_bind (grownFrom_failing (.makeParents IsOtherName _ d)) fun _ d₁ => ?_
  refine grownFrom_bind (grownFrom_failing (.write ?_)) fun _ d₂ => .refl IsOtherName d₂
  intro name hname
  rw [hlast] at hname
  rw [← RawText.ext (Option.some.inj hname)]
  exact hpage.isComponentName

theorem grownFrom_writeName {name : RawText} (hname : IsName name) (hother : IsOtherName name)
    (folder : RawText) (text : String) (d : Disk) :
    ((write (Path.join folder name) text).on d).2.GrownFrom IsOtherName d := by
  refine GrownFrom.write ?_
  intro last hlast
  have hnames : ∀ other ∈ [name], IsName other := by simpa using hname
  have hpieces := pieces_under folder hnames (by simp)
  rw [under_singleton] at hpieces
  rw [hpieces, List.map_singleton, List.getLast?_concat] at hlast
  rw [← RawText.ext (Option.some.inj hlast)]
  exact hother

theorem grownFrom_writeListings (folder : RawText) (stylesheet : String)
    (entries : List PageEntry) (d : Disk) :
    ((writeListings folder stylesheet entries).on d).2.GrownFrom IsOtherName d := by
  have hmanifest : IsOtherName "manifest.json" := by decide
  have hindex : IsOtherName "index.html" := by decide
  rw [writeListings]
  refine grownFrom_bind
    (grownFrom_failing (grownFrom_writeName (by decide) hmanifest _ _ d)) fun _ d₁ => ?_
  split
  · exact .refl IsOtherName d₁
  · exact grownFrom_failing (grownFrom_writeName (by decide) hindex _ _ d₁)

/-- A build, whether or not it succeeds, writes only files with names of no component. -/
theorem grownFrom_buildWithBy (hlogical : ∀ source ∈ sources.paths, IsLogical source)
    (schedule : Schedule) (folder : RawText) (stylesheet : String) (d : Disk) :
    ((buildWithBy schedule folder stylesheet sources).on d).2.GrownFrom IsOtherName d := by
  rw [buildWithBy_eq]
  refine grownFrom_bind (grownFrom_failing (.makeFolders IsOtherName folder d)) fun _ d₁ => ?_
  refine grownFrom_bind ?_ fun entries d₂ => ?_
  · rw [gatherBy_on]
    refine grownFrom_runAll ?_ d₁
    intro act hact d
    obtain ⟨file, hfile, rfl⟩ := List.mem_map.mp hact
    have hmem := (schedule.perm sources.toList).mem_iff.mp hfile
    exact grownFrom_buildPage (hlogical _ (List.mem_map_of_mem hmem)) folder stylesheet d
  · exact grownFrom_bind (grownFrom_writeListings folder stylesheet entries d₂)
      fun _ d₃ => .refl IsOtherName d₃

theorem grownFrom_buildBy (hd : d.WellFormed) (schedule : Schedule) (settings : Settings)
    (stylesheet : String) :
    ((buildBy schedule settings stylesheet).on d).2.GrownFrom IsOtherName d := by
  rw [buildBy_on_eq]
  cases hscan : Sources.scan d settings.sourceFolder with
  | error cause => exact .refl IsOtherName d
  | ok sources =>
    exact grownFrom_buildWithBy (isLogical_of_scan hd hscan) schedule _ stylesheet d

theorem Ready.makeFolders_again {paths : List String} {d₁ : Disk}
    (h : Ready d folder paths d₁ base) (hleads : d'.Leads folder base) :
    (makeFolders folder).on d' = (.ok (), d') := by
  by_cases hempty : folder = ""
  · subst hempty
    exact makeFolders_empty d'
  · obtain ⟨hcheck, -⟩ := holdsFolder_iff.mp (holdsFolder_of_makeFolders hempty h.made)
    exact makeFolders_on_of_holdsFolder
      (holdsFolder_iff.mpr ⟨hcheck, base, hleads.walk, hleads.layout⟩)

/-- A second build yields the same and leaves all as it is. -/
theorem buildWithBy_again {schedule : Schedule} {result : BuildResult} (hd : d.WellFormed)
    (hlogical : ∀ source ∈ sources.paths, IsLogical source)
    (hdiffer : (sources.paths.map pagePath).Nodup)
    (hon : (buildWithBy schedule folder stylesheet sources).on d = (.ok result, d'))
    (schedule' : Schedule) :
    ∃ d'', (buildWithBy schedule' folder stylesheet sources).on d' = (.ok result, d'') ∧
      d''.layout = d'.layout := by
  obtain ⟨d₁, base, hready, rfl, hleads, hlayout⟩ := ready_of_buildWithBy hlogical hd hon
  have hroom := hready.room.of_perm (perm_siteFiles schedule stylesheet sources).symm
  have hready' : Ready d' folder sources.paths d' base :=
    ⟨hready.makeFolders_again hleads, hleads,
      (hroom.again hlayout).of_perm (perm_siteFiles schedule stylesheet sources)⟩
  obtain ⟨d'', hon', -, hlayout'⟩ := hready'.buildWithBy hlogical schedule' stylesheet
  refine ⟨d'', hon', ?_⟩
  rw [hlayout', hlayout]
  exact Layout.withFiles_again (siteFiles_perm schedule' schedule stylesheet sources) hroom.fits
    (nodup_siteFiles hlogical hdiffer schedule stylesheet)

/-- A build changes no component file and no scan of its sources, whether it completes or fails; and
after one that completes another one changes nothing. -/
theorem buildBy_frame {schedule : Schedule} {settings : Settings}
    {outcome : Except BuildError BuildResult} (hd : d.WellFormed)
    (hon : (buildBy schedule settings stylesheet).on d = (outcome, d')) :
    (∀ names content, isComponentFile (ofNames names) →
        (d'.entryAt? names = some (.file content) ↔ d.entryAt? names = some (.file content))) ∧
      Sources.scan d' settings.sourceFolder = Sources.scan d settings.sourceFolder ∧
      ∀ sources result, Sources.scan d settings.sourceFolder = .ok sources →
        outcome = .ok result → (sources.paths.map pagePath).Nodup → ∀ schedule', ∃ d'',
          (buildBy schedule' settings stylesheet).on d' = (.ok result, d'') ∧
            d''.layout = d'.layout := by
  have hgrown := grownFrom_buildBy hd schedule settings stylesheet
  rw [hon] at hgrown
  have hscans : ∀ sources, Sources.scan d settings.sourceFolder = .ok sources →
      Sources.scan d' settings.sourceFolder = .ok sources := fun sources hscan =>
    Sources.scan_of_grownFrom hd hgrown hscan
  refine ⟨?_, ?_, ?_⟩
  · intro names content hfile
    exact hgrown.entryAt?_eq_file_iff hd hfile
  · rw [buildBy_on_eq] at hon
    cases hscan : Sources.scan d settings.sourceFolder with
    | error cause =>
      rw [hscan] at hon
      rw [← (Prod.mk.inj hon).2, hscan]
    | ok sources => exact hscans sources hscan
  · intro sources result hscan hok hdiffer schedule'
    rw [buildBy_on schedule stylesheet hscan, hok] at hon
    obtain ⟨d'', hon', hlayout⟩ :=
      buildWithBy_again hd (isLogical_of_scan hd hscan) hdiffer hon schedule'
    exact ⟨d'', (buildBy_on schedule' stylesheet (hscans sources hscan)).trans hon', hlayout⟩

/-- The site lies among the sources. -/
def innerSite : Settings := ⟨"src", "src/site", none, true⟩

theorem canBuild_innerSite : CanBuild cardProject "src/site" cardSources.paths := by
  have hlogical := isLogical_of_scan wellFormed_cardProject scan_cardProject
  have hmade : (makeFolders "src/site").on cardProject =
      (.ok (), cardProject.put ["src", "site"] .emptyFolder) := rfl
  have hleads : (cardProject.put ["src", "site"] .emptyFolder).Leads "src/site" ["src", "site"] :=
    ⟨by decide, rfl, rfl⟩
  refine canBuild_of_empty hlogical hmade hleads ?_ ?_ ?_
  · intro names hne
    obtain ⟨name, more, rfl⟩ := List.exists_cons_of_ne_nil hne
    rfl
  · rw [sitePlaces_cardSources]
    decide
  · rw [sitePlaces_cardSources]
    decide

theorem buildBy_innerSite : ∃ result d',
    (buildBy .inOrder innerSite "").on cardProject = (.ok result, d') ∧
      Sources.scan d' "src" = .ok cardSources ∧
      ∃ d'', (buildBy .inOrder innerSite "").on d' = (.ok result, d'') ∧
        d''.layout = d'.layout := by
  have hscan : Sources.scan cardProject innerSite.sourceFolder = .ok cardSources :=
    scan_cardProject
  have hlogical := isLogical_of_scan wellFormed_cardProject hscan
  have hdiffer : (cardSources.paths.map pagePath).Nodup := by
    rw [paths_cardSources]
    decide +kernel
  obtain ⟨d₁, base, hready⟩ := ready_of_canBuild wellFormed_cardProject hlogical canBuild_innerSite
  obtain ⟨d', hon, -⟩ := hready.buildWithBy hlogical .inOrder ""
  have hbuild := (buildBy_on .inOrder "" hscan).trans hon
  obtain ⟨-, hsame, hagain⟩ := buildBy_frame wellFormed_cardProject hbuild
  exact ⟨_, d', hbuild, hsame.trans hscan, hagain _ _ hscan rfl hdiffer .inOrder⟩

end StaticPreview.Site
