import StaticPreview.Proofs.Server.Burst
import StaticPreview.Proofs.Server.Memo
import StaticPreview.Proofs.Sources.Loads

/-! # Sources and a scan made now

An event about a component file leaves of its source what a scan would find in its place, with two
exceptions: what cannot be read is kept as it was, and a removal is believed without a look at the
disk. This is about files that no folder hides from a scan and that share their logical path with
no other file.
-/
namespace StaticPreview.Server
open StaticPreview.Path Disk

/-- The source folder of a loaded state is a path along names. -/
theorem exists_sourceFolder_of_load {d : Disk} {settings : Settings} {s : State}
    (hd : d.top.WellNamed) (hload : State.load d settings = .ok s) :
    ∃ folder, (∀ name ∈ folder, IsName name) ∧ s.settings.sourceFolder = ofNames folder := by
  obtain ⟨sources, hscan, rfl⟩ := exists_sources_of_load hload
  obtain ⟨e, hfind⟩ := Sources.exists_find?_of_scan hscan
  exact exists_resolve_eq_ofNames hd hfind

theorem Running.get?_next_event (r : Running) (e : Watch.Event) :
    let key := r.server.logical r.disk e.path
    (r.next (.event e)).server.sources.get? key =
      e.kind.textAfter (r.disk.read e.path).toOption (r.server.sources.get? key) :=
  (State.get?_handle r.disk r.server e _).trans (if_pos rfl)

/-- In every state that a run leads to, the source of a component file is, after an event about the
file, what the kind of the event makes of the text on the disk. A scan finds this text if no other
file that it takes has the logical path. -/
theorem Running.get?_next_scannedAt {d : Disk} {settings : Settings} {s : State}
    (hd : d.top.WellNamed) (hload : State.load d settings = .ok s) (happenings : List Happening)
    (hnow : (Running.run ⟨d, s⟩ happenings).disk.WellFormed) :
    let r := Running.run ⟨d, s⟩ happenings
    ∃ folder, (∀ name ∈ folder, IsName name) ∧ r.server.settings.sourceFolder = ofNames folder ∧
      ∀ names, names ≠ [] → (∀ name ∈ names, IsName name) →
        isComponentFile (ofNames (folder ++ names)) →
        (∀ name ∈ names.dropLast, isIgnoredFolder name = false) →
        let path := ofNames (folder ++ names)
        let key := r.server.logical r.disk path
        let onDisk := (r.disk.read path).toOption
        (∀ kind, (r.next (.event ⟨kind, path⟩)).server.sources.get? key =
          kind.textAfter onDisk (r.server.sources.get? key)) ∧
          (Sources.TakesAlone r.disk r.server.settings.sourceFolder names →
            Sources.scannedAt r.disk r.server.settings.sourceFolder key = onDisk) := by
  obtain ⟨folder, hfolder, hsource⟩ := exists_sourceFolder_of_load hd hload
  have hsettings := Running.settings_run ⟨d, s⟩ happenings
  dsimp only
  generalize Running.run ⟨d, s⟩ happenings = r at hnow hsettings ⊢
  have hsource : r.server.settings.sourceFolder = ofNames folder := by rw [hsettings, hsource]
  refine ⟨folder, hfolder, hsource, fun names hne hnames hcomponent hopen => ?_⟩
  have hall := List.forall_mem_append.mpr ⟨hfolder, hnames⟩
  refine ⟨fun kind => r.get?_next_event ⟨kind, ofNames (folder ++ names)⟩, fun hone => ?_⟩
  rw [hsource] at hone
  rw [State.logical_ofNames hsource hall, hsource, Sources.scannedAt_ofNames hnow hall hne hone,
    if_pos ⟨hcomponent, hopen⟩]

def withRow (row : Content) : Disk :=
  diskWith [("App.jsx", componentFile "a"), ("Row.jsx", .file row)]

def rowState : State :=
  .ofSources (Settings.default.resolve (withRow (.text "<li/>")))
    ((Sources.scan (withRow (.text "<li/>")) "src").toOption.getD .empty)

def rowOnDisk (row : Content) : Running :=
  .run ⟨withRow (.text "<li/>"), rowState⟩ [.disk (withRow row)]

theorem get?_next_rowSaved :
    State.load (withRow (.text "<li/>")) .default = .ok rowState ∧
      (withRow (.text "<li/>")).top.WellNamed ∧ (rowOnDisk (.text "<b/>")).disk.WellFormed ∧
      Sources.scannedAt (rowOnDisk (.text "<b/>")).disk "/p/src" "Row.jsx" = some "<b/>" ∧
      ((rowOnDisk (.text "<b/>")).next
        (.event ⟨.changed, "/p/src/Row.jsx"⟩)).server.sources.get? "Row.jsx" = some "<b/>" := by
  have hload : State.load (withRow (.text "<li/>")) .default = .ok rowState := rfl
  have hnamed : (withRow (.text "<li/>")).top.WellNamed := by decide +kernel
  have hnow : (rowOnDisk (.text "<b/>")).disk.WellFormed := by decide +kernel
  obtain ⟨folder, hfolder, hsource, hnames⟩ :=
    Running.get?_next_scannedAt hnamed hload [.disk (withRow (.text "<b/>"))] hnow
  obtain rfl : folder = (["p", "src"] : List RawText) :=
    ofNames_inj hfolder (by decide) (congrArg components hsource.symm)
  have hname : ∀ name ∈ [("Row.jsx" : RawText)], IsName name := by decide
  have hwhole : ∀ name ∈ [("Row.jsx" : RawText)], '\uFFFD' ∉ name.shown.toList := by
    decide +kernel
  obtain ⟨hget, hscanned⟩ := hnames ["Row.jsx"] (by simp) hname (by decide) (by simp)
  have hscanned := hscanned (Sources.takesAlone_of_whole hnow.wellNamed_top hname hwhole)
  have hpath :
      ofNames ([("p" : RawText), "src"] ++ [("Row.jsx" : RawText)]) = "/p/src/Row.jsx" := by
    decide
  have hsrc : ofNames ["p", "src"] = "/p/src" := by decide
  have hread : ((withRow (.text "<b/>")).read "/p/src/Row.jsx").toOption = some "<b/>" := rfl
  have hget := hget .changed
  rw [State.logical_ofNames hsource (by decide), slashed_singleton, RawText.shown_ofText, hpath]
    at hget hscanned
  rw [hsource, hsrc] at hscanned
  rw [rowOnDisk]
  exact ⟨hload, hnamed, hnow, hscanned.trans hread, hget.trans rfl⟩

/-- A file that can no longer be read is kept, and a file that is there is removed. -/
theorem get?_next_rowUnread :
    State.load (withRow (.text "<li/>")) .default = .ok rowState ∧
      Sources.scannedAt (rowOnDisk (.bytes [0xff, 0xfe])).disk "/p/src" "Row.jsx" = none ∧
      ((rowOnDisk (.bytes [0xff, 0xfe])).next
        (.event ⟨.changed, "/p/src/Row.jsx"⟩)).server.sources.get? "Row.jsx" = some "<li/>" ∧
      Sources.scannedAt (rowOnDisk (.text "<li/>")).disk "/p/src" "Row.jsx" = some "<li/>" ∧
      ((rowOnDisk (.text "<li/>")).next
        (.event ⟨.removed, "/p/src/Row.jsx"⟩)).server.sources.get? "Row.jsx" = none := by
  have hload : State.load (withRow (.text "<li/>")) .default = .ok rowState := rfl
  have hunreadable :
      Sources.scannedAt (rowOnDisk (.bytes [0xff, 0xfe])).disk "/p/src" "Row.jsx" = none := by
    decide +kernel
  have hkept : ((rowOnDisk (.bytes [0xff, 0xfe])).next
      (.event ⟨.changed, "/p/src/Row.jsx"⟩)).server.sources.get? "Row.jsx" = some "<li/>" := by
    decide +kernel
  have hthere :
      Sources.scannedAt (rowOnDisk (.text "<li/>")).disk "/p/src" "Row.jsx" = some "<li/>" := by
    decide +kernel
  have hgone : ((rowOnDisk (.text "<li/>")).next
      (.event ⟨.removed, "/p/src/Row.jsx"⟩)).server.sources.get? "Row.jsx" = none := by
    have hlogical : (rowOnDisk (.text "<li/>")).server.logical (rowOnDisk (.text "<li/>")).disk
        "/p/src/Row.jsx" = "Row.jsx" := by
      decide +kernel
    have hget := (rowOnDisk (.text "<li/>")).get?_next_event ⟨.removed, "/p/src/Row.jsx"⟩
    rw [hlogical] at hget
    exact hget
  exact ⟨hload, hunreadable, hkept, hthere, hgone⟩

end StaticPreview.Server
