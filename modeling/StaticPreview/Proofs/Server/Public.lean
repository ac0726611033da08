import StaticPreview.Proofs.Server.Rescan

/-! # Public files

A page is loaded again after what happens to a public file, unless the file has the name of a
component file. Such a file becomes a source, though it lies in no folder of sources, and its
logical path is all of its path.
-/
namespace StaticPreview.Server
open StaticPreview.Path Disk Watch

/-- Whether an event is one that a watcher of folders can report. -/
def Reported (folders : List (List RawText)) (e : Event) : Prop :=
  (∃ kind, classify? kind e.path = some e) ∧ ∃ folder ∈ folders, Below folder e.path

/-- The events about a component file, and no others, tell of a source. -/
theorem kind_of_classify? {kind : Kind} {path : RawText} {e : Event}
    (h : classify? kind path = some e) : e.kind = .other ↔ ¬ isComponentFile path := by
  cases hcomponent : isComponentFile path <;> cases kind <;>
    simp only [classify?, hcomponent, Option.some.injEq, reduceCtorEq] at h <;> simp [← h]

theorem exists_events_eq {kind : Kind} (hkind : kind ∈ [Kind.create, .modify, .remove])
    (path : RawText) : ∃ e, events [⟨kind, [path]⟩] = [e] ∧ classify? kind path = some e ∧
      e.path = path := by
  have hclassify : ∃ e, classify? kind path = some e ∧ e.path = path := by
    simp only [List.mem_cons, List.not_mem_nil, or_false] at hkind
    rcases hkind with rfl | rfl | rfl <;> cases hcomponent : isComponentFile path <;>
      simp [classify?, hcomponent]
  obtain ⟨e, he, hpath⟩ := hclassify
  exact ⟨e, by simp [events, collect, he, addEvent], he, hpath⟩

theorem State.isPublic_ofNames {d : Disk} {s : State} {root names : List RawText}
    (hroot : s.settings.root = ofNames root)
    (h : ∀ name ∈ (root ++ [RawText.ofText "public"]) ++ names, IsName name) :
    s.isPublic d (ofNames ((root ++ [RawText.ofText "public"]) ++ names)) := by
  have hrootNames := (List.forall_mem_append.mp (List.forall_mem_append.mp h).1).1
  rw [isPublic, resolve_ofNames h, Settings.publicFolder, hroot,
    join_ofNames (h "public" (by simp)) hrootNames, isBelow, below?_ofNames h]
  rfl

theorem State.sources_handle_of_other {d : Disk} {s : State} {e : Event} (h : e.kind = .other) :
    (s.handle d e).2.sources = s.sources := by
  rw [handle, h]

/-- A change of a public file makes the pages reload just if the file has not the name of a
component. -/
theorem State.exists_events_reload_iff {s : State} {root names : List RawText}
    (hroot : s.settings.root = ofNames root)
    (h : ∀ name ∈ (root ++ [RawText.ofText "public"]) ++ names, IsName name) {kind : Kind}
    (hkind : kind ∈ [Kind.create, .modify, .remove]) (d : Disk) :
    let path := ofNames ((root ++ [RawText.ofText "public"]) ++ names)
    ∃ e, events [⟨kind, [path]⟩] = [e] ∧
      ((s.handle d e).1 = some .reload ∧ (s.handle d e).2.sources = s.sources ↔
        ¬ isComponentFile path) := by
  obtain ⟨e, hevents, hclassify, hpath⟩ :=
    exists_events_eq hkind (ofNames ((root ++ [RawText.ofText "public"]) ++ names))
  refine ⟨e, hevents, ?_⟩
  rw [handle_eq_reload_iff, hpath, ← kind_of_classify? hclassify, isPublic_ofNames hroot h]
  constructor
  · rintro ⟨⟨hother, -⟩, -⟩
    exact hother
  · intro hother
    exact ⟨⟨hother, rfl⟩, sources_handle_of_other hother⟩

/-- A source was there before, or an event tells of it. -/
theorem State.mem_paths_of_handle {d : Disk} {s : State} {e : Event} {key : String}
    (h : key ∈ (s.handle d e).2.sources.paths) :
    key ∈ s.sources.paths ∨ e.kind = .changed ∧ key = s.logical d e.path := by
  rw [Sources.mem_paths_iff, get?_handle] at h
  rw [Sources.mem_paths_iff]
  split at h
  next hkey =>
    cases hkind : e.kind with
    | changed => exact .inr ⟨rfl, hkey.symm⟩
    | removed => simp [hkind, EventKind.textAfter] at h
    | other =>
      rw [hkind] at h
      exact .inl h
  next => exact .inl h

/-- Each source was there at the start of a run or comes from an event that tells of its change. -/
theorem Running.mem_paths_of_run {r : Running} {happenings : List Happening} {key : String}
    (h : key ∈ (r.run happenings).server.sources.paths) :
    key ∈ r.server.sources.paths ∨ ∃ d e, .event e ∈ happenings ∧ e.kind = .changed ∧
      key = r.server.logical d e.path := by
  induction happenings generalizing r with
  | nil => exact .inl h
  | cons happening more ih =>
    rcases ih h with hbefore | ⟨d, e, hmem, hkind, hkey⟩
    · cases happening with
      | disk d => exact .inl hbefore
      | event e =>
        rcases State.mem_paths_of_handle hbefore with hfirst | ⟨hkind, hkey⟩
        · exact .inl hfirst
        · exact .inr ⟨r.disk, e, by simp, hkind, hkey⟩
    · refine .inr ⟨d, e, List.mem_cons_of_mem _ hmem, hkind, hkey.trans ?_⟩
      have hsettings : (r.next happening).server.settings = r.server.settings :=
        settings_run r [happening]
      rw [State.logical, State.logical, hsettings]

/-- The logical path of a source that a reported event tells of. -/
theorem Reported.logical {s : State} {folder assets : List RawText} {e : Event}
    (hsource : s.settings.sourceFolder = ofNames folder) (h : Reported [folder, assets] e)
    (hkind : e.kind = .changed) (d : Disk) :
    (∃ names, (∀ name ∈ names, IsName name) ∧ s.logical d e.path = slashed names) ∨
      Below assets e.path ∧ isComponentFile e.path ∧
        s.logical d e.path = Path.logical (ofNames folder) e.path := by
  obtain ⟨⟨kind, hclassify⟩, way, hway, names, hnames, hpath⟩ := h
  have hlogical : s.logical d e.path = Path.logical (ofNames folder) e.path := by
    rw [hpath, State.logical, resolve_ofNames hnames, hsource]
  have hway : way = folder ∨ way = assets := by simpa using hway
  rcases hway with rfl | rfl
  · refine .inl ⟨names, (List.forall_mem_append.mp hnames).2, ?_⟩
    rw [hlogical, hpath, Path.logical_ofNames hnames]
  · have hcomponent := mt (kind_of_classify? hclassify).mpr (by simp [hkind])
    exact .inr ⟨⟨names, hnames, hpath⟩, Decidable.not_not.mp hcomponent, hlogical⟩

/-- In every state that a run leads to, what happens to a public file makes the pages reload and
leaves the sources as they are, if and only if the file does not have the name of a component file.
A source has a logical path of names below the folder of sources, or comes of a public file with
such a name. -/
theorem load_run_public {d : Disk} {settings : Settings} {s : State} (hd : d.top.WellNamed)
    (hload : State.load d settings = .ok s) {root : List RawText}
    (hrootNames : ∀ name ∈ root, IsName name) (hroot : d.resolve settings.root = ofNames root)
    (happenings : List Happening) :
    let r := Running.run ⟨d, s⟩ happenings
    let assets := root ++ [RawText.ofText "public"]
    ∃ folder, (∀ name ∈ folder, IsName name) ∧ r.server.settings.sourceFolder = ofNames folder ∧
      (∀ kind ∈ [Kind.create, .modify, .remove], ∀ names, (∀ name ∈ names, IsName name) →
        let path := ofNames (assets ++ names)
        ∃ e, events [⟨kind, [path]⟩] = [e] ∧
          ((r.server.handle r.disk e).1 = some .reload ∧
              (r.server.handle r.disk e).2.sources = r.server.sources ↔
            ¬ isComponentFile path)) ∧
      ((∀ e, .event e ∈ happenings → Reported [folder, assets] e) →
        ∀ key ∈ r.server.sources.paths,
          (∃ names, (∀ name ∈ names, IsName name) ∧ key = slashed names) ∨
            ∃ path, .event ⟨.changed, path⟩ ∈ happenings ∧ Below assets path ∧
              isComponentFile path ∧ key = Path.logical (ofNames folder) path) := by
  obtain ⟨folder, hfolder, hsource⟩ := exists_sourceFolder_of_load hd hload
  obtain ⟨sources, hscan, rfl⟩ := exists_sources_of_load hload
  have hsettings := Running.settings_run ⟨d, .ofSources (settings.resolve d) sources⟩ happenings
  refine ⟨folder, hfolder, by rw [hsettings, hsource], ?event, ?run⟩
  case event =>
    intro kind hkind names hnames
    have hpublic : ∀ name ∈ [RawText.ofText "public"], IsName name := by decide
    have hassets := List.forall_mem_append.mpr ⟨hrootNames, hpublic⟩
    have hall := List.forall_mem_append.mpr ⟨hassets, hnames⟩
    exact State.exists_events_reload_iff (by rw [hsettings]; exact hroot) hall hkind _
  case run =>
    intro hreported key hkey
    rcases Running.mem_paths_of_run hkey with hbefore | ⟨d', ⟨_, path⟩, hmem, rfl, hlogical⟩
    · exact .inl (Sources.exists_names_of_scan hd hscan hbefore)
    · rw [hlogical]
      rcases (hreported _ hmem).logical hsource rfl d' with hnames | hpublic
      · exact .inl hnames
      · exact .inr ⟨path, hmem, hpublic⟩

def withPublic : Disk :=
  ⟨.folder [("p", .folder [("src", .folder [("App.jsx", componentFile "a")]),
    ("public", .folder [("app.js", .file (.text "go()")), ("logo.svg", .file (.text "<svg/>"))])])],
    ["p"]⟩

def publicState : State :=
  .ofSources (Settings.default.resolve withPublic)
    ((Sources.scan withPublic "src").toOption.getD .empty)

def scriptPath : RawText := ofNames ["p", "public", "app.js"]

def scriptSaved : List Happening := [.event ⟨.changed, scriptPath⟩]

theorem load_run_public_scriptSaved :
    let r := Running.run ⟨withPublic, publicState⟩ scriptSaved
    let assets : List RawText := ["p", "public"]
    withPublic.top.WellNamed ∧ State.load withPublic .default = .ok publicState ∧
      (∀ name ∈ [RawText.ofText "p"], IsName name) ∧ withPublic.resolve "." = ofNames ["p"] ∧
      (∀ e, .event e ∈ scriptSaved → Reported [["p", "src"], assets] e) ∧
      (∃ e, events [⟨.modify, [ofNames (assets ++ [RawText.ofText "logo.svg"])]⟩] = [e] ∧
        (r.server.handle r.disk e).1 = some .reload) ∧
      ∀ key ∈ r.server.sources.paths,
        (∃ names, (∀ name ∈ names, IsName name) ∧ key = slashed names) ∨
          ∃ path, .event ⟨.changed, path⟩ ∈ scriptSaved ∧ Below assets path ∧
            isComponentFile path ∧ key = Path.logical (ofNames ["p", "src"]) path := by
  have hnamed : withPublic.top.WellNamed := by decide +kernel
  have hload : State.load withPublic .default = .ok publicState := rfl
  have hroot : withPublic.resolve Settings.default.root = ofNames ["p"] := by decide +kernel
  have hreported : ∀ e, .event e ∈ scriptSaved →
      Reported [["p", "src"], ["p", "public"]] e := by
    intro e he
    obtain rfl : e = ⟨.changed, scriptPath⟩ := by simpa [scriptSaved] using he
    exact ⟨⟨.modify, by decide⟩, ["p", "public"], by decide, ["app.js"], by decide, rfl⟩
  obtain ⟨folder, hfolder, hsource, hone, hall⟩ :=
    load_run_public hnamed hload (by decide) hroot scriptSaved
  have hsame : ofNames folder = ofNames ["p", "src"] := by
    rw [← hsource, Running.settings_run]
    decide +kernel
  obtain rfl : folder = ([("p" : RawText), "src"]) :=
    ofNames_inj hfolder (by decide) (congrArg components hsame)
  obtain ⟨e, hevents, hiff⟩ := hone .modify (by decide) ["logo.svg"] (by decide)
  have hreload := (hiff.mpr (by decide)).1
  exact ⟨hnamed, hload, by decide, hroot, hreported, ⟨e, hevents, hreload⟩, hall hreported⟩

/-- A script that is saved among the public files becomes a source, and no page is loaded again. -/
theorem handle_scriptSaved :
    State.load withPublic .default = .ok publicState ∧
      events [⟨.modify, [scriptPath]⟩] = [⟨.changed, scriptPath⟩] ∧
      (publicState.handle withPublic ⟨.changed, scriptPath⟩).1 ≠ some .reload ∧
      publicState.sources.get? "//p/public/app.js" = none ∧
      (publicState.handle withPublic ⟨.changed, scriptPath⟩).2.sources.get? "//p/public/app.js" =
        some "go()" := by
  have hload : State.load withPublic .default = .ok publicState := rfl
  have hevents : events [⟨.modify, [scriptPath]⟩] = [⟨.changed, scriptPath⟩] := by decide
  have hmessage : (publicState.handle withPublic ⟨.changed, scriptPath⟩).1 ≠ some .reload := by
    intro h
    cases ((State.handle_eq_reload_iff _ _ _).mp h).1
  have hbefore : publicState.sources.get? "//p/public/app.js" = none := by decide +kernel
  have hlogical : publicState.logical withPublic scriptPath = "//p/public/app.js" := by
    decide +kernel
  have hread : withPublic.read scriptPath = .ok "go()" := rfl
  refine ⟨hload, hevents, hmessage, hbefore, ?_⟩
  rw [State.get?_handle, if_pos hlogical, hread]
  rfl

end StaticPreview.Server
