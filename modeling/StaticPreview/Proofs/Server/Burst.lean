import StaticPreview.Proofs.Disk.Resolve
import StaticPreview.Proofs.Server.Broadcast
import StaticPreview.Proofs.Watch.Burst

/-! # Sources after a burst

A burst is heard of when it is over. What it tells of a file need not be in the order in which it
happened, since a second report of one kind is left out: a file that was changed, removed and made
again counts as removed.
-/
namespace StaticPreview
open StaticPreview.Path Watch

/-- The text of a source after an event about it, where `onDisk` is the text of its file. -/
def Watch.EventKind.textAfter (onDisk held : Option String) : EventKind → Option String
  | .changed => onDisk.or held
  | .removed => none
  | .other => held

namespace Server

/-- An event changes no source but the one that it is about. -/
theorem State.get?_handle (d : Disk) (s : State) (e : Event) (key : String) :
    (s.handle d e).2.sources.get? key =
      if s.logical d e.path = key then
        e.kind.textAfter (d.read e.path).toOption (s.sources.get? key)
      else s.sources.get? key := by
  rcases s.handle_cases d e with ⟨text, hkind, htext, h⟩ | ⟨text, hkind, -, h⟩ | ⟨hread, hget, h⟩
  · rw [h, sources_announce, Sources.get?_insert, hkind, htext]
    simp [EventKind.textAfter, Except.toOption]
  · rw [h, sources_announce, Sources.get?_erase, hkind]
    rfl
  · rw [h]
    by_cases hkey : s.logical d e.path = key
    · subst hkey
      rw [if_pos rfl]
      cases hkind : e.kind with
      | changed =>
        cases htext : d.read e.path with
        | ok text => exact absurd htext (hread text hkind)
        | error cause => rfl
      | removed => simp [EventKind.textAfter, hget hkind]
      | other => rfl
    · rw [if_neg hkey]

/-- Whether a path spells the names of an entry below a folder. -/
def Below (folder : List RawText) (path : RawText) : Prop :=
  ∃ names, (∀ name ∈ folder ++ names, IsName name) ∧ path = ofNames (folder ++ names)

section
variable {d : Disk} {folder names : List RawText} (hnames : ∀ name ∈ folder ++ names, IsName name)

theorem State.logical_ofNames {s : State} (hfolder : s.settings.sourceFolder = ofNames folder)
    (hnames : ∀ name ∈ folder ++ names, IsName name) :
    s.logical d (ofNames (folder ++ names)) = slashed names := by
  rw [logical, hfolder, Disk.resolve_ofNames hnames, Path.logical_ofNames hnames]

include hnames

/-- Whether of some paths only the one along names below a folder has its logical path. -/
def Unshared (folder names : List RawText) (paths : List RawText) : Prop :=
  ∀ path ∈ paths, Path.logical (ofNames folder) path = slashed names →
    path = ofNames (folder ++ names)

theorem unshared_of_whole (hwhole : ∀ name ∈ names, '\uFFFD' ∉ name.shown.toList)
    {paths : List RawText} (hpaths : ∀ path ∈ paths, Below folder path) :
    Unshared folder names paths := by
  intro path hpath hlogical
  obtain ⟨names', hnames', rfl⟩ := hpaths path hpath
  have hright := (List.forall_mem_append.mp hnames).2
  have hright' := (List.forall_mem_append.mp hnames').2
  rw [Path.logical_ofNames hnames', slashed_eq_iff hright' hright] at hlogical
  rw [eq_of_map_shown_eq hwhole hlogical]

/-- Only the path of a file itself has its logical path, if no other one shares it. -/
theorem State.logical_eq_iff {s : State} (hfolder : s.settings.sourceFolder = ofNames folder)
    {path : RawText} (hpath : Below folder path) (hone : Unshared folder names [path]) :
    s.logical d path = slashed names ↔ path = ofNames (folder ++ names) := by
  constructor
  · intro h
    obtain ⟨names', hnames', rfl⟩ := hpath
    refine hone _ List.mem_cons_self ?_
    rwa [Path.logical_ofNames hnames', ← logical_ofNames hfolder hnames']
  · rintro rfl
    exact logical_ofNames hfolder hnames

/-- Of all events only those about a file tell on its source. -/
theorem Session.get?_handleAll {s : Session}
    (hfolder : s.state.settings.sourceFolder = ofNames folder) {es : List Event}
    (hes : ∀ e ∈ es, Below folder e.path) (hone : Unshared folder names (es.map Event.path)) :
    (s.handleAll d es).state.sources.get? (slashed names) =
      (es.filter (·.path == ofNames (folder ++ names))).foldl
        (fun held e => e.kind.textAfter (d.read (ofNames (folder ++ names))).toOption held)
        (s.state.sources.get? (slashed names)) := by
  induction es generalizing s with
  | nil => rfl
  | cons e more ih =>
    obtain ⟨he, hmore⟩ := List.forall_mem_cons.mp hes
    obtain ⟨hfirst, hothers⟩ := List.forall_mem_cons.mp hone
    have hstep : (s.handle d e).state = (s.state.handle d e).2 := rfl
    have hfolder' : (s.handle d e).state.settings.sourceFolder = ofNames folder := by
      rw [hstep, State.settings_handle, hfolder]
    have hrest := ih hfolder' hmore hothers
    have honly : Unshared folder names [e.path] := by simpa [Unshared] using hfirst
    have hlogical := State.logical_eq_iff (d := d) hnames hfolder he honly
    rw [handleAll, List.foldl_cons]
    refine hrest.trans ?_
    rw [hstep, State.get?_handle, List.filter_cons]
    simp only [hlogical, beq_iff_eq]
    split
    next hpath => rw [List.foldl_cons, hpath]
    next => rfl

/-- Whether a burst is about component files below a folder, ends for each of them as the disk has
it, and leaves each that is there readable. -/
structure InStep (d : Disk) (folder : List RawText) (burst : List Signal) : Prop where
  aboutSources : AboutSources burst
  below : ∀ report ∈ reports burst, Below folder report.2
  last : ∀ report ∈ reports burst,
    ((kindsOf report.2 burst).getLast? = some .remove ↔ d.holds report.2 = false)
  readable : ∀ report ∈ reports burst, d.holds report.2 → ∃ text, d.read report.2 = .ok text

/-- Whether a burst tells of the removal of a file that is there, and told of the file before. -/
def HidesFile (d : Disk) (burst : List Signal) (path : RawText) : Prop :=
  d.holds path ∧ (kindsOf path burst).head? ≠ some .remove ∧ .remove ∈ kindsOf path burst

instance (d : Disk) (burst : List Signal) (path : RawText) : Decidable (HidesFile d burst path) :=
  inferInstanceAs (Decidable (_ ∧ _ ∧ _))

omit hnames in
theorem read_of_not_holds {path : RawText} (h : d.holds path = false) :
    (d.read path).toOption = none := by
  rw [Disk.holds, Disk.find?] at h
  rw [Disk.read]
  cases hfind : d.find path with
  | ok e => simp [hfind, Except.toOption] at h
  | error cause => rfl

omit hnames in
theorem eventOf_eq_or (path : RawText) (kinds : List Kind) :
    ∀ e ∈ kinds.map fun kind => eventOf (kind, path),
      e = ⟨.removed, path⟩ ∨ e = ⟨.changed, path⟩ := by
  intro e he
  obtain ⟨kind, -, rfl⟩ := List.mem_map.mp he
  by_cases hkind : kind = .remove <;> simp [eventOf, hkind]

omit hnames in
/-- What the events about one file make of its source. -/
theorem foldl_textAfter_eraseDups (path : RawText) (onDisk held : Option String) (kind : Kind)
    (more : List Kind) :
    (((kind :: more).map fun k => eventOf (k, path)).eraseDups).foldl
        (fun held e => e.kind.textAfter onDisk held) held =
      if kind = .remove then (if ∃ k ∈ more, k ≠ .remove then onDisk else none)
      else if .remove ∈ more then none else onDisk.or held := by
  have hne : (⟨.removed, path⟩ : Event) ≠ ⟨.changed, path⟩ := by simp
  have htwo := eventOf_eq_or path more
  rw [List.map_cons]
  by_cases hkind : kind = .remove
  · have hmem : ⟨.changed, path⟩ ∈ (more.map fun k => eventOf (k, path)) ↔
        ∃ k ∈ more, k ≠ .remove := by
      simp [eventOf]
    have hfirst : eventOf (kind, path) = ⟨.removed, path⟩ := by simp [eventOf, hkind]
    rw [hfirst, eraseDups_of_two hne htwo, if_pos hkind]
    simp only [hmem]
    split <;> simp [EventKind.textAfter]
  · have hmem : ⟨.removed, path⟩ ∈ (more.map fun k => eventOf (k, path)) ↔ .remove ∈ more := by
      simp [eventOf]
    have hfirst : eventOf (kind, path) = ⟨.changed, path⟩ := by simp [eventOf, hkind]
    rw [hfirst, eraseDups_of_two hne.symm fun e he => (htwo e he).symm, if_neg hkind]
    simp only [hmem]
    split <;> simp [EventKind.textAfter]

omit hnames in
theorem InStep.path_of_mem {burst : List Signal} (h : InStep d folder burst) {e : Event}
    (he : e ∈ allEvents burst) : Below folder e.path := by
  rw [allEvents_of_aboutSources h.aboutSources] at he
  obtain ⟨report, hreport, rfl⟩ := List.mem_map.mp he
  exact h.below report hreport

omit hnames in
theorem InStep.oneSpelling {burst : List Signal} (h : InStep d folder burst) :
    OneSpelling (allEvents burst) := by
  intro a ha b hb hsame
  obtain ⟨names, hnames, hpath⟩ := h.path_of_mem ha
  obtain ⟨names', hnames', hpath'⟩ := h.path_of_mem hb
  rw [Path.same, beq_iff_eq, hpath, hpath'] at hsame
  rw [hpath, hpath', ofNames_inj hnames hnames' hsame]

/-- The source that a burst leaves behind, from the kinds that the burst reports of its file. -/
theorem Session.get?_handleAll_events_eq {s : Session}
    (hfolder : s.state.settings.sourceFolder = ofNames folder) {burst : List Signal}
    (h : InStep d folder burst) (hone : Unshared folder names ((reports burst).map Prod.snd))
    {kind : Kind} {more : List Kind}
    (hkinds : kindsOf (ofNames (folder ++ names)) burst = kind :: more) :
    (s.handleAll d (events burst)).state.sources.get? (slashed names) =
      let onDisk := (d.read (ofNames (folder ++ names))).toOption
      if kind = .remove then (if ∃ k ∈ more, k ≠ .remove then onDisk else none)
      else if .remove ∈ more then none
      else onDisk.or (s.state.sources.get? (slashed names)) := by
  have hevents := events_eq_eraseDups h.oneSpelling
  have hbelow : ∀ e ∈ events burst, Below folder e.path := by
    intro e he
    rw [hevents] at he
    exact h.path_of_mem (List.mem_eraseDups.mp he)
  have hpaths : Unshared folder names ((events burst).map Event.path) := by
    intro path hpath
    obtain ⟨e, he, rfl⟩ := List.mem_map.mp hpath
    rw [hevents, List.mem_eraseDups, allEvents_of_aboutSources h.aboutSources] at he
    obtain ⟨report, hreport, rfl⟩ := List.mem_map.mp he
    exact hone report.2 (List.mem_map_of_mem hreport)
  rw [get?_handleAll hnames hfolder hbelow hpaths, hevents, filter_eraseDups,
    filter_allEvents h.aboutSources, hkinds, foldl_textAfter_eraseDups]

/-- After a burst a source holds what is on the disk just if the burst does not hide its file. -/
theorem Session.get?_handleAll_events {s : Session}
    (hfolder : s.state.settings.sourceFolder = ofNames folder) {burst : List Signal}
    (h : InStep d folder burst) (hone : Unshared folder names ((reports burst).map Prod.snd))
    (hmem : ofNames (folder ++ names) ∈ (reports burst).map Prod.snd) :
    (s.handleAll d (events burst)).state.sources.get? (slashed names) =
        (d.read (ofNames (folder ++ names))).toOption ↔
      ¬ HidesFile d burst (ofNames (folder ++ names)) := by
  obtain ⟨report, hreport, hpath⟩ := List.mem_map.mp hmem
  have hlast := h.last report hreport
  have hreadable := h.readable report hreport
  rw [hpath] at hlast hreadable
  have hreported : report.1 ∈ kindsOf (ofNames (folder ++ names)) burst :=
    List.mem_map_of_mem (List.mem_filter.mpr ⟨hreport, by simpa using hpath⟩)
  obtain ⟨kind, more, hkinds⟩ := List.exists_cons_of_ne_nil (List.ne_nil_of_mem hreported)
  rw [get?_handleAll_events_eq hnames hfolder h hone hkinds, HidesFile, hkinds]
  rw [hkinds] at hlast
  have hlastMem {k : Kind} (hk : (kind :: more).getLast? = some k) : k = kind ∨ k ∈ more :=
    List.mem_cons.mp (List.mem_of_getLast? hk)
  cases hholds : d.holds (ofNames (folder ++ names)) with
  | false =>
    -- The file is gone, and a removal is all that the source needs.
    have hremove : kind ≠ .remove → .remove ∈ more := fun hne =>
      (hlastMem (hlast.mpr hholds)).resolve_left hne.symm
    simp only [read_of_not_holds hholds]
    by_cases hkind : kind = .remove
    · simp [hkind]
    · simp [hkind, hremove hkind]
  | true =>
    obtain ⟨text, htext⟩ := hreadable hholds
    obtain ⟨k, hk⟩ : ∃ k, (kind :: more).getLast? = some k :=
      ⟨_, List.getLast?_eq_some_getLast (List.cons_ne_nil kind more)⟩
    have hne : k ≠ .remove := by
      rintro rfl
      simp [hlast.mp hk] at hholds
    simp only [htext, Except.toOption]
    by_cases hkind : kind = .remove
    · have hmore : ∃ k ∈ more, k ≠ .remove :=
        ⟨k, (hlastMem hk).resolve_left fun h => hne (h.trans hkind), hne⟩
      simp [hkind, hmore]
    · simp [hkind, Ne.symm hkind]

end

def rowFile : Disk :=
  ⟨.folder [("p", .folder [("src", .folder [("Row.jsx", .file (.text "<li/>"))])])], []⟩

def rowPath : RawText := ofNames ["p", "src", "Row.jsx"]

def rowBurst (kinds : List Kind) : List Signal :=
  kinds.map fun kind => ⟨kind, [rowPath]⟩

def rowSession : Session :=
  ⟨.ofSources { Settings.default with sourceFolder := ofNames ["p", "src"] } .empty, .new⟩

theorem reports_rowBurst (kinds : List Kind) :
    reports (rowBurst kinds) = kinds.map fun kind => (kind, rowPath) := by
  rw [reports, rowBurst, List.flatMap_map, List.map_eq_flatMap]
  rfl

theorem kindsOf_rowBurst (kinds : List Kind) : kindsOf rowPath (rowBurst kinds) = kinds := by
  rw [kindsOf, reports_rowBurst, List.filter_map, List.map_map]
  simp [Function.comp_def]

theorem inStep_rowBurst {kinds : List Kind}
    (hkinds : ∀ kind ∈ kinds, kind ∈ [Kind.create, .modify, .remove])
    (hlast : kinds.getLast? ≠ some .remove) : InStep rowFile ["p", "src"] (rowBurst kinds) := by
  have hreport {report : Kind × RawText} (h : report ∈ reports (rowBurst kinds)) :
      report.1 ∈ kinds ∧ report.2 = rowPath := by
    rw [reports_rowBurst] at h
    obtain ⟨kind, hkind, rfl⟩ := List.mem_map.mp h
    exact ⟨hkind, rfl⟩
  refine ⟨fun report h => ⟨hkinds _ (hreport h).1, ?_⟩, fun report h => ?_, fun report h => ?_,
    fun report h _ => ?_⟩ <;> rw [(hreport h).2]
  · decide +kernel
  · exact ⟨["Row.jsx"], by decide, rfl⟩
  · rw [kindsOf_rowBurst]
    exact ⟨fun h => absurd h hlast, fun h => absurd h (by decide +kernel)⟩
  · exact ⟨"<li/>", rfl⟩

theorem isName_rowFile : ∀ name ∈ [("p" : RawText), "src"] ++ [("Row.jsx" : RawText)],
    IsName name := by
  decide

theorem unshared_rowBurst {kinds : List Kind}
    (hstep : InStep rowFile ["p", "src"] (rowBurst kinds)) :
    Unshared ["p", "src"] ["Row.jsx"] ((reports (rowBurst kinds)).map Prod.snd) :=
  unshared_of_whole isName_rowFile (by decide +kernel) (List.forall_mem_map.mpr hstep.below)

theorem get?_handleAll_removed_created :
    rowSession.state.settings.sourceFolder = ofNames ["p", "src"] ∧
      InStep rowFile ["p", "src"] (rowBurst [.remove, .create]) ∧
      Unshared ["p", "src"] ["Row.jsx"]
        ((reports (rowBurst [.remove, .create])).map Prod.snd) ∧
      rowPath ∈ (reports (rowBurst [.remove, .create])).map Prod.snd ∧
      ¬ HidesFile rowFile (rowBurst [.remove, .create]) rowPath ∧
      (rowSession.handleAll rowFile (events (rowBurst [.remove, .create]))).state.sources.get?
        "Row.jsx" = (rowFile.read rowPath).toOption := by
  have hfolder : rowSession.state.settings.sourceFolder = ofNames ["p", "src"] := rfl
  have hstep : InStep rowFile ["p", "src"] (rowBurst [.remove, .create]) :=
    inStep_rowBurst (by decide) (by decide)
  have hmem : rowPath ∈ (reports (rowBurst [.remove, .create])).map Prod.snd := by decide
  have hnot : ¬ HidesFile rowFile (rowBurst [.remove, .create]) rowPath := by decide +kernel
  have hone := unshared_rowBurst hstep
  have hget := (Session.get?_handleAll_events isName_rowFile hfolder hstep hone hmem).mpr hnot
  rw [slashed_singleton, RawText.shown_ofText] at hget
  exact ⟨hfolder, hstep, hone, hmem, hnot, hget⟩

/-- A file that is modified, removed and made again in one burst is no source any more. -/
theorem get?_handleAll_modified_removed_created :
    InStep rowFile ["p", "src"] (rowBurst [.modify, .remove, .create]) ∧
      rowPath ∈ (reports (rowBurst [.modify, .remove, .create])).map Prod.snd ∧
      rowFile.read rowPath = .ok "<li/>" ∧
      (rowSession.handleAll rowFile
        (events (rowBurst [.modify, .remove, .create]))).state.sources.get? "Row.jsx" = none := by
  have hstep : InStep rowFile ["p", "src"] (rowBurst [.modify, .remove, .create]) :=
    inStep_rowBurst (by decide) (by decide)
  have hget := Session.get?_handleAll_events_eq (s := rowSession) isName_rowFile rfl hstep
    (unshared_rowBurst hstep) (kindsOf_rowBurst [.modify, .remove, .create])
  exact ⟨hstep, by decide, rfl, by simpa using hget⟩

end Server
end StaticPreview
