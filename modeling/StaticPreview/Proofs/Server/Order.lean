import Mathlib.Data.List.Nodup
import StaticPreview.Proofs.Server.Burst
import StaticPreview.Proofs.Server.Memo

/-! # Events about different files

An event changes the source that it is about and no other, whatever is shown meanwhile. So events
about different files may be heard of in any order: the previews on the way differ, and so does
what the cache keeps, but the last preview is that of the same sources.
-/
namespace StaticPreview
open Watch

/-- The sources after an event about one of them, where `onDisk` is the text of its file. -/
def Watch.EventKind.sourcesAfter (onDisk : Option String) (key : String) (s : Sources) :
    EventKind → Sources
  | .changed => onDisk.elim s (s.insert key)
  | .removed => s.erase key
  | .other => s

theorem Watch.EventKind.get?_sourcesAfter (kind : EventKind) (onDisk : Option String)
    (about : String) (s : Sources) (key : String) :
    (kind.sourcesAfter onDisk about s).get? key =
      if about = key then kind.textAfter onDisk (s.get? key) else s.get? key := by
  cases kind with
  | changed => cases onDisk <;> simp [sourcesAfter, textAfter, Sources.get?_insert]
  | removed => exact Sources.get?_erase s about key
  | other => simp [sourcesAfter, textAfter]

/-- Events about different sources commute. -/
theorem Watch.EventKind.sourcesAfter_comm {about about' : String} (hne : about ≠ about')
    (kind kind' : EventKind) (onDisk onDisk' : Option String) (s : Sources) :
    kind'.sourcesAfter onDisk' about' (kind.sourcesAfter onDisk about s) =
      kind.sourcesAfter onDisk about (kind'.sourcesAfter onDisk' about' s) := by
  apply Sources.ext
  intro key
  simp only [get?_sourcesAfter]
  by_cases hkey : about = key
  · have hkey' : about' ≠ key := fun h => hne (hkey.trans h.symm)
    simp [hkey, hkey']
  · simp [hkey]

namespace Server

namespace State

/-- The sources after an event depend on no preview. -/
theorem sources_handle (d : Disk) (s : State) (e : Event) :
    (s.handle d e).2.sources =
      e.kind.sourcesAfter (d.read e.path).toOption (s.logical d e.path) s.sources := by
  apply Sources.ext
  intro key
  rw [get?_handle, EventKind.get?_sourcesAfter]

/-- Hears of events in their order, while the disk is as it is. -/
def handleEach (d : Disk) (s : State) (events : List Event) : State :=
  events.foldl (fun s e => (s.handle d e).2) s

theorem sources_handleEach (d : Disk) (s : State) (events : List Event) :
    (s.handleEach d events).sources =
      events.foldl (fun sources e =>
        e.kind.sourcesAfter (d.read e.path).toOption (s.logical d e.path) sources) s.sources := by
  induction events generalizing s with
  | nil => rfl
  | cons e more ih =>
    refine (ih (s.handle d e).2).trans ?_
    simp only [logical_handle, sources_handle]
    rfl

/-- Events about different sources lead to the same sources in every order. -/
theorem sources_handleEach_of_perm {d : Disk} {s : State} {events events' : List Event}
    (hperm : events.Perm events') (hdiffer : (events.map fun e => s.logical d e.path).Nodup) :
    (s.handleEach d events).sources = (s.handleEach d events').sources := by
  rw [sources_handleEach, sources_handleEach]
  refine hperm.foldl_eq' (fun e he e' he' sources => ?_) s.sources
  by_cases hsame : e = e'
  · rw [hsame]
  · have hne : s.logical d e.path ≠ s.logical d e'.path :=
      fun h => hsame (List.inj_on_of_nodup_map hdiffer he he' h)
    exact EventKind.sourcesAfter_comm hne e.kind e'.kind _ _ sources

end State

namespace Running

theorem run_append (r : Running) (happenings more : List Happening) :
    r.run (happenings ++ more) = (r.run happenings).run more :=
  List.foldl_append

theorem run_events (r : Running) (events : List Event) :
    r.run (events.map .event) = ⟨r.disk, r.server.handleEach r.disk events⟩ := by
  induction events generalizing r with
  | nil => rfl
  | cons e more ih => exact ih (r.next (.event e))

/-- A server that was loaded is coherent after every run. -/
theorem coherent_of_load {d : Disk} {settings : Settings} {s : State}
    (hload : State.load d settings = .ok s) (happenings : List Happening)
    (hkeys : KeysDiffer (entries ⟨d, s⟩ happenings)) :
    (run ⟨d, s⟩ happenings).server.Coherent (entries ⟨d, s⟩ happenings) := by
  obtain ⟨sources, -, rfl⟩ := exists_sources_of_load hload
  refine coherent_run happenings ?_ hkeys fun _ h => h
  exact coherent_ofSources hkeys fun file hfile =>
    mem_entries_of_shown? (r := ⟨d, .ofSources (settings.resolve d) sources⟩) hfile happenings

/-- In every state that a run leads to, events about different files leave the same sources and
the same preview, in whatever order the server hears of them. -/
theorem run_events_of_perm {d : Disk} {settings : Settings} {s : State}
    (hload : State.load d settings = .ok s) (happenings : List Happening)
    {events events' : List Event} (hperm : events.Perm events')
    (hdiffer : (events.map fun e => (run ⟨d, s⟩ happenings).server.logical
      (run ⟨d, s⟩ happenings).disk e.path).Nodup)
    (hkeys : KeysDiffer (entries ⟨d, s⟩ (happenings ++ events.map .event)))
    (hkeys' : KeysDiffer (entries ⟨d, s⟩ (happenings ++ events'.map .event))) :
    let t := ((run ⟨d, s⟩ happenings).run (events.map .event)).server
    let t' := ((run ⟨d, s⟩ happenings).run (events'.map .event)).server
    t.sources = t'.sources ∧ t.current = t'.current := by
  have hcurrent := (coherent_of_load hload _ hkeys).current
  have hcurrent' := (coherent_of_load hload _ hkeys').current
  rw [settings_run, run_append] at hcurrent hcurrent'
  have hsources : ((run ⟨d, s⟩ happenings).run (events.map .event)).server.sources =
      ((run ⟨d, s⟩ happenings).run (events'.map .event)).server.sources := by
    rw [run_events, run_events]
    exact State.sources_handleEach_of_perm hperm hdiffer
  exact ⟨hsources, by rw [hcurrent, hcurrent', hsources]⟩

theorem entries_congr {r r' : Running} (hdisk : r.disk = r'.disk)
    (hsettings : r.server.settings = r'.server.settings)
    (hsources : r.server.sources = r'.server.sources) (happenings : List Happening) :
    r.entries happenings = r'.entries happenings := by
  induction happenings generalizing r r' with
  | nil => rw [entries, entries, shown?, shown?, hsettings, hsources]
  | cons happening more ih =>
    have hmore : (r.next happening).entries more = (r'.next happening).entries more := by
      cases happening with
      | disk d => exact ih rfl hsettings hsources
      | event e =>
        refine ih hdisk ?_ ?_
        · rw [next, next, State.settings_handle, State.settings_handle, hsettings]
        · rw [next, next, State.sources_handle, State.sources_handle, State.logical,
            State.logical, hdisk, hsettings, hsources]
    rw [entries, entries, shown?, shown?, hsettings, hsources, hmore]

/-- Hears of an event without a look at the preview. -/
def hear (r : Running) (e : Event) : Running :=
  let key := r.server.logical r.disk e.path
  let sources := e.kind.sourcesAfter (r.disk.read e.path).toOption key r.server.sources
  ⟨r.disk, { r.server with sources := sources }⟩

theorem entries_event (r : Running) (e : Event) (more : List Happening) :
    r.entries (.event e :: more) = r.shown?.toList ++ (r.hear e).entries more := by
  have hdisk : (r.next (.event e)).disk = (r.hear e).disk := rfl
  have hsettings : (r.next (.event e)).server.settings = (r.hear e).server.settings :=
    r.server.settings_handle r.disk e
  have hsources : (r.next (.event e)).server.sources = (r.hear e).server.sources :=
    r.server.sources_handle r.disk e
  rw [entries, entries_congr hdisk hsettings hsources]

end Running

def appGone : Disk := diskWith [("index.jsx", componentFile "c")]

def appRemoved : Event := ⟨.removed, "/p/src/App.jsx"⟩

def indexSaved : Event := ⟨.changed, "/p/src/index.jsx"⟩

theorem run_appRemoved_indexSaved :
    State.load twoSources .default = .ok loaded ∧
      (let r := Running.run ⟨twoSources, loaded⟩ [.disk appGone]
      ([appRemoved, indexSaved].map fun e => r.server.logical r.disk e.path).Nodup) ∧
      KeysDiffer (Running.entries ⟨twoSources, loaded⟩
        ([.disk appGone] ++ [appRemoved, indexSaved].map .event)) ∧
      KeysDiffer (Running.entries ⟨twoSources, loaded⟩
        ([.disk appGone] ++ [indexSaved, appRemoved].map .event)) ∧
      let r := Running.run ⟨twoSources, loaded⟩ [.disk appGone]
      let t := (r.run ([appRemoved, indexSaved].map .event)).server
      let t' := (r.run ([indexSaved, appRemoved].map .event)).server
      t.sources = t'.sources ∧ t.current = t'.current := by
  have hload : State.load twoSources .default = .ok loaded := rfl
  have hdiffer : ([appRemoved, indexSaved].map fun e =>
      (Running.run ⟨twoSources, loaded⟩ [.disk appGone]).server.logical
        (Running.run ⟨twoSources, loaded⟩ [.disk appGone]).disk e.path).Nodup := by
    decide +kernel
  have hkeys₁ : KeysDiffer (Running.entries ⟨twoSources, loaded⟩
      ([.disk appGone] ++ [appRemoved, indexSaved].map .event)) := by
    rw [List.map_cons, List.map_cons, List.singleton_append, Running.entries,
      Running.entries_event, Running.entries_event]
    decide +kernel
  have hkeys₂ : KeysDiffer (Running.entries ⟨twoSources, loaded⟩
      ([.disk appGone] ++ [indexSaved, appRemoved].map .event)) := by
    rw [List.map_cons, List.map_cons, List.singleton_append, Running.entries,
      Running.entries_event, Running.entries_event]
    decide +kernel
  exact ⟨hload, hdiffer, hkeys₁, hkeys₂,
    Running.run_events_of_perm hload _ (.swap ..) hdiffer hkeys₁ hkeys₂⟩

end Server
end StaticPreview
