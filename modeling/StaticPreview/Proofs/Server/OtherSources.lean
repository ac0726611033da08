import StaticPreview.Proofs.Server.Order
import StaticPreview.Proofs.Server.Rescan

/-! # Sources that are not looked for

The entry is looked for under a few logical paths only. What happens to a source under another one
changes nothing that a client is shown or told. This needs the preview to be that of the sources
beforehand, as it is throughout a run: a stale preview would be brought up to date by any event.
-/
namespace StaticPreview

/-- Only the paths where the entry is looked for tell which one it is. -/
theorem Sources.entry?_congr {s t : Sources} {preferred : Option String}
    (h : ∀ path ∈ preferred.toList ++ entryCandidates, s.get? path = t.get? path) :
    s.entry? preferred = t.entry? preferred := by
  unfold entry?
  generalize preferred.toList ++ entryCandidates = paths at h
  induction paths with
  | nil => rfl
  | cons path more ih =>
    obtain ⟨hpath, hmore⟩ := List.forall_mem_cons.mp h
    rw [List.findSome?_cons, List.findSome?_cons, hpath, ih hmore]

namespace Server
open Disk

/-- The logical paths where a server looks for the entry. -/
def Settings.entryPaths (s : Settings) : List String := s.entry.toList ++ entryCandidates

theorem freshPreview_congr {s : Settings} {sources sources' : Sources}
    (h : sources.entry? s.entry = sources'.entry? s.entry) :
    freshPreview s sources = freshPreview s sources' := by
  rw [freshPreview, freshPreview, h]

/-- The last source that has to be shown in a run is among those of the run. -/
theorem Running.mem_entries_of_run {r : Running} {happenings : List Happening}
    {file : String × String} (h : (r.run happenings).shown? = some file) :
    file ∈ r.entries happenings := by
  induction happenings generalizing r with
  | nil => exact mem_entries_of_shown? h []
  | cons happening more ih => exact mem_entries_cons (ih h)

namespace State

section
variable {d : Disk} {s : State} {e : Watch.Event}

theorem entry?_handle (hother : s.logical d e.path ∉ s.settings.entryPaths) :
    (s.handle d e).2.sources.entry? s.settings.entry = s.sources.entry? s.settings.entry := by
  refine Sources.entry?_congr fun path hpath => ?_
  have hne : s.logical d e.path ≠ path := fun h => hother (h ▸ hpath)
  rw [get?_handle, if_neg hne]

theorem announce_eq_none (h : s.announce.2.current = s.current) : s.announce.1 = none := by
  rw [announce_snd] at h
  have hsame : (preview s.settings s.cache s.sources).1 = s.current := h
  simp [announce, refresh, hsame]

/-- The events that leave the preview alone and are not about public files are not told of. -/
theorem message_handle_eq_none (hkind : e.kind ≠ .other)
    (hcurrent : (s.handle d e).2.current = s.current) : (s.handle d e).1 = none := by
  rcases s.handle_cases d e with ⟨text, -, -, h⟩ | ⟨text, -, -, h⟩ | ⟨-, -, h⟩
  · rw [h] at hcurrent ⊢
    exact announce_eq_none hcurrent
  · rw [h] at hcurrent ⊢
    exact announce_eq_none hcurrent
  · rw [h, if_neg fun hpublic => hkind hpublic.1]

/-- The preview stays when an event is about a source that is not looked for as the entry. -/
theorem Coherent.current_handle {files : List (String × String)} (h : s.Coherent files)
    (hkeys : KeysDiffer files)
    (hentry : ∀ file ∈ s.sources.entry? s.settings.entry, file ∈ files)
    (hother : s.logical d e.path ∉ s.settings.entryPaths) :
    (s.handle d e).2.current = s.current := by
  have hsame := entry?_handle hother
  have hthen : (s.handle d e).2.Coherent files := h.handle hkeys d e (by rwa [hsame])
  calc (s.handle d e).2.current
      = freshPreview s.settings (s.handle d e).2.sources := by
        rw [hthen.current, settings_handle]
    _ = freshPreview s.settings s.sources := freshPreview_congr hsame
    _ = s.current := h.current.symm

end

end State

/-- In every state that a run leads to, an event about a source that is not looked for sends no
message, leaves the preview as it is, and changes no other source. -/
theorem Running.handle_otherSource {d : Disk} {settings : Settings} {s : State}
    (hload : State.load d settings = .ok s) (happenings : List Happening)
    (hkeys : KeysDiffer (Running.entries ⟨d, s⟩ happenings)) :
    let r := Running.run ⟨d, s⟩ happenings
    ∀ e : Watch.Event, e.kind ≠ .other → r.server.logical r.disk e.path ∉ settings.entryPaths →
      (r.server.handle r.disk e).1 = none ∧
        (∀ hub, (Session.handle r.disk ⟨r.server, hub⟩ e).hub = hub) ∧
        (r.server.handle r.disk e).2.current = r.server.current ∧
        ∀ key, key ≠ r.server.logical r.disk e.path →
          (r.server.handle r.disk e).2.sources.get? key = r.server.sources.get? key := by
  intro r e hkind hother
  have hcoherent : r.server.Coherent (Running.entries ⟨d, s⟩ happenings) :=
    coherent_of_load hload happenings hkeys
  have hpaths : r.server.settings.entryPaths = settings.entryPaths := by
    obtain ⟨sources, -, rfl⟩ := exists_sources_of_load hload
    rw [Running.settings_run]
    rfl
  rw [← hpaths] at hother
  have hcurrent :=
    hcoherent.current_handle hkeys (fun file hfile => mem_entries_of_run hfile) hother
  have hmessage := State.message_handle_eq_none hkind hcurrent
  refine ⟨hmessage, fun hub => ?_, hcurrent, fun key hkey => ?_⟩
  · rw [Session.hub_handle, hmessage]
    rfl
  · rw [State.get?_handle, if_neg hkey.symm]

/-- A file beside the entry is saved with another text. -/
theorem handle_rowSaved :
    State.load (withRow (.text "<li/>")) .default = .ok rowState ∧
      KeysDiffer (Running.entries ⟨withRow (.text "<li/>"), rowState⟩
        [.disk (withRow (.text "<b/>"))]) ∧
      let r := rowOnDisk (.text "<b/>")
      let e : Watch.Event := ⟨.changed, "/p/src/Row.jsx"⟩
      r.server.logical r.disk e.path = "Row.jsx" ∧ "Row.jsx" ∉ Settings.default.entryPaths ∧
        (r.server.handle r.disk e).1 = none ∧
        (r.server.handle r.disk e).2.current = r.server.current ∧
        (r.server.handle r.disk e).2.sources.get? "Row.jsx" = some "<b/>" ∧
        (r.server.handle r.disk e).2.sources.get? "App.jsx" = r.server.sources.get? "App.jsx" := by
  have hload : State.load (withRow (.text "<li/>")) .default = .ok rowState := rfl
  have hkeys : KeysDiffer (Running.entries ⟨withRow (.text "<li/>"), rowState⟩
      [.disk (withRow (.text "<b/>"))]) := by
    decide +kernel
  have hlogical : (rowOnDisk (.text "<b/>")).server.logical (rowOnDisk (.text "<b/>")).disk
      "/p/src/Row.jsx" = "Row.jsx" := by
    decide +kernel
  have hother : "Row.jsx" ∉ Settings.default.entryPaths := by decide
  have hnot : (rowOnDisk (.text "<b/>")).server.logical (rowOnDisk (.text "<b/>")).disk
      "/p/src/Row.jsx" ∉ Settings.default.entryPaths := by
    rw [hlogical]
    exact hother
  have hsaved : (rowOnDisk (.text "<b/>")).disk.read "/p/src/Row.jsx" = .ok "<b/>" := rfl
  rw [rowOnDisk] at hlogical hnot hsaved ⊢
  obtain ⟨hmessage, -, hcurrent, hsources⟩ :=
    Running.handle_otherSource hload [.disk (withRow (.text "<b/>"))] hkeys
      ⟨.changed, "/p/src/Row.jsx"⟩ (by decide) hnot
  refine ⟨hload, hkeys, hlogical, hother, hmessage, hcurrent, ?_, hsources "App.jsx" ?_⟩
  · rw [State.get?_handle, if_pos hlogical, hsaved]
    rfl
  · rw [hlogical]
    decide

end Server
end StaticPreview
