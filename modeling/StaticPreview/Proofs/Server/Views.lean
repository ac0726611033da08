import StaticPreview.Proofs.Server.Memo
import StaticPreview.Proofs.Server.Shell
import StaticPreview.Proofs.Server.Status
import StaticPreview.Proofs.Sources.Texts
import StaticPreview.Proofs.Text.ByteOrder

/-! # What a server shows

The shell page, the preview and the status are three views of one state. What the page shows of the
preview is what the other two tell.
-/
namespace StaticPreview

def Conversion.Explained (c : Conversion) : Prop :=
  c.success = false → ∃ error, c.error = some error ∧ error ≠ ""

theorem ConversionError.message_ne_nil (e : ConversionError) : e.message ≠ [] := by
  cases e <;> exact List.append_ne_nil_of_left_ne_nil (by decide) _

theorem Conversion.explained_convert (stylesheet source label : String) :
    (convert stylesheet source label).Explained := by
  rw [convert, Explained]
  cases body source.toList label.toList with
  | ok markup =>
    intro h
    cases h
  | error e =>
    refine fun _ => ⟨_, rfl, fun hempty => e.message_ne_nil ?_⟩
    simpa using congrArg String.toList hempty

namespace Server

theorem explained_noEntry (settings : Settings) : (noEntry settings).Explained :=
  fun _ => ⟨_, rfl, by decide⟩

def Cache.KeepsOnly (P : Conversion → Prop) (cache : Cache) : Prop :=
  ∀ (key : UInt64) (conversion : Conversion), cache[key]? = some conversion → P conversion

structure State.HoldsOnly (P : Conversion → Prop) (s : State) : Prop where
  current : P s.current.conversion
  kept : s.cache.KeepsOnly P

section
variable {P : Conversion → Prop}

theorem Cache.keepsOnly_empty : Cache.KeepsOnly P ∅ := by
  intro key conversion h
  simp at h

theorem Cache.KeepsOnly.insert {c : Cache} (h : c.KeepsOnly P) {conversion : Conversion}
    (hnew : P conversion) (key : UInt64) : (c.insert key conversion).KeepsOnly P := by
  intro other found hfound
  rcases Cache.insert_cases hfound with ⟨-, rfl⟩ | hold
  · exact hnew
  · exact h other found hold

variable (hconvert : ∀ stylesheet source label, P (Conversion.convert stylesheet source label))
include hconvert

theorem keepsOnly_convertCached {c : Cache} (h : c.KeepsOnly P) (s : Settings)
    (file : String × String) :
    P (convertCached s c file).1 ∧ (convertCached s c file).2.KeepsOnly P := by
  rw [convertCached]
  split
  next conversion hfound => exact ⟨h _ conversion hfound, h⟩
  next => exact ⟨hconvert _ _ _, h.insert (hconvert _ _ _) _⟩

variable (hnone : ∀ settings, P (noEntry settings))
include hnone

theorem holdsOnly_preview {c : Cache} (h : c.KeepsOnly P) (s : Settings) (sources : Sources) :
    State.HoldsOnly P ⟨s, sources, (preview s c sources).1, (preview s c sources).2⟩ := by
  rw [preview]
  cases sources.entry? s.entry with
  | none => exact ⟨hnone s, h⟩
  | some file =>
    obtain ⟨hfirst, hkept⟩ := keepsOnly_convertCached hconvert h s file
    exact ⟨hfirst, hkept⟩

/-- An event leaves only conversions of the kind, since the new ones are. -/
theorem State.HoldsOnly.handle {s : State} (h : s.HoldsOnly P) (d : Disk) (e : Watch.Event) :
    (s.handle d e).2.HoldsOnly P := by
  rcases s.handle_cases d e with ⟨text, -, -, hs⟩ | ⟨text, -, -, hs⟩ | ⟨-, -, hs⟩
  · rw [hs, announce_snd]
    exact holdsOnly_preview hconvert hnone h.kept _ _
  · rw [hs, announce_snd]
    exact holdsOnly_preview hconvert hnone h.kept _ _
  · rwa [hs]

/-- What holds of all conversions that are made holds of all that a run comes to hold. -/
theorem Running.holdsOnly_run {r : Running} (h : r.server.HoldsOnly P)
    (happenings : List Happening) : (r.run happenings).server.HoldsOnly P := by
  induction happenings generalizing r with
  | nil => exact h
  | cons happening more ih =>
    refine ih (r := r.next happening) ?_
    cases happening with
    | disk d => exact h
    | event e => exact h.handle hconvert hnone r.disk e

theorem holdsOnly_load {d : Disk} {settings : Settings} {s : State}
    (hload : State.load d settings = .ok s) : s.HoldsOnly P := by
  obtain ⟨sources, -, rfl⟩ := exists_sources_of_load hload
  exact holdsOnly_preview hconvert hnone Cache.keepsOnly_empty _ sources

end

/-- Whether a page shows what the preview and the status tell. -/
structure Shell.Shows (page preview : String) (status : Status) : Prop where
  tags : ∃ srcdoc, Html.tags page.toList =
      Shell.tags (if status.success then "badge ok" else "badge err").toList srcdoc ∧
    ∀ D : Html.Decoder, D.decode srcdoc = preview.toList
  file : ∃ label, Html.texts (Html.Tag.hasId "file") page.toList = [label] ∧
    ∀ D : Html.Decoder,
      (∀ name, status.file = some name → name ≠ "" → D.decode label = name.toList) ∧
      (status.file = none ∨ status.file = some "" → D.decode label = "No entry file".toList)
  badge : ∃ text, Html.texts (Html.Tag.hasId "status") page.toList = [text] ∧
    (status.success = false → ∃ error, status.error = some error ∧
      ∀ D : Html.Decoder, D.decode text = error.toList)

theorem Shell.orElse_some {text : String} (h : text ≠ "") (other : String) :
    orElse (some text) other = text.toList := by
  rw [orElse, if_neg]
  exact fun hempty => h (String.toList_eq_nil_iff.mp hempty)

theorem Shell.orElse_of_empty {s : Option String} (h : s = none ∨ s = some "") (other : String) :
    orElse s other = other.toList := by
  rcases h with rfl | rfl <;> rfl

theorem Shell.badgeClass_eq (success : Bool) : "badge ".toList ++ badgeClass success =
    (if success then "badge ok" else "badge err").toList := by
  cases success <;> decide

theorem Shell.shows_page {p : Preview} (h : p.conversion.Explained) (sources : List String) :
    Shows (.ofList (page p)) p.conversion.html
      ⟨p.file, p.conversion.success, p.conversion.error, sources⟩ := by
  constructor
  · refine ⟨escape p.conversion.html.toList, ?_, fun D => decode_escape D _⟩
    rw [String.toList_ofList, tags_page, badgeClass_eq]
  · refine ⟨escape (orElse p.file "No entry file"), ?_, fun D =>
      ⟨fun name (hname : p.file = some name) hne => ?_, ?_⟩⟩
    · rw [String.toList_ofList, texts_file]
    · rw [decode_escape, hname, orElse_some hne]
    · intro hempty
      rw [decode_escape, orElse_of_empty hempty]
  · refine ⟨Shell.badge p.conversion, ?_, fun (hfailed : p.conversion.success = false) => ?_⟩
    · rw [String.toList_ofList, texts_status]
    · obtain ⟨error, herror, hne⟩ := h hfailed
      refine ⟨error, herror, fun D => ?_⟩
      rw [Shell.badge, hfailed, herror, orElse_some hne]
      exact decode_escape D error.toList

/-- In every state that a run leads to, the shell page, the preview and the status tell the same:
the frame holds the preview, the labels are those of the status, and the status has the logical
paths of the sources in the order of their bytes, each once. -/
theorem load_run_views {d : Disk} {settings : Settings} {s : State}
    (hload : State.load d settings = .ok s) (happenings : List Happening) :
    let t := (Running.run ⟨d, s⟩ happenings).server
    ∃ page preview text : String, ∃ status : Status,
      (∀ d' origin query, t.respond d' ⟨.get, ⟨origin, "/".toList, query⟩⟩ = html page ∧
        t.respond d' ⟨.get, ⟨origin, "/__preview".toList, query⟩⟩ = html preview ∧
        t.respond d' ⟨.get, ⟨origin, "/__status".toList, query⟩⟩ =
          .found "application/json" (.text text)) ∧
      preview = t.current.conversion.html ∧ Status.ofText? text = some status ∧
      Shell.Shows page preview status ∧ status.sources.Nodup ∧
      status.sources.Pairwise (fun a b => Text.utf8Bytes a < Text.utf8Bytes b) ∧
      ∀ key, key ∈ status.sources ↔ (t.sources.get? key).isSome := by
  intro t
  have hstart : s.HoldsOnly Conversion.Explained :=
    holdsOnly_load Conversion.explained_convert explained_noEntry hload
  have hrun : t.HoldsOnly Conversion.Explained :=
    Running.holdsOnly_run (r := ⟨d, s⟩) Conversion.explained_convert explained_noEntry hstart
      happenings
  have hpreview : Route.ofPath "/__preview".toList = .preview := by decide
  have hstatus : Route.ofPath "/__status".toList = .status := by decide
  refine ⟨.ofList (Shell.page t.current), t.current.conversion.html, t.statusText, t.status,
    fun d' origin query => ⟨rfl, ?_, ?_⟩, rfl, t.ofText?_statusText,
    Shell.shows_page hrun.current _, t.sources.nodup_paths,
    t.sources.pairwise_paths.imp Text.utf8Bytes_lt, t.sources.mem_paths_iff⟩
  · rw [State.respond, hpreview]
    rfl
  · rw [State.respond, hstatus]
    rfl

theorem load_run_views_awayAndBack :
    State.load twoSources .default = .ok loaded ∧
      let t := (Running.run ⟨twoSources, loaded⟩ awayAndBack).server
      ∃ page preview text : String, ∃ status : Status,
        t.respond oneSource ⟨.get, ⟨[], "/".toList, []⟩⟩ = html page ∧
        preview = t.current.conversion.html ∧ Status.ofText? text = some status ∧
        Shell.Shows page preview status ∧ "App.jsx" ∈ status.sources ∧
        "src/App.jsx" ∉ status.sources := by
  have hload : State.load twoSources .default = .ok loaded := rfl
  obtain ⟨page, preview, text, status, hrespond, hpreview, hstatus, hshows, -, -, hkeys⟩ :=
    load_run_views hload awayAndBack
  refine ⟨hload, page, preview, text, status, (hrespond oneSource [] []).1, hpreview, hstatus,
    hshows, (hkeys _).mpr (by decide +kernel), fun hmem => ?_⟩
  exact absurd ((hkeys _).mp hmem) (by decide +kernel)

end Server
end StaticPreview
