import StaticPreview.Proofs.Page.Names
import StaticPreview.Proofs.Server.Run

/-! # Kept conversions

The cache knows sources by their keys alone. While the sources of a run have different keys, a kept
conversion is the conversion of the source that it is kept for, and the server shows what it would
show if it kept none.
-/
namespace StaticPreview.Server

/-- The conversion of a source, its logical path being its label. -/
def convertFresh (s : Settings) (file : String × String) : Conversion :=
  Conversion.convert s.stylesheet file.2 file.1

/-- The preview of sources for a server without a cache. -/
def freshPreview (s : Settings) (sources : Sources) : Preview :=
  match sources.entry? s.entry with
  | some file => ⟨some file.1, convertFresh s file⟩
  | none => ⟨none, noEntry s⟩

/-- Where there is no entry, the preview is no success: its page names the folder of the sources and
shows the message, which is where an entry was looked for. -/
theorem noEntry_spec (s : Settings) :
    let message := "No entry file found (looked for App.jsx, App.tsx, src/App.jsx, src/App.tsx, " ++
      "App.js, src/App.js, index.jsx, index.tsx)"
    (noEntry s).success = false ∧ (noEntry s).error = some message ∧
      ∃ head tail,
        Page.SheetBetween (noEntry s).html.toList s.stylesheet.toList head tail ∧
        Html.texts (Html.Tag.opens "code") tail = [Html.escape s.sourceFolder.shown.toList] ∧
        Html.texts (Html.Tag.opens "pre") tail = [message.toList] := by
  intro message
  have hmessage : SourceError.entryNotFound.message = message := by decide +kernel
  have hescape : Html.escape message.toList = message.toList := by decide +kernel
  obtain ⟨hcode, hpre⟩ := Page.texts_failure s.sourceFolder.shown.toList message.toList
  rw [hescape] at hpre
  rw [noEntry, hmessage]
  dsimp only
  rw [String.toList_ofList]
  exact ⟨rfl, rfl, _, _, Page.sheetBetween_document _ _ _, hcode, hpre⟩

def KeysDiffer (files : List (String × String)) : Prop :=
  ∀ a ∈ files, ∀ b ∈ files, sourceKey a = sourceKey b → a = b

instance (files : List (String × String)) : Decidable (KeysDiffer files) :=
  inferInstanceAs (Decidable (∀ a ∈ files, ∀ b ∈ files, sourceKey a = sourceKey b → a = b))

/-- Whether a cache holds nothing but conversions of these files, each under the key of its file. -/
def Cache.Holds (s : Settings) (files : List (String × String)) (cache : Cache) : Prop :=
  ∀ key conversion, cache[key]? = some conversion →
    ∃ file ∈ files, sourceKey file = key ∧ conversion = convertFresh s file

theorem Cache.holds_empty (s : Settings) (files : List (String × String)) :
    Cache.Holds s files ∅ := by
  intro key conversion h
  simp at h

variable {s : Settings} {files : List (String × String)} {c : Cache}

/-- A conversion that is kept was kept already or has just come. -/
theorem Cache.insert_cases {cache : Cache} {key key' : UInt64} {new conversion : Conversion}
    (h : (cache.insert key new)[key']? = some conversion) :
    (key = key' ∧ conversion = new) ∨ cache[key']? = some conversion := by
  rw [Cache.insert, Std.ExtTreeMap.getElem?_insert] at h
  split at h
  next hkey => exact .inl ⟨Std.LawfulEqCmp.eq_of_compare hkey, (Option.some.inj h).symm⟩
  next =>
    right
    split at h
    · simp at h
    · exact h

/-- A fresh conversion may be added to a cache that holds only such. -/
theorem Cache.Holds.insert (h : c.Holds s files) {file : String × String} (hfile : file ∈ files) :
    (c.insert (sourceKey file) (convertFresh s file)).Holds s files := by
  intro key conversion hc
  rcases Cache.insert_cases hc with ⟨hkey, hnew⟩ | hold
  · exact ⟨file, hfile, hkey, hnew⟩
  · exact h key conversion hold

theorem Cache.size_insert_le (hsize : c.size ≤ Cache.limit) (key : UInt64)
    (conversion : Conversion) : (c.insert key conversion).size ≤ Cache.limit := by
  have hlimit : Cache.limit = 64 := rfl
  refine Nat.le_trans Std.ExtTreeMap.size_insert_le ?_
  split
  · rw [Std.ExtTreeMap.size_empty]
    omega
  · omega

section
variable (hkept : c.Holds s files) (hkeys : KeysDiffer files)
include hkept

theorem holds_convertCached {file : String × String} (hfile : file ∈ files) :
    (convertCached s c file).2.Holds s files := by
  rw [convertCached]
  split
  · exact hkept
  · exact hkept.insert hfile

include hkeys

theorem convertCached_fst {file : String × String} (hfile : file ∈ files) :
    (convertCached s c file).1 = convertFresh s file := by
  rw [convertCached]
  split
  next conversion h =>
    obtain ⟨other, hother, hkey, rfl⟩ := hkept _ _ h
    rw [hkeys other hother file hfile hkey]
  next => rfl

end

theorem size_convertCached_le (hsize : c.size ≤ Cache.limit) (file : String × String) :
    (convertCached s c file).2.size ≤ Cache.limit := by
  rw [convertCached]
  split
  · exact hsize
  · exact Cache.size_insert_le hsize _ _

/-- What the cache must not change, and what it may hold. -/
structure State.Coherent (files : List (String × String)) (s : State) : Prop where
  current : s.current = freshPreview s.settings s.sources
  kept : s.cache.Holds s.settings files
  size : s.cache.size ≤ Cache.limit

/-- The state that holds the preview of its sources, which was made with a cache. -/
theorem coherent_preview {sources : Sources} (hkept : c.Holds s files) (hkeys : KeysDiffer files)
    (hsize : c.size ≤ Cache.limit) (hentry : ∀ file ∈ sources.entry? s.entry, file ∈ files) :
    State.Coherent files ⟨s, sources, (preview s c sources).1, (preview s c sources).2⟩ := by
  rw [preview]
  cases h : sources.entry? s.entry with
  | none => exact ⟨by simp [freshPreview, h], hkept, hsize⟩
  | some file =>
    have hfile := hentry file h
    refine ⟨?_, holds_convertCached hkept hfile, size_convertCached_le hsize file⟩
    simp [freshPreview, h, convertCached_fst hkept hkeys hfile]

theorem State.Coherent.announce {s : State} (h : s.Coherent files) (hkeys : KeysDiffer files)
    {sources : Sources} (hentry : ∀ file ∈ sources.entry? s.settings.entry, file ∈ files) :
    State.Coherent files ({ s with sources := sources } : State).announce.2 := by
  rw [State.announce_snd]
  exact coherent_preview h.kept hkeys h.size hentry

/-- An event leaves a coherent state coherent if the entry that it leads to is among the known
files. -/
theorem State.Coherent.handle {s : State} (h : s.Coherent files) (hkeys : KeysDiffer files)
    (d : Disk) (e : Watch.Event)
    (hentry : ∀ file ∈ (s.handle d e).2.sources.entry? s.settings.entry, file ∈ files) :
    (s.handle d e).2.Coherent files := by
  rcases s.handle_cases d e with ⟨text, -, -, hs⟩ | ⟨text, -, -, hs⟩ | ⟨-, -, hs⟩
  · rw [hs, State.announce_snd] at hentry
    rw [hs]
    exact h.announce hkeys hentry
  · rw [hs, State.announce_snd] at hentry
    rw [hs]
    exact h.announce hkeys hentry
  · rwa [hs]

theorem Running.coherent_next {r : Running} (h : r.server.Coherent files) (hkeys : KeysDiffer files)
    (happening : Happening) (hentry : ∀ file ∈ (r.next happening).shown?, file ∈ files) :
    (r.next happening).server.Coherent files := by
  cases happening with
  | disk d => exact h
  | event e =>
    refine h.handle hkeys r.disk e fun file hfile => hentry file ?_
    rwa [Running.shown?, Running.next, State.settings_handle]

theorem Running.coherent_run {r : Running} (happenings : List Happening)
    (h : r.server.Coherent files) (hkeys : KeysDiffer files)
    (hentries : r.entries happenings ⊆ files) : (r.run happenings).server.Coherent files := by
  induction happenings generalizing r with
  | nil => exact h
  | cons happening more ih =>
    have hmore : (r.next happening).entries more ⊆ files :=
      fun file hfile => hentries (mem_entries_cons hfile)
    exact ih (coherent_next h hkeys happening fun file hfile =>
      hmore (mem_entries_of_shown? hfile more)) hmore

theorem Running.settings_run (r : Running) (happenings : List Happening) :
    (r.run happenings).server.settings = r.server.settings := by
  induction happenings generalizing r with
  | nil => rfl
  | cons happening more ih =>
    refine (ih (r.next happening)).trans ?_
    cases happening with
    | disk d => rfl
    | event e => exact r.server.settings_handle r.disk e

/-- A state is loaded from one scan, with its settings resolved. -/
theorem exists_sources_of_load {d : Disk} {settings : Settings} {s : State}
    (h : State.load d settings = .ok s) :
    ∃ sources, Sources.scan d settings.sourceFolder = .ok sources ∧
      s = State.ofSources (settings.resolve d) sources := by
  rw [State.load] at h
  cases hscan : Sources.scan d settings.sourceFolder with
  | error e =>
    rw [hscan] at h
    exact absurd h (by simp [bind, Except.bind])
  | ok sources =>
    rw [hscan] at h
    exact ⟨sources, rfl, (Except.ok.inj h).symm⟩

theorem coherent_ofSources {sources : Sources} (hkeys : KeysDiffer files)
    (hentry : ∀ file ∈ sources.entry? s.entry, file ∈ files) :
    (State.ofSources s sources).Coherent files :=
  coherent_preview (Cache.holds_empty s files) hkeys (Nat.zero_le _) hentry

/-- In every state that a run leads to, the preview is that of a server without a cache. -/
theorem load_run_coherent {d : Disk} {settings : Settings} {s : State}
    (hload : State.load d settings = .ok s) (happenings : List Happening)
    (hkeys : KeysDiffer (Running.entries ⟨d, s⟩ happenings)) :
    let t := (Running.run ⟨d, s⟩ happenings).server
    t.current = freshPreview (settings.resolve d) t.sources ∧
      (∀ key conversion, t.cache[key]? = some conversion →
        ∃ file ∈ Running.entries ⟨d, s⟩ happenings, sourceKey file = key ∧
          conversion = convertFresh (settings.resolve d) file) ∧
      t.cache.size ≤ Cache.limit := by
  obtain ⟨sources, -, rfl⟩ := exists_sources_of_load hload
  have hstart : (State.ofSources (settings.resolve d) sources).Coherent
      (Running.entries ⟨d, .ofSources (settings.resolve d) sources⟩ happenings) :=
    coherent_ofSources hkeys fun file hfile =>
      Running.mem_entries_of_shown? (r := ⟨d, .ofSources (settings.resolve d) sources⟩) hfile
        happenings
  have hrun := Running.coherent_run happenings hstart hkeys fun _ h => h
  have hsettings := Running.settings_run ⟨d, .ofSources (settings.resolve d) sources⟩ happenings
  obtain ⟨hcurrent, hkept, hsize⟩ := hrun
  rw [hsettings] at hcurrent hkept
  exact ⟨hcurrent, hkept, hsize⟩

section
open Disk

def componentFile (text : String) : Entry :=
  .file (.text ("export default function App() \x7b return <p>" ++ text ++ "</p>; \x7d"))

def diskWith (sources : List (RawText × Entry)) : Disk :=
  ⟨.folder [("p", .folder [("src", .folder sources)])], ["p"]⟩

def twoSources : Disk := diskWith [("App.jsx", componentFile "a"), ("index.jsx", componentFile "b")]

def oneSource : Disk := diskWith [("index.jsx", componentFile "b")]

/-- The entry goes, so that another source takes its place, and comes back. -/
def awayAndBack : List Happening :=
  [.disk oneSource, .event ⟨.removed, "/p/src/App.jsx"⟩, .disk twoSources,
    .event ⟨.changed, "/p/src/App.jsx"⟩]

def loaded : State :=
  .ofSources (Settings.default.resolve twoSources)
    ((Sources.scan twoSources "src").toOption.getD .empty)

theorem load_run_awayAndBack :
    State.load twoSources .default = .ok loaded ∧
      KeysDiffer (Running.entries ⟨twoSources, loaded⟩ awayAndBack) ∧
      let t := (Running.run ⟨twoSources, loaded⟩ awayAndBack).server
      t.current = freshPreview (Settings.default.resolve twoSources) t.sources ∧
        t.cache.size ≤ Cache.limit := by
  have hload : State.load twoSources .default = .ok loaded := rfl
  have hkeys : KeysDiffer (Running.entries ⟨twoSources, loaded⟩ awayAndBack) := by decide +kernel
  obtain ⟨hcurrent, -, hsize⟩ := load_run_coherent hload awayAndBack hkeys
  exact ⟨hload, hkeys, hcurrent, hsize⟩

end

end StaticPreview.Server
