import StaticPreview.Server.Message
import StaticPreview.Server.Settings
import StaticPreview.Text.Digest
import StaticPreview.Watch.Event

/-! # The state of a preview server

The server keeps the sources in step with the events that it hears of, and holds the preview of
their entry. Conversions are kept by a digest of what was converted; when there are too many, all
are forgotten.
-/
namespace StaticPreview.Server

abbrev Cache := Std.ExtTreeMap UInt64 Conversion

namespace Cache

def limit : Nat := 64

def insert (c : Cache) (key : UInt64) (conversion : Conversion) : Cache :=
  let kept : Cache := if limit ≤ c.size then ∅ else c
  Std.ExtTreeMap.insert kept key conversion

end Cache

def sourceKey (file : String × String) : UInt64 := Text.Digest.ofTexts [file.1, file.2]

/-- What stands for the conversion of an entry when there is none. -/
def noEntry (s : Settings) : Conversion :=
  let message := SourceError.entryNotFound.message
  let page := Page.failure s.sourceFolder.shown.toList message.toList s.stylesheet.toList
  ⟨.ofList page, false, some message⟩

def convertCached (s : Settings) (cache : Cache) (file : String × String) : Conversion × Cache :=
  let key := sourceKey file
  match cache[key]? with
  | some conversion => (conversion, cache)
  | none =>
    let conversion := Conversion.convert s.stylesheet file.2 file.1
    (conversion, cache.insert key conversion)

def preview (s : Settings) (cache : Cache) (sources : Sources) : Preview × Cache :=
  match sources.entry? s.entry with
  | some file =>
    let (conversion, cache') := convertCached s cache file
    (⟨some file.1, conversion⟩, cache')
  | none => (⟨none, noEntry s⟩, cache)

structure State where
  settings : Settings
  sources : Sources
  current : Preview
  cache : Cache

namespace State

def ofSources (settings : Settings) (sources : Sources) : State :=
  let (current, cache) := preview settings ∅ sources
  ⟨settings, sources, current, cache⟩

def load (d : Disk) (settings : Settings) : Except SourceError State := do
  let sources ← Sources.scan d settings.sourceFolder
  return ofSources (settings.resolve d) sources

/-- Whether the preview is another one now, and the state that holds it. -/
def refresh (s : State) : Bool × State :=
  let (current, cache) := preview s.settings s.cache s.sources
  (current ≠ s.current, { s with current := current, cache := cache })

def logical (s : State) (d : Disk) (path : RawText) : String :=
  Path.logical s.settings.sourceFolder (d.resolve path)

def isPublic (s : State) (d : Disk) (path : RawText) : Bool :=
  Path.isBelow s.settings.publicFolder (d.resolve path)

/-- The message to all pages after the sources have changed, if they need one. -/
def announce (s : State) : Option Message × State :=
  match s.refresh with
  | (true, s') => (some (.refresh s'.current), s')
  | (false, s') => (none, s')

def handle (d : Disk) (s : State) (e : Watch.Event) : Option Message × State :=
  match e.kind with
  | .changed =>
    match d.read e.path with
    | .ok text => { s with sources := s.sources.insert (s.logical d e.path) text }.announce
    | .error _ => (none, s)
  | .removed =>
    let path := s.logical d e.path
    match s.sources.get? path with
    | some _ => { s with sources := s.sources.erase path }.announce
    | none => (none, s)
  | .other => (if s.isPublic d e.path then some .reload else none, s)

end State
end StaticPreview.Server
