import Std.Data.ExtTreeMap
import StaticPreview.Conversion
import StaticPreview.Disk.Basic

/-! # Component sources

The sources of a project are texts under logical paths, in the order of the paths. Scanning a
folder loads every component file below it that is text, but enters no folder of dependencies or
output and no hidden folder.
-/
namespace StaticPreview

/-- The logical paths where the entry component is looked for, the preferred first. -/
def entryCandidates : List String :=
  ["App.jsx", "App.tsx", "src/App.jsx", "src/App.tsx", "App.js", "src/App.js", "index.jsx",
    "index.tsx"]

inductive SourceError where
  | folderNotFound (path : String)
  | entryNotFound
  deriving DecidableEq, Repr

def SourceError.message : SourceError → String
  | folderNotFound path => "Source directory not found: " ++ path
  | entryNotFound =>
    "No entry file found (looked for " ++ ", ".intercalate entryCandidates ++ ")"

def componentExtensions : List String := ["jsx", "tsx", "js", "ts"]

def isSideFile (name : List Char) : Bool :=
  Text.holds ".test.".toList name || Text.holds ".spec.".toList name ||
    Text.holds ".stories.".toList name || ".d.ts".toList.isSuffixOf name

/-- Whether a file has the name of a component. A name that is no text is taken for an empty one
here, and so is an extension. -/
def isComponentName (name : RawText) : Bool :=
  let extension := (Path.splitExtension name.toList).2.bind fun e => (RawText.ofList e).text?
  componentExtensions.contains (extension.getD "") && !isSideFile (name.text?.getD "").toList

def isComponentFile (path : RawText) : Bool :=
  (Path.fileName? path).any isComponentName

/-- Whether a folder has a name that a scan does not enter. A name that is no text is taken for an
empty one. -/
def isIgnoredFolder (name : RawText) : Bool :=
  let text := name.text?.getD ""
  text == "node_modules" || text == "dist" || text.toList.head? == some '.'

structure Sources where
  texts : Std.ExtTreeMap String String

namespace Sources

def empty : Sources := ⟨∅⟩

def get? (s : Sources) (path : String) : Option String := s.texts[path]?

def insert (s : Sources) (path text : String) : Sources := ⟨s.texts.insert path text⟩

def erase (s : Sources) (path : String) : Sources := ⟨s.texts.erase path⟩

def toList (s : Sources) : List (String × String) := s.texts.toList

def paths (s : Sources) : List String := s.toList.map Prod.fst

def ofList (files : List (String × String)) : Sources :=
  files.foldl (fun s file => s.insert file.1 file.2) empty

/-- The source of a file that a scan of a folder finds under names below it. A file whose path is
too long cannot be read. -/
def scanned? (path : RawText) (file : List RawText × Disk.Content) : Option (String × String) :=
  match file.1.getLast?, file.2 with
  | some name, .text text =>
    if isComponentName name && (Disk.checkPath (file.1.foldl Path.join path)).isOk then
      some (Path.slashed file.1, text)
    else none
  | _, _ => none

/-- The sources below a folder. A file in its place is a source without a logical path. -/
def scan (d : Disk) (path : RawText) : Except SourceError Sources :=
  match d.find? path with
  | none => .error (.folderNotFound path.shown)
  | some (.file (.text text)) =>
    .ok (if isComponentFile path then empty.insert "" text else empty)
  | some (.file (.bytes _)) => .ok empty
  | some folder => .ok (ofList ((folder.files isIgnoredFolder).filterMap (scanned? path)))

/-- The entry component: the first of the preferred path and the candidates that is a source. -/
def entry? (s : Sources) (preferred : Option String) : Option (String × String) :=
  (preferred.toList ++ entryCandidates).findSome? fun path =>
    (s.get? path).map fun text => (path, text)

def convertEntry (s : Sources) (stylesheet : String) (preferred : Option String) :
    Except SourceError Conversion :=
  match s.entry? preferred with
  | some (path, text) => .ok (Conversion.convert stylesheet text path)
  | none => .error .entryNotFound

end Sources
end StaticPreview
