import StaticPreview.Page.Stylesheet
import StaticPreview.Site.Manifest
import StaticPreview.Sources

/-! # Building a site

Every source has a page of its own. All pages are tried before the first failure, in the order of
the sources, ends the build; the manifest and the index come last.
-/
namespace StaticPreview.Site

structure Settings where
  sourceFolder : RawText
  outputFolder : RawText
  stylesheet : Option String
  minify : Bool
  deriving DecidableEq, Repr

def Settings.default : Settings := ⟨"src", "dist", none, true⟩

inductive BuildError where
  | stylesheet (cause : Page.StylesheetError)
  | sources (cause : SourceError)
  | folder (cause : DiskError)
  | page (path : String) (cause : DiskError)
  | listing (cause : DiskError)
  deriving DecidableEq, Repr

def BuildError.message : BuildError → String
  | stylesheet cause => "Failed to read sources: " ++ cause.message
  | sources cause => cause.message
  | folder cause => "Failed to write output: " ++ cause.message
  | page path cause => "Failed to write output: " ++ path ++ ": " ++ cause.message
  | listing cause => "Failed to write output: " ++ cause.message

structure BuildResult where
  entries : List PageEntry
  outputFolder : RawText
  deriving DecidableEq, Repr

def BuildResult.pages (r : BuildResult) : Nat := r.entries.length

def BuildResult.failed (r : BuildResult) : Nat :=
  (r.entries.filter fun e => !e.success).length

def failing {ε α : Type} (cause : DiskError → ε) (action : Disk.Action DiskError α) :
    Disk.Action ε α :=
  ExceptT.adapt cause action

def buildPage (outputFolder : RawText) (stylesheet : String) (file : String × String) :
    Disk.Action BuildError PageEntry := do
  let conversion := Conversion.convert stylesheet file.2 file.1
  let path := Path.join outputFolder (pagePath file.1)
  match Path.parent? path with
  | some parent => failing .folder (Disk.makeFolders parent)
  | none => pure ()
  failing (.page path.shown) (Disk.write path conversion.html)
  return pageEntry file.1 conversion

/-- Runs every action, whether or not those before it failed. -/
def runAll {ε α : Type} : List (Disk.Action ε α) → StateM Disk (List (Except ε α))
  | [] => return []
  | action :: more => do
    let first ← action.run
    let rest ← runAll more
    return first :: rest

def gather {ε α : Type} (actions : List (Disk.Action ε α)) : Disk.Action ε (List α) := do
  let results ← ExceptT.lift (runAll actions)
  ExceptT.mk (pure (results.mapM id))

def buildWith (outputFolder : RawText) (stylesheet : String) (sources : Sources) :
    Disk.Action BuildError BuildResult := do
  failing .folder (Disk.makeFolders outputFolder)
  let entries ← gather (sources.toList.map (buildPage outputFolder stylesheet))
  failing .listing (Disk.write (Path.join outputFolder "manifest.json") (manifestText entries))
  unless entries.any fun e => e.output == "index.html" do
    failing .listing
      (Disk.write (Path.join outputFolder "index.html") (indexPage entries stylesheet))
  return ⟨entries, outputFolder⟩

def build (settings : Settings) (stylesheet : String) : Disk.Action BuildError BuildResult := do
  let sources ← ExceptT.mk (pure ((Sources.scan (← get) settings.sourceFolder).mapError .sources))
  buildWith settings.outputFolder stylesheet sources

def loadStylesheet (d : Disk) (settings : Settings) : Except BuildError String :=
  (Page.loadStylesheet d settings.stylesheet settings.minify).mapError .stylesheet

end StaticPreview.Site
