import StaticPreview.Command.Invocation
import StaticPreview.Command.Scaffold
import StaticPreview.Http.Files
import StaticPreview.Project.Settings
import StaticPreview.Server.Session
import StaticPreview.Site.Build
import StaticPreview.Text.Line

/-! # Running commands

A command changes files, and may print a text or leave something to be served. The settings of the
project are loaded first by the commands that need them.
-/
namespace StaticPreview.Command

inductive Failure where
  | settings (cause : Project.SettingsError)
  | scaffold (cause : ScaffoldError)
  | source (path : String)
  | outputFolder (path : String)
  | output (path : String)
  | build (cause : Site.BuildError)
  | preview (cause : Server.StartError)
  | notBuilt (folder : String)
  | addressInUse (address : String)
  deriving DecidableEq, Repr

def Failure.message : Failure → String
  | settings cause => cause.message
  | scaffold cause => cause.message
  | source path => "Failed to read " ++ path
  | outputFolder path => "Failed to create " ++ path
  | output path => "Failed to write " ++ path
  | build cause => cause.message
  | preview cause => cause.message
  | notBuilt folder => "Directory not found: " ++ folder ++ ". Run 'stillframe build' first."
  | addressInUse address => "Failed to bind to " ++ address

inductive Result where
  | finished (stdout : String)
  | previewing (session : Server.Session)
  | serving (folder address : String)

abbrev Task (α : Type) := Disk.Action Failure α

def failWith {ε α : Type} (cause : ε → Failure) (action : Disk.Action ε α) : Task α :=
  ExceptT.adapt cause action

def look {ε α : Type} (cause : ε → Failure) (find : Disk → Except ε α) : Task α := do
  ExceptT.mk (pure ((find (← get)).mapError cause))

def loadStylesheet (s : Project.Settings) : Task String :=
  look (fun cause => .build (.stylesheet cause)) fun d =>
    Page.loadStylesheet d s.stylesheetPath s.minify

def conversionText (asJson : Bool) (c : Conversion) : String :=
  if asJson then .ofList (c.json.pretty 0 ++ ['\n']) else c.html

def writeOutput (path text : String) : Task Unit := do
  match Path.parent? path with
  | some parent =>
    unless parent.toList = [] do
      failWith (fun _ => .outputFolder parent) (Disk.makeFolders parent)
  | none => pure ()
  failWith (fun _ => .output path) (Disk.write path text)

def convertFile (s : Project.Settings) (file : String) (output : Option String) (asJson : Bool)
    (label : Option String) : Task Result := do
  let source ← look (fun _ => .source file) (Disk.read · file)
  let stylesheet ← loadStylesheet s
  let text := conversionText asJson (Conversion.convert stylesheet source (label.getD file))
  match output with
  | some path =>
    writeOutput path text
    return .finished ""
  | none => return .finished text

def siteSettings (s : Project.Settings) (output : Option String) (keepsStylesheet : Bool) :
    Site.Settings :=
  ⟨s.sourceFolder, (output.map .ofText).getD s.outputFolder, s.stylesheetPath,
    !keepsStylesheet && s.minify⟩

def buildSite (settings : Site.Settings) : Task Result := do
  let stylesheet ← look .build fun d => Site.loadStylesheet d settings
  let _ ← failWith .build (Site.build settings stylesheet)
  return .finished ""

def serverSettings (s : Project.Settings) (port : Nat) (opensBrowser : Bool)
    (stylesheet : String) : Server.Settings :=
  { Server.Settings.default with
    root := s.root
    sourceFolder := s.sourceFolder
    entry := s.entry
    port := port
    opensBrowser := opensBrowser
    stylesheet := stylesheet }

def previewProject (inUse : Bool) (s : Project.Settings) (port : Nat) (opensBrowser : Bool) :
    Task Result := do
  let settings := serverSettings s port opensBrowser (← loadStylesheet s)
  return .previewing (← look .preview fun d => Server.Session.start d inUse settings)

/-- Looks for the folder of a built site, which can be served if the address is free. -/
def serveSite (d : Disk) (inUse : Bool) (address folder : String) : Except Failure Result :=
  if !d.holds folder then .error (.notBuilt folder)
  else if inUse then .error (.addressInUse address)
  else .ok (.serving folder address)

/-- Runs a command where the address to listen on may be in use. -/
def run (inUse : Bool) (i : Invocation) : Task Result := do
  let settings : Task Project.Settings :=
    look .settings fun d => Project.Settings.load d i.configuration
  match i.command with
  | .init overwrite =>
    failWith .scaffold (scaffold i.configuration overwrite)
    return .finished ""
  | .convert file output asJson label => convertFile (← settings) file output asJson label
  | .dev port opensBrowser => previewProject inUse (← settings) port opensBrowser
  | .build output keepsStylesheet =>
    buildSite (siteSettings (← settings) output keepsStylesheet)
  | .serve port folder =>
    look id fun d => serveSite d inUse ("127.0.0.1:" ++ toString port) folder

structure Report where
  code : Nat
  stdout : String
  failure : Option String
  address : Option String
  deriving DecidableEq, Repr

/-- The first line of what is said on a failure; paths may hold line ends. -/
def Report.failureLine (r : Report) : Option String :=
  r.failure.map fun s => .ofList (Text.firstLine s.toList)

def versionText : String := "stillframe 0.1.0\n"

def helpText : String :=
  "Usage: stillframe [OPTIONS] <COMMAND>\n\nCommands: init, convert, dev, build, serve\n"

def Report.ofStop : Stop → Report
  | .usage => ⟨2, "", none, none⟩
  | .help => ⟨0, helpText, none, none⟩
  | .version => ⟨0, versionText, none, none⟩

def Report.ofResult : Except Failure Result → Report
  | .ok (.finished stdout) => ⟨0, stdout, none, none⟩
  | .ok (.previewing session) => ⟨0, "", none, some session.state.settings.address⟩
  | .ok (.serving _ address) => ⟨0, "", none, some address⟩
  | .error failure => ⟨1, "", some ("Error: " ++ failure.message), none⟩

def runWords (inUse : Bool) (words : List String) (d : Disk) : Report × Disk :=
  match Invocation.ofWords words with
  | .error stop => (.ofStop stop, d)
  | .ok i =>
    let (result, d') := (run inUse i).run.run d
    (.ofResult result, d')

end StaticPreview.Command
