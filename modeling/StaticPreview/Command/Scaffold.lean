import StaticPreview.Disk.Basic
import StaticPreview.Text.Shown

/-! # The files of a new project -/
namespace StaticPreview.Command

def configurationText : String :=
  "# stillframe configuration

[project]
# Project directory
root = \".\"

# Directory containing your components
src = \"src\"

# Entry component shown by \x60stillframe dev\x60
entry = \"App.jsx\"

[preview]
# Stylesheet embedded in every preview (built-in when unset)
# stylesheet = \"preview.css\"

# Minify the stylesheet
minify = true

[build]
# Output directory for \x60stillframe build\x60
output = \"dist\"
"

def componentText : String :=
  "export default function App() \x7b
  const [count, setCount] = useState(0);

  return (
    <main className=\"app\" style=\x7b\x7b maxWidth: '40rem', margin: '2rem auto' \x7d\x7d>
      <h1>Hello from stillframe</h1>
      <p>Edit src/App.jsx and the preview refreshes.</p>
      <button onClick=\x7b() => setCount(count + 1)\x7d>Clicked \x7bcount\x7d times</button>
    </main>
  );
\x7d
"

inductive ScaffoldError where
  | configuration (path : String)
  | sourceFolder
  | component
  deriving DecidableEq, Repr

def ScaffoldError.message : ScaffoldError → String
  | configuration path => "Failed to write " ++ path
  | sourceFolder => "Failed to create src directory"
  | component => "Failed to write App.jsx"

def projectFolder (configuration : String) : RawText :=
  match Path.parent? configuration with
  | some parent => if parent.toList = [] then "." else parent
  | none => "."

/-- Writes a file that is not there yet, or that is to be overwritten. -/
def writeNew (overwrite : Bool) (path : RawText) (text : String) :
    Disk.Action DiskError Unit := do
  if overwrite || !(← get).holds path then Disk.write path text

def scaffold (configuration : String) (overwrite : Bool) : Disk.Action ScaffoldError Unit := do
  let src := Path.join (projectFolder configuration) "src"
  ExceptT.adapt (fun _ => .configuration configuration)
    (writeNew overwrite configuration configurationText)
  ExceptT.adapt (fun _ => .sourceFolder) (Disk.makeFolders src)
  ExceptT.adapt (fun _ => .component)
    (writeNew overwrite (Path.join src "App.jsx") componentText)

end StaticPreview.Command
