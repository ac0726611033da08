import StaticPreview.Disk.Basic
import StaticPreview.Http.Basic
import StaticPreview.Http.MediaType
import StaticPreview.Http.Percent

/-! # Serving the files of a folder

A target leads to what its path names below the folder, and never out of it. A folder is served
through its index page, under a path with a slash at its end.
-/
namespace StaticPreview.Http.Files

def step? : Path.Component → Option (List RawText)
  | .name name => some [name]
  | .here => some []
  | .up => none
  | .root => none

def names? (path : List Char) : Option (List RawText) := do
  let text ← Percent.decode? (path.dropWhile (· == '/'))
  return (← (Path.components text).mapM step?).flatten

def located? (folder : RawText) (path : List Char) : Option RawText :=
  (names? path).map fun names => names.foldl Path.join folder

/-- What is found at a path that is meant for a file. A folder there is found, but has no text. A
path that no file can have leads nowhere, but fails when only the head is wanted. -/
def file (d : Disk) (method : Method) (path : RawText) : Response :=
  match d.find path with
  | .ok (.file content) => .found (MediaType.ofPath path) content
  | .ok (.folder _) => .found (MediaType.ofPath path) (.text "")
  | .error .notFound => .notFound
  | .error .notAFolder => .notFound
  | .error .nulInPath => if method = .head then .bare 500 else .notFound
  | .error _ => .bare 500

def endsInSlash (path : List Char) : Bool :=
  path.getLast? == some '/'

def content (d : Disk) (folder : RawText) (method : Method) (t : Target) : Response :=
  match located? folder t.path with
  | none => .notFound
  | some path =>
    if !d.holdsFolder path then file d method path
    else if endsInSlash t.path then file d method (Path.join path "index.html")
    else .redirect (t.origin ++ t.path ++ '/' :: t.query)

def serve (d : Disk) (folder : RawText) (r : Request) : Response :=
  answerWith r.method (content d folder r.method r.target)

end StaticPreview.Http.Files
