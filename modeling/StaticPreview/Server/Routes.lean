import StaticPreview.Http.Files
import StaticPreview.Server.ClientScript
import StaticPreview.Server.Shell
import StaticPreview.Server.State

/-! # The routes of a preview server

The shell page frames the preview, which also has a path of its own, as has what is known about
it. Below `/public` the public folder is served.
-/
namespace StaticPreview.Server
open Http

inductive Route where
  | shell
  | preview
  | status
  | script
  | socket
  | file (path : List Char)
  | unknown
  deriving DecidableEq, Repr

def socketPath : List Char := "/__hmr".toList

def publicPath? (path : List Char) : Option (List Char) :=
  match Text.after? "/public".toList path with
  | some [] => some ['/']
  | some ('/' :: r) => some ('/' :: r)
  | _ => none

def Route.ofPath (path : List Char) : Route :=
  if path = ['/'] then .shell
  else if path = "/__preview".toList then .preview
  else if path = "/__status".toList then .status
  else if path = "/__hmr.js".toList then .script
  else if path = socketPath then .socket
  else
    match publicPath? path with
    | some rest => .file rest
    | none => .unknown

def html (body : String) : Response := .found "text/html; charset=utf-8" (.text body)

def State.statusJson (s : State) : Json.Value (List Char) :=
  .object <|
    [Json.Value.field "file" (.ofOption s.current.file),
      Json.Value.field "success" (.boolean s.current.conversion.success)] ++
    Json.Value.field? "error" s.current.conversion.error ++
    [Json.Value.field "sources" (.array (s.sources.paths.map .ofString))]

def State.statusText (s : State) : String := .ofList s.statusJson.compact

/-- The answer at the socket's path to a request that does not open the socket. -/
def notUpgraded : Method → Response
  | .get =>
    ⟨400, some "text/plain; charset=utf-8", none,
      .text "Connection header did not include 'upgrade'"⟩
  | .head => ⟨405, some "text/plain; charset=utf-8", none, .text ""⟩
  | .other => .methodNotAllowed

def State.respond (d : Disk) (s : State) (r : Request) : Response :=
  match Route.ofPath r.target.path with
  | .shell => answerWith r.method (html (.ofList (Shell.page s.current)))
  | .preview => answerWith r.method (html s.current.conversion.html)
  | .status => answerWith r.method (.found "application/json" (.text s.statusText))
  | .script =>
    answerWith r.method
      (.found "application/javascript" (.text (.ofList (clientScript socketPath))))
  | .socket => notUpgraded r.method
  | .file path =>
    Files.serve d s.settings.publicFolder { r with target := { r.target with path := path } }
  | .unknown => .notFound

end StaticPreview.Server
