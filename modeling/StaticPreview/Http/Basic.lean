import StaticPreview.Disk.Entry
import StaticPreview.Text.Cut

/-! # Requests and responses -/
namespace StaticPreview.Http

inductive Method where
  | get
  | head
  | other
  deriving DecidableEq, Repr

def Method.ofName (name : String) : Method :=
  match name with
  | "GET" => .get
  | "HEAD" => .head
  | _ => .other

/-- The scheme and the host of a target, if it spells them, its path and its query. The query
begins with its question mark, or is empty. -/
structure Target where
  origin : List Char
  path : List Char
  query : List Char
  deriving DecidableEq, Repr

namespace Target

def ofPath (s : List Char) : Target :=
  ⟨[], s.takeWhile (· != '?'), s.dropWhile (· != '?')⟩

def ofHost (scheme s : List Char) : Target :=
  let isHostChar (c : Char) : Bool := c != '/' && c != '?'
  let t := ofPath (s.dropWhile isHostChar)
  ⟨scheme ++ s.takeWhile isHostChar, if t.path = [] then ['/'] else t.path, t.query⟩

def isSchemeChar (c : Char) : Bool :=
  c.isAlphanum || c == '+' || c == '-' || c == '.'

def normalScheme (scheme : List Char) : List Char :=
  let small := scheme.map Char.toLower
  if small = "http".toList ∨ small = "https".toList then small else scheme

/-- A fragment behind a number sign is no part of a target. -/
def ofText (s : List Char) : Target :=
  let s := s.takeWhile (· != '#')
  let scheme := s.takeWhile isSchemeChar
  match Text.after? "://".toList (s.dropWhile isSchemeChar) with
  | some host => ofHost (normalScheme scheme ++ "://".toList) host
  | none => ofPath s

end Target

structure Request where
  method : Method
  target : Target
  deriving DecidableEq, Repr

structure Response where
  status : Nat
  contentType : Option String
  location : Option String
  body : Disk.Content
  deriving DecidableEq, Repr

namespace Response

def found (contentType : String) (body : Disk.Content) : Response :=
  ⟨200, some contentType, none, body⟩

def bare (status : Nat) : Response := ⟨status, none, none, .text ""⟩

def redirect (location : List Char) : Response :=
  ⟨307, none, some (.ofList location), .text ""⟩

def notFound : Response := bare 404

def methodNotAllowed : Response := bare 405

def headOnly (r : Response) : Response := { r with body := .text "" }

end Response

def answerWith (method : Method) (r : Response) : Response :=
  match method with
  | .get => r
  | .head => r.headOnly
  | .other => .methodNotAllowed

end StaticPreview.Http
