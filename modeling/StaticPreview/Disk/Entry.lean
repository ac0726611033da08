import StaticPreview.Text.Raw

/-! # Files and folders

A file holds text, or bytes that are no UTF-8. The entries of a folder have different names.
-/
namespace StaticPreview.Disk

inductive Content where
  | text (s : String)
  | bytes (b : List UInt8)
  deriving DecidableEq, Repr

def Content.ofBytes (b : List UInt8) : Content :=
  match String.fromUTF8? ⟨b.toArray⟩ with
  | some s => .text s
  | none => .bytes b

inductive Entry where
  | file (content : Content)
  | folder (entries : List (RawText × Entry))

namespace Entry

def emptyFolder : Entry := folder []

def isFolder : Entry → Bool
  | folder _ => true
  | file _ => false

def entries : Entry → List (RawText × Entry)
  | folder es => es
  | file _ => []

def at? (e : Entry) : List RawText → Option Entry
  | [] => some e
  | name :: rest => (e.entries.lookup name).bind fun child => child.at? rest

def setNamed (name : RawText) (e : Entry) : List (RawText × Entry) → List (RawText × Entry)
  | [] => [(name, e)]
  | (other, child) :: more =>
    if other = name then (name, e) :: more else (other, child) :: setNamed name e more

def put (e new : Entry) : List RawText → Entry
  | [] => new
  | name :: rest =>
    let child := (e.entries.lookup name).getD emptyFolder
    folder (setNamed name (put child new rest) e.entries)

/-- Whether names may lead to something, which they do not if they go on behind a file. -/
def admits (e : Entry) : List RawText → Bool
  | [] => true
  | name :: rest =>
    e.isFolder && ((e.entries.lookup name).map fun child => child.admits rest).getD true

def remove (e : Entry) : List RawText → Entry
  | [] => emptyFolder
  | [name] =>
    match e with
    | folder es => folder (es.filter fun p => p.1 != name)
    | file content => file content
  | name :: rest =>
    match e.entries.lookup name with
    | some child => folder (setNamed name (child.remove rest) e.entries)
    | none => e

mutual

/-- The files in an entry, each with the names that lead to it. Folders that `skip` names are
passed over. -/
def files (skip : RawText → Bool) : Entry → List (List RawText × Content)
  | file content => [([], content)]
  | folder es => filesIn skip es

def filesIn (skip : RawText → Bool) : List (RawText × Entry) → List (List RawText × Content)
  | [] => []
  | (name, child) :: more =>
    let inner :=
      if child.isFolder && skip name then []
      else (files skip child).map fun p => (name :: p.1, p.2)
    inner ++ filesIn skip more

end

mutual

def folders : Entry → List (List RawText)
  | file _ => []
  | folder es => [] :: foldersIn es

def foldersIn : List (RawText × Entry) → List (List RawText)
  | [] => []
  | (name, child) :: more => (folders child).map (name :: ·) ++ foldersIn more

end

mutual

def contentsFirst : Entry → List (List RawText)
  | file _ => [[]]
  | folder es => contentsFirstIn es ++ [[]]

def contentsFirstIn : List (RawText × Entry) → List (List RawText)
  | [] => []
  | (name, child) :: more => (contentsFirst child).map (name :: ·) ++ contentsFirstIn more

end

def mayReplace : Entry → Entry → Bool
  | file _, file _ => true
  | folder _, folder es => es.isEmpty
  | _, _ => false

end Entry
end StaticPreview.Disk
