import StaticPreview.Disk.Entry
import StaticPreview.Path

/-! # The disk

Paths are resolved from the top folder or from the working folder. Every component that another
one follows must be a folder; the last component need not exist. Paths and names have a greatest
length. What an action changed before it failed stays changed.
-/
namespace StaticPreview

inductive DiskError where
  | notFound
  | alreadyExists
  | notAFolder
  | isAFolder
  | nameTooLong
  | notText
  | nulInPath
  deriving DecidableEq, Repr

def DiskError.message : DiskError → String
  | notFound => "No such file or directory (os error 2)"
  | alreadyExists => "File exists (os error 17)"
  | notAFolder => "Not a directory (os error 20)"
  | isAFolder => "Is a directory (os error 21)"
  | nameTooLong => "File name too long (os error 36)"
  | notText => "stream did not contain valid UTF-8"
  | nulInPath => "file name contained an unexpected NUL byte"

/-- The entries below the top folder, and the names that lead to the working folder. -/
structure Disk where
  top : Disk.Entry
  workingFolder : List RawText

namespace Disk

abbrev Action (ε α : Type) := ExceptT ε (StateM Disk) α

def longestName : Nat := 255

def longestPath : Nat := 4095

def entryAt? (d : Disk) (names : List RawText) : Option Entry :=
  d.top.at? names

def follow (d : Disk) (names : List RawText) (piece : List UInt8) :
    Except DiskError (List RawText) :=
  match d.entryAt? names with
  | none => .error .notFound
  | some (.file _) => .error .notAFolder
  | some (.folder _) =>
    match Path.component? piece with
    | some (.name name) =>
      if longestName < name.size then .error .nameTooLong else .ok (names ++ [name])
    | some .up => .ok names.dropLast
    | _ => .ok names

def walk (d : Disk) (path : RawText) : Except DiskError (List RawText) :=
  (Path.pieces path).foldlM d.follow (if Path.isAbsolute path then [] else d.workingFolder)

def checkPath (path : RawText) : Except DiskError Unit :=
  if path.toList = [] then .error .notFound
  else if path.toList.contains 0 then .error .nulInPath
  else if longestPath < path.size then .error .nameTooLong
  else .ok ()

def locate (d : Disk) (path : RawText) : Except DiskError (List RawText) := do
  checkPath path
  d.walk path

/-- The names that a path leads to when the slashes at its end do not count. -/
def locateTrimmed (d : Disk) (path : RawText) : Except DiskError (List RawText) := do
  checkPath path
  d.walk (Path.trimSlashes path)

def find (d : Disk) (path : RawText) : Except DiskError Entry := do
  match d.entryAt? (← d.locate path) with
  | some e => return e
  | none => throw .notFound

def find? (d : Disk) (path : RawText) : Option Entry :=
  (d.find path).toOption

def holds (d : Disk) (path : RawText) : Bool :=
  (d.find? path).isSome

def holdsFolder (d : Disk) (path : RawText) : Bool :=
  (d.find? path).any Entry.isFolder

def read (d : Disk) (path : RawText) : Except DiskError String := do
  match ← d.find path with
  | .file (.text s) => return s
  | .file (.bytes _) => throw .notText
  | .folder _ => throw .isAFolder

def put (d : Disk) (names : List RawText) (e : Entry) : Disk :=
  { d with top := d.top.put e names }

def addFolder (d : Disk) (names : List RawText) : Disk :=
  match d.entryAt? names with
  | some (.folder _) => d
  | _ => d.put names .emptyFolder

def remove (d : Disk) (names : List RawText) : Disk :=
  { d with top := d.top.remove names }

/-- Writes a text into a file, which is made if need be. A path with a final slash names a
folder. -/
def write (path : RawText) (text : String) : Action DiskError Unit := do
  let d ← get
  let names ← d.locateTrimmed path
  if path.toList.getLast? = some Path.slash then throw .isAFolder
  match d.entryAt? names with
  | some (.folder _) => throw .isAFolder
  | _ => set (d.put names (.file (.text text)))

def makeFolder (path : RawText) : Action DiskError Unit := do
  let d ← get
  let names ← d.locateTrimmed path
  match d.entryAt? names with
  | some _ => throw .alreadyExists
  | none => set (d.put names .emptyFolder)

def ensureFolder (path : RawText) : Action DiskError Unit :=
  tryCatch (makeFolder path) fun e => do
    if (← get).holdsFolder path then return
    throw e

/-- Makes the first of the paths a folder, and before it, where there are none, its parents, which
are the other paths. -/
def makeFoldersAlong : List RawText → Action DiskError Unit
  | [] => return
  | path :: parents =>
    tryCatch (ensureFolder path) fun e => do
      if e ≠ .notFound then throw e
      makeFoldersAlong parents
      ensureFolder path

def makeFolders (path : RawText) : Action DiskError Unit :=
  makeFoldersAlong (Path.ancestors path)

/-- The names that a path spells, whether or not they lead anywhere. -/
def spelled (d : Disk) (path : RawText) : List RawText :=
  (Path.components path).foldl
    (fun names c =>
      match c with
      | .root => []
      | .here => names
      | .up => names.dropLast
      | .name name => names ++ [name])
    d.workingFolder

def absolute (d : Disk) (path : RawText) : RawText :=
  if path.toList = [] then path
  else
    let start := if Path.isAbsolute path then [] else d.workingFolder
    Path.ofNames (start ++ (Path.components path).filterMap fun
      | .up => some (".." : RawText)
      | .name name => some name
      | _ => none)

def namesOf? (d : Disk) (path : RawText) : Option (List RawText) :=
  match d.walk path with
  | .ok names => if path.toList ≠ [] ∧ (d.entryAt? names).isSome then some names else none
  | .error _ => none

/-- A path from the top folder that spells no component it does not need, however long the path
is. What does not exist is found through its parent. -/
def resolve (d : Disk) (path : RawText) : RawText :=
  go (Path.pieces path).length path
where
  go : Nat → RawText → RawText
    | 0, p => d.absolute p
    | n + 1, p =>
      match d.namesOf? p with
      | some names => Path.ofNames names
      | none =>
        match Path.parent? p, Path.fileName? p with
        | some parent, some name =>
          if parent.toList = [] then d.absolute p else Path.join (go n parent) name
        | _, _ => d.absolute p

def changedSince (d old : Disk) : List (String × Content) :=
  let filesOf (d : Disk) := ((d.entryAt? d.workingFolder).map (Entry.files fun _ => false)).getD []
  let before := filesOf old
  ((filesOf d).filter fun file => before.lookup file.1 ≠ some file.2).map fun file =>
    (Path.slashed file.1, file.2)

end Disk
end StaticPreview
