import StaticPreview.Text.Cut
import StaticPreview.Text.Raw

/-! # Paths

A path is a text of components between slashes. Two paths that have the same components are the
same path: doubled and final slashes do not count, nor does a dot that is not the first component.
-/
namespace StaticPreview.Path

def slash : UInt8 := 47

def dot : UInt8 := 46

inductive Component where
  | root
  | here
  | up
  | name (text : RawText)
  deriving DecidableEq, Repr

namespace Component

def text : Component → RawText
  | root => "/"
  | here => "."
  | up => ".."
  | name text => text

end Component

def pieces (path : RawText) : List (List UInt8) :=
  Text.pieces slash path.toList

def joinPieces (ps : List (List UInt8)) : RawText :=
  .ofList ([slash].intercalate ps)

def isAbsolute (path : RawText) : Bool :=
  path.toList.head? == some slash

/-- The component that a piece stands for behind a slash, if any. -/
def component? (piece : List UInt8) : Option Component :=
  if piece = [] ∨ piece = [dot] then none
  else if piece = [dot, dot] then some .up
  else some (.name (.ofList piece))

def components (path : RawText) : List Component :=
  match pieces path with
  | [] => []
  | first :: more =>
    let start :=
      if first = [] then (if more = [] then [] else [.root])
      else if first = [dot] then [.here]
      else (component? first).toList
    start ++ more.filterMap component?

def same (p q : RawText) : Bool :=
  components p == components q

/-- Puts `path` below `base`; an absolute path stands alone. -/
def join (base path : RawText) : RawText :=
  if isAbsolute path then path
  else if base.toList = [] ∨ base.toList.getLast? = some slash then base ++ path
  else base ++ "/" ++ path

def below? (root path : RawText) : Option (List Component) :=
  Text.after? (components root) (components path)

def isBelow (root path : RawText) : Bool :=
  (below? root path).isSome

def slashed (names : List RawText) : String :=
  "/".intercalate (names.map RawText.shown)

/-- The name of a path relative to a root, or the name of all of it when it lies elsewhere. -/
def logical (root path : RawText) : String :=
  slashed (((below? root path).getD (components path)).map Component.text)

def joinNames (names : List RawText) : RawText :=
  joinPieces (names.map RawText.toList)

def ofNames (names : List RawText) : RawText :=
  "/" ++ joinNames names

def fileName? (path : RawText) : Option RawText :=
  match (components path).getLast? with
  | some (.name text) => some text
  | _ => none

/-- The name of a file before its last dot and behind it. A dot that begins a name does not
count. -/
def splitExtension (name : List UInt8) : List UInt8 × Option (List UInt8) :=
  match Text.cutLast? dot name with
  | some (c :: stem, extension) => (c :: stem, some extension)
  | _ => (name, none)

def extension? (path : RawText) : Option RawText :=
  (fileName? path).bind fun name => (splitExtension name.toList).2.map .ofList

def dropIdle (ps : List (List UInt8)) : List (List UInt8) :=
  (ps.reverse.dropWhile fun piece => (component? piece).isNone).reverse

def parent? (path : RawText) : Option RawText :=
  match pieces path with
  | [] => none
  | first :: more =>
    match dropIdle more, first with
    | [], [] => none
    | [], _ :: _ => some ""
    | rest, _ =>
      match dropIdle rest.dropLast, first with
      | [], [] => some "/"
      | kept, _ => some (joinPieces (first :: kept))

/-- The path without the slashes at its end, unless it is the root. -/
def trimSlashes (path : RawText) : RawText :=
  match (path.toList.reverse.dropWhile (· == slash)).reverse with
  | [] => path
  | kept => .ofList kept

def ancestors (path : RawText) : List RawText :=
  go (pieces path).length path
where
  go : Nat → RawText → List RawText
    | 0, _ => []
    | n + 1, p =>
      if p.toList = [] then []
      else
        match parent? p with
        | some q => p :: go n q
        | none => [p]

/-- The name of a file with another extension. Of a name that is a dot and an extension the two
dots remain, which name the parent and can take no extension. -/
def replaceExtension (name extension : List UInt8) : List UInt8 :=
  let (stem, old) := splitExtension name
  if stem = [dot] ∧ old.isSome then [dot, dot] else stem ++ dot :: extension

def withExtension (path extension : RawText) : RawText :=
  match fileName? path, pieces path with
  | some name, first :: more =>
    let last := replaceExtension name.toList extension.toList
    match dropIdle more with
    | [] => .ofList last
    | rest => joinPieces (first :: rest.dropLast ++ [last])
  | _, _ => path

end StaticPreview.Path
