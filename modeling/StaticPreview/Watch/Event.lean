import StaticPreview.Sources

/-! # Watch events

The file system signals that a path was created, modified or removed. Of one burst of signals each
event is kept once, in the order of the first signals.
-/
namespace StaticPreview.Watch

inductive Kind where
  | any
  | access
  | create
  | modify
  | remove
  | other
  deriving DecidableEq, Repr

structure Signal where
  kind : Kind
  paths : List RawText
  deriving DecidableEq, Repr

inductive EventKind where
  | changed
  | removed
  | other
  deriving DecidableEq, Repr

structure Event where
  kind : EventKind
  path : RawText
  deriving DecidableEq, Repr

/-- Whether two events are of one kind and about one path, however it is spelled. -/
def Event.same (a b : Event) : Bool :=
  a.kind == b.kind && Path.same a.path b.path

def classify? (kind : Kind) (path : RawText) : Option Event :=
  match kind, isComponentFile path with
  | .create, true => some ⟨.changed, path⟩
  | .modify, true => some ⟨.changed, path⟩
  | .remove, true => some ⟨.removed, path⟩
  | .create, false => some ⟨.other, path⟩
  | .modify, false => some ⟨.other, path⟩
  | .remove, false => some ⟨.other, path⟩
  | _, _ => none

def addEvent (pending : List Event) (e : Event) : List Event :=
  if pending.any e.same then pending else pending ++ [e]

def collect (pending : List Event) (s : Signal) : List Event :=
  (s.paths.filterMap (classify? s.kind)).foldl addEvent pending

def events (burst : List Signal) : List Event :=
  burst.foldl collect []

end StaticPreview.Watch
