import StaticPreview.Watch.Change
import StaticPreview.Watch.Event

/-! # Watchers

A watcher watches files, and folders with all folders below them. A watched folder signals what
happens to the entries that it holds, and spells them behind the path by which it was itself
watched last. That path stays as it is when the folder is moved from outside, so what is made in
it later is looked for where the folder was, and is not watched.
-/
namespace StaticPreview.Watch

/-- A watched entry: the names that lead to it now, the path by which it was watched last, and
whether it signals that it was itself moved or is gone. -/
structure Place where
  number : Nat
  names : List RawText
  path : RawText
  signalsItself : Bool
  deriving DecidableEq, Repr

/-- A path by which a place was watched, and whether the place was then to signal what happens to
itself. The place may be gone. -/
structure Listing where
  path : RawText
  number : Nat
  signalsItself : Bool
  deriving DecidableEq, Repr

/-- What is watched, and the paths by which it was. No two places have the same names, and no two
listings the same path. -/
structure Watcher where
  places : List Place
  listings : List Listing
  next : Nat
  deriving DecidableEq, Repr

namespace Watcher

def empty : Watcher := ⟨[], [], 0⟩

def placeAt? (w : Watcher) (names : List RawText) : Option Place :=
  w.places.find? (·.names == names)

def listing? (w : Watcher) (path : RawText) : Option Listing :=
  w.listings.find? fun l => Path.same l.path path

/-- Watches an entry by a path. A place that is there gets the path. It keeps signalling what
happens to itself only if the path was listed. -/
def watch (w : Watcher) (names : List RawText) (path : RawText) (signalsItself : Bool) : Watcher :=
  let listed := w.listing? path
  let wanted := signalsItself || listed.any Listing.signalsItself
  let others := w.listings.filter fun l => !Path.same l.path path
  match w.placeAt? names with
  | some p =>
    let p := { p with path, signalsItself := wanted || listed.isSome && p.signalsItself }
    { w with
      places := w.places.map fun q => if q.names = names then p else q
      listings := ⟨path, p.number, wanted⟩ :: others }
  | none =>
    { places := ⟨w.next, names, path, wanted⟩ :: w.places
      listings := ⟨path, w.next, wanted⟩ :: others
      next := w.next + 1 }

/-- Watches what a path leads to, if anything: a file, or a folder and the folders below it. -/
def add (d : Disk) (w : Watcher) (path : RawText) (signalsItself : Bool) : Watcher :=
  match d.locate path with
  | .error _ => w
  | .ok names =>
    match d.entryAt? names with
    | none => w
    | some (.file _) => w.watch names path true
    | some folder =>
      folder.folders.foldl
        (fun w below =>
          w.watch (names ++ below) (below.foldl Path.join path) (signalsItself && below.isEmpty))
        w

def start (d : Disk) (paths : List RawText) : Watcher :=
  paths.foldl (fun w path => w.add d path true) empty

/-- Takes a path off the list, and with its place, unless that is gone, the places below the
path. -/
def forget (w : Watcher) (path : RawText) : Watcher :=
  match w.listing? path with
  | none => w
  | some l =>
    let others := w.listings.filter fun k => !Path.same k.path path
    if w.places.any (·.number == l.number) then
      { w with
        places := w.places.filter fun p => p.number != l.number && !Path.isBelow path p.path
        listings := others.filter fun k =>
          !(Path.isBelow path k.path && w.places.any fun p => Path.same p.path k.path) }
    else { w with listings := others }

def spelling? (w : Watcher) (names : List RawText) : Option RawText := do
  let folder ← w.placeAt? names.dropLast
  return Path.join folder.path (← names.getLast?)

def ownPath? (w : Watcher) (names : List RawText) : Option RawText :=
  ((w.placeAt? names).filter Place.signalsItself).map Place.path

def signal (kind : Kind) (path : Option RawText) : List Signal :=
  path.toList.map fun path => ⟨kind, [path]⟩

/-- What is signalled of a step. A place signals that it was modified when the last name of its
entry goes, which for a file is before it is gone. -/
def signals (d : Disk) (w : Watcher) (step : Step) : List Signal :=
  let seen kind names := signal kind (w.spelling? names)
  let unnamed names := signal .modify ((w.placeAt? names).map Place.path)
  let itself kind names := signal kind (w.ownPath? names)
  match step with
  | .write names _ => seen .modify names ++ unnamed names ++ itself .remove names
  | .makeFolder names => seen .create names
  | .remove names =>
    let isFolder := (d.entryAt? names).any Disk.Entry.isFolder
    (if isFolder then [] else unnamed names) ++ itself .remove names ++ seen .remove names
  | .move names target =>
    seen .modify names ++ seen .modify target ++ unnamed target ++ itself .modify names ++
      itself .remove target

def drop (w : Watcher) (names : List RawText) : Watcher :=
  { w with places := w.places.filter (·.names != names) }

def move (w : Watcher) (names target : List RawText) : Watcher :=
  let moved (p : Place) : Place :=
    match Text.after? names p.names with
    | some rest => { p with names := target ++ rest }
    | none => p
  { w with places := w.places.map moved }

def forgetAll (w : Watcher) (paths : List RawText) : Watcher :=
  paths.foldl forget w

def newPath? (w : Watcher) (names : List RawText) : Option RawText := do
  let folder ← w.placeAt? names.dropLast
  let _ ← w.listing? folder.path
  w.spelling? names

def addNew (d : Disk) (w : Watcher) (path : Option RawText) : Watcher :=
  path.elim w fun path => w.add d path false

/-- The watcher after a step on a disk. What is gone, or was moved out of a watched folder, is
taken off the list, and a new folder is watched. -/
def after (d : Disk) (w : Watcher) (step : Step) : Watcher :=
  match step with
  | .write names _ => (w.drop names).forgetAll (w.ownPath? names).toList
  | .makeFolder names => addNew (step.apply d) w (w.newPath? names)
  | .remove names =>
    (w.drop names).forgetAll ((w.ownPath? names).toList ++ (w.spelling? names).toList)
  | .move names target =>
    let gone := (w.spelling? names).toList ++ (w.ownPath? target).toList
    let w' := ((w.drop target).move names target).forgetAll gone
    if (d.entryAt? names).any Disk.Entry.isFolder then
      addNew (step.apply d) w' (w.newPath? target)
    else w'

def signalsOf (d : Disk) (w : Watcher) : List Step → Disk × Watcher × List Signal
  | [] => (d, w, [])
  | step :: more =>
    let (d', w', rest) := signalsOf (step.apply d) (w.after d step) more
    (d', w', w.signals d step ++ rest)

/-- Makes a burst of changes: the disk and the watcher after them, and the events. -/
def eventsOf (d : Disk) (w : Watcher) (changes : List Change) : Disk × Watcher × List Event :=
  let (d', w', burst) := w.signalsOf d (stepsOf d changes)
  (d', w', events burst)

end Watcher
end StaticPreview.Watch
