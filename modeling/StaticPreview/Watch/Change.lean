import StaticPreview.Disk.Basic

/-! # Changes on the disk

A change that is wanted is made in steps, each of which happens to one entry. A change that is
impossible has no steps: a file does not take the place of a folder, nor a folder that of a file
or of a folder which holds something, no folder is moved into itself, and nothing lies below a
file.
-/
namespace StaticPreview.Watch

inductive Change where
  | write (path : RawText) (content : Disk.Content)
  | makeFolder (path : RawText)
  | delete (path : RawText)
  | rename (path target : RawText)
  deriving Repr

/-- What happens to one entry, by the names that lead to it. What is written or moved takes the
place of what had its name. -/
inductive Step where
  | write (names : List RawText) (content : Disk.Content)
  | makeFolder (names : List RawText)
  | remove (names : List RawText)
  | move (names target : List RawText)
  deriving DecidableEq, Repr

def Step.apply (d : Disk) : Step → Disk
  | write names content => d.put names (.file content)
  | makeFolder names => d.addFolder names
  | remove names => d.remove names
  | move names target =>
    match d.entryAt? names with
    | some e => (d.remove names).put target e
    | none => d

/-- The steps that make a change. A folder is removed after all that it holds. -/
def Change.steps (d : Disk) : Change → List Step
  | write path content =>
    let names := d.spelled path
    let isFolder := (d.entryAt? names).any Disk.Entry.isFolder
    if d.top.admits names && !isFolder then [.write names content] else []
  | makeFolder path =>
    let names := d.spelled path
    if d.top.admits names && (d.entryAt? names).isNone then [.makeFolder names] else []
  | delete path =>
    let names := d.spelled path
    match d.entryAt? names with
    | some e => e.contentsFirst.map fun below => .remove (names ++ below)
    | none => []
  | rename path target =>
    let names := d.spelled path
    let others := d.spelled target
    match d.entryAt? names with
    | some e =>
      let isInside := (Text.after? names others).isSome
      if d.top.admits others && !isInside && (d.entryAt? others).all e.mayReplace then
        [.move names others]
      else []
    | none => []

def Change.apply (d : Disk) (c : Change) : Disk :=
  (c.steps d).foldl Step.apply d

def stepsOf (d : Disk) : List Change → List Step
  | [] => []
  | c :: more => c.steps d ++ stepsOf (c.apply d) more

end StaticPreview.Watch
