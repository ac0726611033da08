import StaticPreview.Command.Run

/-! # The program

The program sees the files below its working folder. It runs one command on them and writes the
files that the command changed. It opens no sockets: where a server would start, it only says so.
-/
open StaticPreview

/-- What directories hold, as far as it can be read. -/
partial def loadEntries (found : Array IO.FS.DirEntry) : IO (List (RawText × Disk.Entry)) :=
  found.toList.filterMapM fun item => do
    try
      if ← item.path.isDir then
        return some (item.fileName, .folder (← loadEntries (← item.path.readDir)))
      else
        let bytes ← IO.FS.readBinFile item.path
        return some (item.fileName, .file (.ofBytes bytes.toList))
    catch _ => return none

def loadDisk : IO Disk := do
  let folder ← IO.currentDir
  let here : Disk := ⟨.emptyFolder, []⟩
  let names := here.spelled folder.toString
  let entries ← loadEntries (← folder.readDir)
  return ⟨here.top.put (.folder entries) names, names⟩

def writeFile (path : String) (content : Disk.Content) : IO Unit := do
  match Path.parent? path with
  | some parent => unless parent.toList.isEmpty do IO.FS.createDirAll (parent : String)
  | none => pure ()
  match content with
  | .text s => IO.FS.writeFile path s
  | .bytes b => IO.FS.writeBinFile path ⟨b.toArray⟩

def main (words : List String) : IO UInt32 := do
  let before ← loadDisk
  let (report, after) := Command.runWords false words before
  for (path, content) in after.changedSince before do
    writeFile path content
  IO.print report.stdout
  match report.failure with
  | some line => IO.eprintln line
  | none => pure ()
  match report.address with
  | some address => IO.eprintln ("Nothing listens on " ++ address)
  | none => pure ()
  return .ofNat report.code
