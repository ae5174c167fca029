import SchemaModels.CommandLine

namespace SchemaModels.WorkingTree

/-- What a directory entry holds, with all below it. What cannot be read is left out. -/
partial def entriesOf (above : Location) (entry : IO.FS.DirEntry) :
    IO (List (Location × Disk.Node)) := do
  let loc := entry.fileName :: above
  try
    match (← entry.path.metadata).type with
    | .dir =>
      let inside ← (← entry.path.readDir).toList.mapM (entriesOf loc)
      return (loc, .dir) :: inside.flatten
    | .file => return [(loc, .file (← IO.FS.readBinFile entry.path).toList)]
    | _ => return []
  catch _ => return []

/-- The names from the root of a path, the last first. -/
def locationOf (path : String) : Location :=
  ((Text.splitOn '/' path.toList).filter (!·.isEmpty)).reverse.map String.ofList

def load : IO Disk := do
  let dir ← IO.currentDir
  let disk := Disk.startAt (locationOf dir.toString)
  let entries ← (← dir.readDir).toList.mapM (entriesOf disk.work)
  return { disk with entries := disk.entries ++ entries.flatten }

def writeFile (path : String) (bytes : Text.Bytes) : IO Unit := do
  let temp := path ++ ".tmp"
  IO.FS.writeBinFile temp ⟨bytes.toArray⟩
  IO.FS.rename temp path

/-- Makes the directories and files that are new or changed, outer places first, and takes away
the files that are gone. -/
def carryOut (before after : Disk) : IO Unit := do
  let outerFirst (entries : List (Location × Disk.Node)) :=
    entries.mergeSort fun a b => decide (a.1.length ≤ b.1.length)
  for (loc, node) in outerFirst after.entries do
    if before.get? loc != some node then
      match node with
      | .dir => IO.FS.createDirAll (Disk.pathOf loc).text
      | .file bytes => writeFile (Disk.pathOf loc).text bytes
  for (loc, node) in before.entries do
    if node != .dir && (after.get? loc).isNone then
      IO.FS.removeFile (Disk.pathOf loc).text

end SchemaModels.WorkingTree

open SchemaModels in
def main (args : List String) : IO UInt32 := do
  let before ← WorkingTree.load
  let (after, reply) := CommandLine.answer before args
  WorkingTree.carryOut before after
  IO.print reply.out
  IO.eprint reply.err
  return reply.code.toUInt32
