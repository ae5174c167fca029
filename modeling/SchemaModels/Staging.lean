import SchemaModels.Disk.Basic
import SchemaModels.Failure

namespace SchemaModels

open Text (Bytes)

/-- A file that is written but does not have its name yet. -/
structure Staged where
  dir : Path
  /-- Its temporary name in that directory. -/
  name : String
  target : Path

namespace Staging

/-- The `n`-th temporary name, with six digits at least. -/
def tempName (n : Nat) : String :=
  ".tmp" ++ String.ofList (List.replicate (6 - (Nat.toDigits 10 n).length) '0' ++ Nat.toDigits 10 n)

/-- The number of the first temporary name from `n` on that a directory does not hold. -/
def freshNumber (names : List String) (n : Nat) : Nat :=
  ((List.range (names.length + 1)).map (n + ·)).find? (fun k => !names.contains (tempName k))
    |>.getD n

/-- The path by which a temporary file in a directory is made, from the root on. Its length is that
with the first name, whatever the number. -/
def tempPath (d : Disk) (dir : Path) : Path :=
  ((Disk.pathOf d.work).join dir.text).join (tempName 0)

def writeTemp (d : Disk) (dir : Path) (bytes : Bytes) : Except Cause (Disk × String) := do
  let loc ← d.resolveDir dir
  Disk.checkText (tempPath d dir)
  let n := freshNumber (d.children loc) d.tempCount
  return ({ d.set (tempName n :: loc) (.file bytes) with tempCount := n + 1 }, tempName n)

/-- Makes the directory of a target as far as it is missing and writes the file there. -/
@[irreducible]
def stage (d : Disk) (target : Path) (bytes : Bytes) : Disk × Except Failure Staged :=
  let dir := target.directory
  match d.makeDirAll dir with
  | (d, .error cause) => (d, .error (.write dir cause))
  | (d, .ok ()) =>
    match writeTemp d dir bytes with
    | .error cause => (d, .error (.write dir cause))
    | .ok (d, name) => (d, .ok ⟨dir, name, target⟩)

def drop (d : Disk) (s : Staged) : Disk :=
  match d.resolveDir s.dir with
  | .ok loc => d.eraseFile (s.name :: loc)
  | .error _ => d

def discard (d : Disk) (staged : List Staged) : Disk := staged.foldl drop d

/-- Stages all files, or discards those staged so far when one fails. -/
def stageAll (d : Disk) (staged : List Staged) :
    List (Path × Bytes) → Disk × Except Failure (List Staged)
  | [] => (d, .ok staged)
  | (target, bytes) :: rest =>
    match stage d target bytes with
    | (d, .error failure) => (discard d staged, .error failure)
    | (d, .ok s) => stageAll d (staged ++ [s]) rest

/-- Renames staged files in order; `done` are the targets renamed so far. When one cannot be
renamed, those are taken away and no staged file stays. -/
def commitAfter (done : List Path) (d : Disk) :
    List Staged → Disk × Except Failure (List Path)
  | [] => (d, .ok done)
  | s :: rest =>
    match d.rename s.dir s.name s.target with
    | .ok d => commitAfter (done ++ [s.target]) d rest
    | .error cause =>
      (discard (done.foldl Disk.unlink d) (s :: rest), .error (.write s.target cause))

def commit (d : Disk) (staged : List Staged) : Disk × Except Failure (List Path) :=
  commitAfter [] d staged

def writeAtomic (d : Disk) (target : Path) (bytes : Bytes) : Disk × Except Failure Unit :=
  match stage d target bytes with
  | (d, .error failure) => (d, .error failure)
  | (d, .ok s) =>
    match commit d [s] with
    | (d, .error failure) => (d, .error failure)
    | (d, .ok _) => (d, .ok ())

def writeModel (d : Disk) (dir : Path) (fileName contents : String) : Disk × Except Failure Path :=
  let path := dir.join fileName
  match writeAtomic d path (Text.encode contents.toList) with
  | (d, .error failure) => (d, .error failure)
  | (d, .ok ()) => (d, .ok path)

end Staging

end SchemaModels
