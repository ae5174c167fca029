import SchemaModels.Ddl.Block
import SchemaModels.Failure
import SchemaModels.Glob.Walk

namespace SchemaModels.Discovery

/-- The pattern for the files in a directory, whose own name is taken as it is. -/
def fullPattern (dir : Path) (pattern : String) : List Char :=
  Glob.escape dir.text.toList ++ '/' :: pattern.toList

/-- The files in a directory that a pattern describes, sorted. None at all is a failure. -/
def find (d : Disk) (dir : Path) (pattern : String) : Except Failure (List Path) := do
  let query ← (Glob.Query.ofChars (fullPattern dir pattern)).mapError .pattern
  match ((query.paths d).filter d.isFile).mergeSort Path.le with
  | [] => .error (.noMigrations dir.text)
  | paths => .ok paths

def readTable (d : Disk) (path : Path) : Except Failure Table := do
  let bytes ← (d.read path).mapError (.read path)
  match Ddl.tableOfBytes? bytes with
  | some t => .ok t
  | none => .error (.tableNameNotFound path.text)

/-- The letters by which the names of two tables are held against each other. -/
def tableKey (t : Table) : String :=
  String.ofList (Text.lowerText t.names.text.toList)

/-- The first table whose name an earlier one has, after the tables in `seen`, latest first. -/
def duplicate? (seen : List (String × Path)) : List (Path × Table) → Option Failure
  | [] => none
  | (path, t) :: rest =>
    match seen.lookup (tableKey t) with
    | some first => some (.duplicateTable t.names.text first path)
    | none => duplicate? ((tableKey t, path) :: seen) rest

/-- The tables of some files, unless there is none or one is created twice. -/
def accept (paths : List Path) (tables : List Table) : Except Failure (List Table) :=
  if tables.isEmpty then .error (.noMigrations "<no files>")
  else
    match duplicate? [] (paths.zip tables) with
    | some failure => .error failure
    | none => .ok tables

def failures (read : List (Except Failure Table)) : List Failure :=
  read.filterMap fun
    | .ok _ => none
    | .error failure => some failure

/-- What threads that read files at the same time bring together: the tables of all files in order,
or one of the failures. Which of several it is depends on the threads, and `turn` tells it. -/
def gather (turn : Nat) (read : List (Except Failure Table)) : Except Failure (List Table) :=
  match (failures read)[turn % (failures read).length]? with
  | some failure => .error failure
  | none => .ok (read.filterMap (·.toOption))

/-- Reads the tables of some migrations, which all have to be there and name different tables. -/
def loadBy (turn : Nat) (d : Disk) (paths : List Path) : Except Failure (List Table) := do
  accept paths (← gather turn (paths.map (readTable d)))

/-- A single thread reads the files one after another. -/
def load (d : Disk) (paths : List Path) : Except Failure (List Table) := loadBy 0 d paths

def loadDir (d : Disk) (dir : Path) (pattern : String) : Except Failure (List Table) := do
  load d (← find d dir pattern)

end SchemaModels.Discovery
