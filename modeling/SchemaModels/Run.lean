import SchemaModels.Discovery
import SchemaModels.Model.Source
import SchemaModels.Report.Diagnostics
import SchemaModels.Selection
import SchemaModels.Settings
import SchemaModels.Staging

namespace SchemaModels

open Text (Bytes)

structure Outcome where
  tables : List Table
  written : List Path
  /-- The names of the tables that the selection ruled out. -/
  skipped : List String

namespace Run

def failedLines (tables : List Table) : Nat := (tables.flatMap (·.failures)).length

def tablesBy (turn : Nat) (d : Disk) (s : Settings) : Except Failure (List Table) := do
  s.validate.mapError .settings
  let paths ← Discovery.find d s.migrations s.pattern
  let tables ← Discovery.loadBy turn d paths
  return (Selection.ofNames s.skip s.only).apply tables

def tables (d : Disk) (s : Settings) : Except Failure (List Table) := tablesBy 0 d s

def models (s : Settings) (tables : List Table) : List ModelFile :=
  (tables.filter (!·.disabled)).map fun t => .ofTable t s.packageName s.nullablePointers

def skipped (tables : List Table) : List String :=
  (tables.filter (·.disabled)).map (·.names.text)

/-- The files of a run: the models in order, and the report last. -/
def files (s : Settings) (tables : List Table) : List (Path × Bytes) :=
  (models s tables).map (fun m => (s.output.join m.fileName, Text.encode m.contents.toList)) ++
    s.report?.toList.map fun path => (path, Text.encode (Diagnostics.text tables).toList)

def write (d : Disk) (s : Settings) (tables : List Table) : Disk × Except Failure (List Path) :=
  match Staging.stageAll d [] (files s tables) with
  | (d, .error failure) => (d, .error failure)
  | (d, .ok staged) =>
    match Staging.commit d staged with
    | (d, .error failure) => (d, .error failure)
    | (d, .ok written) => (d, .ok (written.take (models s tables).length))

end Run

/-- Runs on a disk: everything is read and composed before the first file is written. A dry run
writes nothing. The files are read by threads, and `turn` tells whose failure they come back
with. -/
def runBy (turn : Nat) (d : Disk) (s : Settings) (dryRun : Bool) :
    Disk × Except Failure Outcome :=
  match Run.tablesBy turn d s with
  | .error failure => (d, .error failure)
  | .ok tables =>
    if dryRun then (d, .ok ⟨tables, [], Run.skipped tables⟩)
    else
      match Run.write d s tables with
      | (d, .error failure) => (d, .error failure)
      | (d, .ok written) => (d, .ok ⟨tables, written, Run.skipped tables⟩)

/-- The run of a single thread. -/
def run (d : Disk) (s : Settings) (dryRun : Bool) : Disk × Except Failure Outcome :=
  runBy 0 d s dryRun

end SchemaModels
