import SchemaModels.Disk.Cause
import SchemaModels.Disk.Path
import SchemaModels.Glob.Pattern

namespace SchemaModels

inductive SettingsFault where
  | emptyPattern
  | invalidPackage (package : String)
  | skippedAndSelected (table : String)
  deriving DecidableEq, Repr

def SettingsFault.message : SettingsFault → String
  | emptyPattern => "pattern must not be empty"
  | invalidPackage package => "package `" ++ package ++ "` is not a valid Go identifier"
  | skippedAndSelected table => "table `" ++ table ++ "` is both skipped and selected"

inductive Failure where
  | noMigrations (place : String)
  | tableNameNotFound (origin : String)
  | duplicateTable (table : String) (first second : Path)
  | read (path : Path) (cause : Cause)
  | write (path : Path) (cause : Cause)
  | pattern (error : Glob.PatternError)
  | settings (fault : SettingsFault)
  | yaml
  deriving DecidableEq, Repr

namespace Failure

def message : Failure → String
  | noMigrations place => "no migrations found in " ++ place
  | tableNameNotFound origin => "table name not found in " ++ origin
  | duplicateTable table first second =>
    "table `" ++ table ++ "` is created by both " ++ first.text ++ " and " ++ second.text
  | read path cause => "reading " ++ path.text ++ ": " ++ cause.message
  | write path cause => "writing " ++ path.text ++ ": " ++ cause.message
  | pattern error => "invalid migration pattern: " ++ error.message
  | settings fault => "Configuration error: " ++ fault.message
  | yaml => "YAML error: the settings do not have the expected form"

def source? : Failure → Option String
  | read _ cause | write _ cause => some cause.message
  | pattern error => some error.message
  | _ => none

end Failure

end SchemaModels
