import SchemaModels.Kind
import SchemaModels.Name

namespace SchemaModels

structure TableName where
  text : String
  camelCase : String
  deriving DecidableEq, Repr

def TableName.ofText (text : String) : TableName := ⟨text, Name.camelCase text⟩

structure Column where
  name : String
  camelCase : String
  kind : Kind
  default? : Option String
  /-- The values of an enum column in source order. -/
  enumValues : List String
  nullable : Bool
  deriving DecidableEq, Repr

inductive LineFailure where
  | unexpectedFormat
  | unsupportedType (raw : String)
  | missingEnumValues
  | tableConstraint
  deriving DecidableEq, Repr

def LineFailure.message : LineFailure → String
  | unexpectedFormat => "does not match expected column format"
  | unsupportedType raw => "unsupported column type: `" ++ raw ++ "`"
  | missingEnumValues => "enum type found but no values present"
  | tableConstraint => "table-level constraint, not a column"

structure FailedLine where
  name : String
  camelCase : String
  /-- Counted from one over the whole migration. -/
  lineNumber : Nat
  reason : LineFailure
  deriving DecidableEq, Repr

structure Table where
  names : TableName
  columns : List Column
  failures : List FailedLine
  /-- No model is written for a disabled table. -/
  disabled : Bool
  deriving DecidableEq, Repr

namespace Table

def hasTime (t : Table) : Bool := t.columns.any (·.kind == .time)

end Table

end SchemaModels
