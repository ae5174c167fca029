import SchemaModels.Report.Json
import SchemaModels.Table

namespace SchemaModels.Diagnostics

def ofFailure (f : FailedLine) : Json :=
  .obj [("original_name", .str f.name), ("camel_case_name", .str f.camelCase),
    ("line_number", .num f.lineNumber), ("reason", .str f.reason.message)]

def ofTable (t : Table) : Json :=
  .obj [("table", .str t.names.text), ("model", .str t.names.camelCase),
    ("columns", .num t.columns.length), ("failed", .num t.failures.length),
    ("disabled", .bool t.disabled), ("failed_columns", .arr (t.failures.map ofFailure))]

def ofTables (tables : List Table) : Json := .arr (tables.map ofTable)

def text (tables : List Table) : String := (ofTables tables).pretty ++ "\n"

end SchemaModels.Diagnostics
