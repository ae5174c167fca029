import SchemaModels.Model.Source

namespace SchemaModels.Summary

abbrev Row := List String

def headings : Row := ["TABLE", "MODEL", "COLUMNS", "FAILED", "STATUS"]

def tableRow (t : Table) : Row :=
  [t.names.text, t.names.camelCase, toString t.columns.length, toString t.failures.length,
    if t.disabled then "disabled" else "enabled"]

def failureHeadings : Row := ["TABLE", "LINE", "COLUMN", "REASON"]

def failureRow (t : Table) (f : FailedLine) : Row :=
  [t.names.text, toString f.lineNumber, f.name, f.reason.message]

def failureRows (tables : List Table) : List Row :=
  tables.flatMap fun t => t.failures.map (failureRow t)

def widths (headings : Row) (rows : List Row) : List Nat :=
  rows.foldl (fun ws row => List.zipWith (fun w cell => max w cell.length) ws row)
    (headings.map String.length)

/-- Cells filled up to their widths and two spaces apart, without blanks at the end. -/
def rowLine (widths : List Nat) (row : Row) : String :=
  let cells := List.zipWith (fun w cell => (padTo w cell).toList) widths row
  String.ofList (Text.trimEnd ([' ', ' '].intercalate cells))

def rule (widths : List Nat) : Row := widths.map fun w => String.ofList (List.replicate w '-')

def blockLines (headings : Row) (rows : List Row) : List String :=
  let ws := widths headings rows
  (headings :: rule ws :: rows).map (rowLine ws)

def lines (tables : List Table) : List String :=
  blockLines headings (tables.map tableRow) ++
  match failureRows tables with
  | [] => []
  | rows => "" :: blockLines failureHeadings rows

def text (tables : List Table) : String := unlines (lines tables)

end SchemaModels.Summary
