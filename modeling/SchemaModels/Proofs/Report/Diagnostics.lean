import Mathlib.Data.List.Forall2
import SchemaModels.Proofs.Report.Json
import SchemaModels.Report.Diagnostics

namespace SchemaModels

namespace Json

def member? (key : String) : Json → Option Json
  | obj members => members.lookup key
  | _ => none

def keys : Json → List String
  | obj members => members.map (·.1)
  | _ => []

end Json

structure ReportsFailure (f : FailedLine) (j : Json) : Prop where
  keys : j.keys = ["original_name", "camel_case_name", "line_number", "reason"]
  name : j.member? "original_name" = some (.str f.name)
  camelCase : j.member? "camel_case_name" = some (.str f.camelCase)
  lineNumber : j.member? "line_number" = some (.num f.lineNumber)
  reason : j.member? "reason" = some (.str f.reason.message)

/-- An object with the names, the counts and the flag of a table, and all its failures in order. -/
structure ReportsTable (t : Table) (j : Json) : Prop where
  keys : j.keys = ["table", "model", "columns", "failed", "disabled", "failed_columns"]
  table : j.member? "table" = some (.str t.names.text)
  model : j.member? "model" = some (.str t.names.camelCase)
  columns : j.member? "columns" = some (.num t.columns.length)
  failed : j.member? "failed" = some (.num t.failures.length)
  disabled : j.member? "disabled" = some (.bool t.disabled)
  failures : ∃ items, j.member? "failed_columns" = some (.arr items) ∧
    List.Forall₂ ReportsFailure t.failures items

namespace Diagnostics

theorem reportsFailure_ofFailure (f : FailedLine) : ReportsFailure f (ofFailure f) :=
  ⟨rfl, rfl, rfl, rfl, rfl⟩

theorem reportsTable_ofTable (t : Table) : ReportsTable t (ofTable t) := by
  refine ⟨rfl, rfl, rfl, rfl, rfl, rfl, t.failures.map ofFailure, rfl, ?_⟩
  exact List.forall₂_map_right_iff.2 (List.forall₂_same.2 fun f _ => reportsFailure_ofFailure f)

/-- A report is one document and the end of its line. Read back, it has an object for each table,
in order. -/
theorem report_reads_back (tables : List Table) : ∃ document items,
    (text tables).toList = document ++ ['\n'] ∧ document.getLast? = some ']' ∧
    Json.read? document = some (.arr items) ∧
    Json.read? (text tables).toList = some (.arr items) ∧
    List.Forall₂ ReportsTable tables items := by
  have htext : (text tables).toList = (ofTables tables).pretty.toList ++ ['\n'] := by
    rw [text, String.toList_append]
    rfl
  refine ⟨(ofTables tables).pretty.toList, tables.map ofTable, htext, ?_, ?_, ?_, ?_⟩
  · rw [Json.pretty, String.toList_ofList, ofTables, Json.chars]
    exact Json.getLast?_enclose '[' ']' 0 _
  · have hread := Json.read?_pretty (ofTables tables) (List.forall_mem_nil _)
    rwa [List.append_nil] at hread
  · rw [htext]
    exact Json.read?_pretty (ofTables tables) (List.forall_mem_singleton.2 rfl)
  · exact List.forall₂_map_right_iff.2 (List.forall₂_same.2 fun t _ => reportsTable_ofTable t)

end Diagnostics

end SchemaModels
