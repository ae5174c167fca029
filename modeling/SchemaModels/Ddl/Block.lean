import SchemaModels.Ddl.ColumnLine
import SchemaModels.Ddl.Header
import SchemaModels.Text.Utf8

namespace SchemaModels.Ddl

open Text

def closesBlock (line : List Char) : Bool := (trim line).head? == some ')'

/-- Blank lines and lines that are all comment describe nothing. -/
def isCounted (line : List Char) : Bool :=
  match trim line with
  | [] | '#' :: _ | '-' :: '-' :: _ => false
  | _ => true

/-- Reads a trimmed line of the block. The line that closes it names no column. -/
def readTrimmed (line : List Char) : Except Refusal Column :=
  if line.head? == some ')' then .error ⟨[], .unexpectedFormat⟩ else readColumn line

def failedLine (lineNumber : Nat) (r : Refusal) : FailedLine where
  name := String.ofList r.name
  camelCase := Name.camelCase (String.ofList r.name)
  lineNumber
  reason := r.reason

inductive Phase where
  /-- No line opened the statement. -/
  | outside
  /-- The statement is open, its block is not. -/
  | header
  | block
  /-- A line closed the block. -/
  | closed
  deriving DecidableEq, Repr

structure Scan where
  phase : Phase
  columns : List Column
  failures : List FailedLine

namespace Scan

def start : Scan := ⟨.outside, [], []⟩

def add (s : Scan) (lineNumber : Nat) : Except Refusal Column → Scan
  | .ok c => { s with columns := s.columns ++ [c] }
  | .error r => { s with failures := s.failures ++ [failedLine lineNumber r] }

def opening (opened : Bool) (line : List Char) : Phase :=
  if !opened then .outside else if line.contains '(' then .block else .header

def step (s : Scan) (line : List Char × Nat) : Scan :=
  match s.phase with
  | .outside => { s with phase := opening (opensStatement line.1) line.1 }
  | .header => { s with phase := opening true line.1 }
  | .block =>
    if !isCounted line.1 then s
    else
      let read := s.add line.2 (readTrimmed (trim line.1))
      if closesBlock line.1 then { read with phase := .closed } else read
  | .closed => s

/-- Reads lines that are numbered from one. -/
def ofLines (ls : List (List Char)) : Scan := (ls.zipIdx 1).foldl step start

end Scan

def columns (text : List Char) : List Column := (Scan.ofLines (lines text)).columns

def failures (text : List Char) : List FailedLine := (Scan.ofLines (lines text)).failures

def tableOfText? (text : List Char) : Option Table :=
  (tableNameChars? text).map fun name => {
    names := .ofText (String.ofList name)
    columns := columns text
    failures := failures text
    disabled := false }

def tableOfBytes? (bytes : Bytes) : Option Table := tableOfText? (decodeLossy bytes)

end SchemaModels.Ddl
