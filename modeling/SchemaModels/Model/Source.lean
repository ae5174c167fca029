import SchemaModels.Model.Basic
import SchemaModels.Model.Constant

namespace SchemaModels

def unlines (lines : List String) : String :=
  String.ofList (lines.flatMap fun line => line.toList ++ ['\n'])

def padTo (width : Nat) (cell : String) : String :=
  cell ++ String.ofList (List.replicate (width - cell.length) ' ')

def byteWidth (cells : List String) : Nat := (cells.map String.utf8ByteSize).foldr max 0

namespace Model

def headerLines (m : Model) : List String :=
  ["// Code generated by modelgen. DO NOT EDIT.", "// Source table: " ++ m.table, "",
    "package " ++ m.package, ""] ++
  if m.needsTime then ["import \"time\"", ""] else []

def quotedTag (f : Field) : String := "`" ++ f.tag ++ "`"

/-- Cells are filled up to widths in bytes by as many characters as are missing. -/
def memberLine (nameWidth typeWidth tagWidth : Nat) (f : Field) : String :=
  let start := "\t" ++ padTo nameWidth f.name ++ " " ++ padTo typeWidth f.type ++ " "
  match f.default? with
  | some value => start ++ padTo tagWidth (quotedTag f) ++ " // default: " ++ value
  | none => start ++ quotedTag f

def memberLines (fields : List Field) : List String :=
  fields.map (memberLine (byteWidth (fields.map (·.name))) (byteWidth (fields.map (·.type)))
    (byteWidth (fields.map quotedTag)))

def structLines (m : Model) : List String :=
  ["type " ++ m.name ++ " struct \x7b"] ++ memberLines m.fields ++ ["\x7d"]

def constantLine (nameWidth : Nat) (type name value : String) : String :=
  "\t" ++ padTo nameWidth name ++ " " ++ type ++ " = " ++ Constant.literal value

def constantLines (t : EnumType) : List String :=
  let names := Constant.names t.name t.values
  List.zipWith (constantLine (byteWidth names) t.name) names t.values

def enumLines (t : EnumType) : List String :=
  ["", "type " ++ t.name ++ " " ++ t.parent, "", "const ("] ++ constantLines t ++ [")"]

def sourceLines (m : Model) : List String :=
  headerLines m ++ structLines m ++ m.enumTypes.flatMap enumLines

def source (m : Model) : String := unlines m.sourceLines

end Model

structure ModelFile where
  table : String
  fileName : String
  contents : String
  deriving DecidableEq, Repr

def ModelFile.ofTable (t : Table) (package : String) (pointers : Bool) : ModelFile where
  table := t.names.text
  fileName := Name.modelFile t.names.text
  contents := (Model.ofTable t package pointers).source

end SchemaModels
