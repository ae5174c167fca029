import SchemaModels.Table

namespace SchemaModels

/-- Names of tables, in ASCII lower case. -/
structure Selection where
  skip : List String
  only : List String

namespace Selection

def ofNames (skip only : List String) : Selection :=
  ⟨skip.map Text.foldAscii, only.map Text.foldAscii⟩

/-- A skipped table is out. An empty list of the only tables rules none out. -/
def enables (s : Selection) (table : String) : Bool :=
  let folded := Text.foldAscii table
  !s.skip.contains folded && (s.only.isEmpty || s.only.contains folded)

def rulesOut (s : Selection) (t : Table) : Bool := !s.enables t.names.text

/-- Disables the tables that the selection rules out and enables none. -/
def apply (s : Selection) (tables : List Table) : List Table :=
  tables.map fun t => if s.rulesOut t then { t with disabled := true } else t

def countRuledOut (s : Selection) (tables : List Table) : Nat := tables.countP s.rulesOut

end Selection

end SchemaModels
