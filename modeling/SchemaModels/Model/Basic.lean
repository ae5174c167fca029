import SchemaModels.Table

namespace SchemaModels

structure Field where
  name : String
  type : String
  tag : String
  kind : Kind
  default? : Option String
  deriving DecidableEq, Repr

structure EnumType where
  name : String
  parent : String
  values : List String
  deriving DecidableEq, Repr

structure Model where
  table : String
  package : String
  name : String
  fields : List Field
  enumTypes : List EnumType
  needsTime : Bool
  deriving DecidableEq, Repr

/-- The type for an enum column. The name of its table keeps it apart from those of others. -/
def EnumType.nameFor (model : String) (c : Column) : String := model ++ c.camelCase

def EnumType.ofColumn (model : String) (c : Column) : EnumType where
  name := nameFor model c
  parent := Kind.string.memberType
  values := c.enumValues

/-- The type of a member. With `pointers`, a column that may be null gets a pointer, except that
the types for enums and bytes stay as they are. -/
def Field.typeFor (model : String) (pointers : Bool) (c : Column) : String :=
  if c.kind = .enum then EnumType.nameFor model c
  else if pointers && c.nullable && c.kind != .bytes then "*" ++ c.kind.memberType
  else c.kind.memberType

def Field.ofColumn (model : String) (pointers : Bool) (c : Column) : Field where
  name := c.camelCase
  type := typeFor model pointers c
  tag := Name.columnTag c.name
  kind := c.kind
  default? := c.default?

namespace Model

def fieldsOf (model : String) (pointers : Bool) (columns : List Column) : List Field :=
  columns.map (.ofColumn model pointers)

def enumTypesOf (model : String) (columns : List Column) : List EnumType :=
  (columns.filter (·.kind == .enum)).map (.ofColumn model)

def needsTimeImport (fields : List Field) : Bool := fields.any (·.kind == .time)

def ofTable (t : Table) (package : String) (pointers : Bool) : Model :=
  let fields := fieldsOf t.names.camelCase pointers t.columns
  { table := t.names.text
    package
    name := t.names.camelCase
    fields
    enumTypes := enumTypesOf t.names.camelCase t.columns
    needsTime := needsTimeImport fields }

end Model

end SchemaModels
