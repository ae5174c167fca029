import SchemaModels.Text.Case
import SchemaModels.Text.Split

namespace SchemaModels.Name

def capitalize : List Char → List Char
  | [] => []
  | c :: cs => Text.upper c ++ cs

def camelChars (cs : List Char) : List Char :=
  (Text.splitOn '_' cs).flatMap capitalize

/-- The segments between underscores, each capitalized, without the underscores. -/
def camelCase (s : String) : String := String.ofList (camelChars s.toList)

/-- A letter or an underscore, then letters, numbers and underscores. -/
def isIdentifier (s : String) : Bool :=
  match s.toList with
  | [] => false
  | c :: cs => (Text.isAlphabetic c || c == '_') && cs.all Text.isIdentifierRest

def clean (cs : List Char) : List Char :=
  cs.map fun c => if Text.isIdentifierRest c then c else '_'

def modelFile (table : String) : String := table ++ "_model.go"

def columnTag (column : String) : String := "db:\"" ++ column ++ "\""

end SchemaModels.Name
