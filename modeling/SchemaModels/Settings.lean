import SchemaModels.Failure
import SchemaModels.Name
import SchemaModels.Text.Case

namespace SchemaModels

structure Settings where
  /-- Where the migrations are. -/
  migrations : Path := ⟨"db/migrations"⟩
  pattern : String := "*.sql"
  /-- Where the models go. -/
  output : Path := ⟨"models"⟩
  /-- The package of the models, made from the output directory if there is none. -/
  package? : Option String := none
  skip : List String := []
  /-- Unless this list is empty, only its tables get a model. -/
  only : List String := []
  nullablePointers : Bool := false
  report? : Option Path := none
  deriving DecidableEq, Repr

namespace Settings

def sameTable (a b : String) : Bool := Text.foldAscii a == Text.foldAscii b

/-- Refuses a blank pattern, then a package that is no identifier, then the first table that is
both skipped and selected. -/
def validate (s : Settings) : Except SettingsFault Unit :=
  if (Text.trim s.pattern.toList).isEmpty then .error .emptyPattern
  else
    match s.package?.filter fun p => !Name.isIdentifier p with
    | some package => .error (.invalidPackage package)
    | none =>
      match s.skip.find? fun t => s.only.any (sameTable t) with
      | some table => .error (.skippedAndSelected table)
      | none => .ok ()

def packageOf (dir : Path) : String :=
  match Name.clean (dir.fileName?.getD "").toList with
  | [] => "models"
  | name => String.ofList name

def packageName (s : Settings) : String := s.package?.getD (packageOf s.output)

end Settings

end SchemaModels
