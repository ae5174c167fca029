import SchemaModels.Disk.Basic
import SchemaModels.Settings
import SchemaModels.Yaml.Node

namespace SchemaModels.SettingsFile

open Yaml (Node)

abbrev Anchors := List (Nat × Node)

def string? (table : Anchors) (n : Node) : Option String :=
  match n.resolve table with
  | .scalar _ _ text => some (String.ofList text)
  | _ => none

def isNull (text : List Char) : Bool :=
  [['~'], "null".toList, "Null".toList, "NULL".toList].contains text

/-- The scalar of a value that may be absent. Only a plain one can say that it is. -/
def optionalString? (table : Anchors) (n : Node) : Option (Option String) :=
  match n.resolve table with
  | .scalar none .plain text =>
    if text.isEmpty || isNull text then some none else some (some (String.ofList text))
  | .scalar (some tag) .plain text =>
    if tag ≠ "tag:yaml.org,2002:null".toList then some (some (String.ofList text))
    else if isNull text then some none
    else none
  | .scalar _ _ text => some (some (String.ofList text))
  | _ => none

def boolOf? (text : List Char) : Option Bool :=
  if ["true".toList, "True".toList, "TRUE".toList].contains text then some true
  else if ["false".toList, "False".toList, "FALSE".toList].contains text then some false
  else none

/-- A truth value is plain, or literal with the tag for one. -/
def bool? (table : Anchors) (n : Node) : Option Bool :=
  match n.resolve table with
  | .scalar _ .plain text => boolOf? text
  | .scalar (some tag) .literal text =>
    if tag = "tag:yaml.org,2002:bool".toList then boolOf? text else none
  | _ => none

def strings? (table : Anchors) (n : Node) : Option (List String) :=
  match n.resolve table with
  | .sequence items => items.mapM (string? table)
  | .scalar _ .plain [] => some []
  | _ => none

def set? (table : Anchors) (s : Settings) (key : String) (n : Node) : Option Settings :=
  match key with
  | "migrations_dir" => (string? table n).map fun v => { s with migrations := ⟨v⟩ }
  | "pattern" => (string? table n).map fun v => { s with pattern := v }
  | "output_dir" => (string? table n).map fun v => { s with output := ⟨v⟩ }
  | "package" => (optionalString? table n).map fun v => { s with package? := v }
  | "skip_tables" => (strings? table n).map fun v => { s with skip := v }
  | "only_tables" => (strings? table n).map fun v => { s with only := v }
  | "nullable_pointers" => (bool? table n).map fun v => { s with nullablePointers := v }
  | "report" => (optionalString? table n).map fun v => { s with report? := v.map Path.mk }
  | _ => some s

def keys : List String :=
  ["migrations_dir", "pattern", "output_dir", "package", "skip_tables", "only_tables",
    "nullable_pointers", "report"]

/-- Sets what the entries say; `seen` are the settings that were set. -/
def setAll? (table : Anchors) (seen : List String) (s : Settings) :
    List (Node × Node) → Option Settings
  | [] => some s
  | (key, value) :: rest => do
    let key ← string? table key
    if seen.contains key then none
    let s ← set? table s key value
    setAll? table (if keys.contains key then key :: seen else seen) s rest

def ofNode? (n : Node) : Option Settings :=
  let table := n.anchors
  match n.resolve table with
  | .mapping entries => setAll? table [] {} entries
  | .scalar _ .plain [] => some {}
  | _ => none

def parse (text : String) : Except Failure Settings := do
  match (Node.ofText? text.toList).bind ofNode? with
  | none => .error .yaml
  | some s =>
    s.validate.mapError .settings
    return s

def load (d : Disk) (path : Path) : Except Failure Settings := do
  parse (← (d.readText path).mapError (.read path))

end SchemaModels.SettingsFile
