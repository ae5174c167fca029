import SchemaModels.Name

namespace SchemaModels.Constant

def baseName (type value : String) : String :=
  type ++ String.ofList (Name.clean value.toList)

def numbered (base : String) (n : Nat) : String := base ++ "_" ++ toString n

/-- The name itself, or else numbered with the least number from two on that is not taken. One of
the first `taken.length + 1` numbers is free. -/
def freshName (taken : List String) (base : String) : String :=
  let candidates := base :: (List.range' 2 (taken.length + 1)).map (numbered base)
  (candidates.find? fun name => !taken.contains name).getD base

def namesFrom (type : String) (taken : List String) : List String → List String
  | [] => []
  | value :: values =>
    let name := freshName taken (baseName type value)
    name :: namesFrom type (name :: taken) values

def names (type : String) (values : List String) : List String := namesFrom type [] values

def escape : Char → List Char
  | '"' => ['\\', '"']
  | '\\' => ['\\', '\\']
  | '\n' => ['\\', 'n']
  | '\t' => ['\\', 't']
  | c => [c]

def literalChars (cs : List Char) : List Char := '"' :: cs.flatMap escape ++ ['"']

def literal (value : String) : String := String.ofList (literalChars value.toList)

end SchemaModels.Constant
