import SchemaModels.Table
import SchemaModels.Text.Keyword

namespace SchemaModels.Ddl

open Text

/-- A name in front, after at most one opening quote. -/
def quotedName? (cs : List Char) : Option (List Char) :=
  let start :=
    match cs with
    | '`' :: rest | '"' :: rest => rest
    | _ => cs
  match start.takeWhile isWord with
  | [] => none
  | name => some name

def afterIfNotExists (cs : List Char) : Option (List Char) := do
  let rest ← afterPhrase "if" "not" cs
  afterBlanks (← afterKeyword "exists" (← afterBlanks rest))

/-- The name in a clause that starts here. The words for an existing table count as such only if
a name follows them. -/
def clauseName? (cs : List Char) : Option (List Char) := do
  let rest ← afterBlanks (← afterPhrase "create" "table" cs)
  ((afterIfNotExists rest).bind quotedName?) <|> quotedName? rest

def tableNameChars? (text : List Char) : Option (List Char) := search clauseName? text

def tableName? (text : String) : Option TableName :=
  (tableNameChars? text.toList).map fun name => .ofText (String.ofList name)

def opensStatement (line : List Char) : Bool :=
  (search (fun cs => (afterPhrase "create" "table" cs).filter wordEnds) line).isSome

end SchemaModels.Ddl
