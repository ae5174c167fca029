import SchemaModels.Table
import SchemaModels.Text.Keyword

namespace SchemaModels.Ddl

open Text

/-- A refused line: the name it starts with, empty if none, and why. -/
structure Refusal where
  name : List Char
  reason : LineFailure

/-- The phrases that open a constraint on the whole table. -/
def constraintOpeners : List (List Char → Option (List Char)) :=
  [afterPhrase "primary" "key", afterPhrase "foreign" "key", afterKeyword "unique",
    afterKeyword "key", afterKeyword "index", afterKeyword "constraint", afterKeyword "check",
    afterKeyword "fulltext", afterKeyword "spatial"]

def isConstraint (line : List Char) : Bool :=
  constraintOpeners.any fun opener => (opener line).any wordEnds

/-- The text after the closing parenthesis of a group in front. Groups do not nest. -/
def afterGroup (cs : List Char) : Option (List Char) :=
  match cs with
  | '(' :: rest =>
    match rest.dropWhile (· != ')') with
    | [] => none
    | _ :: after => some after
  | _ => none

/-- Whether the word for a type without sign is the next after a type and its optional group. -/
def unsignedFollows (cs : List Char) : Bool :=
  let start := cs.dropWhile isBlank
  let start := ((afterGroup start).getD start).dropWhile isBlank
  (afterKeyword "unsigned" start).any wordEnds

def isQuote (c : Char) : Bool := c == '\'' || c == '"'

def firstGroup? (line : List Char) : Option (List Char) :=
  match line.dropWhile (· != '(') with
  | [] => none
  | _ :: rest => if rest.contains ')' then some (rest.takeWhile (· != ')')) else none

def enumValue (item : List Char) : List Char := trim (trimWhere isQuote (trim item))

/-- The values in the first group of a line, without their quotes. Empty ones do not count. -/
def enumValues (line : List Char) : List (List Char) :=
  match firstGroup? line with
  | none => []
  | some items => ((splitOn ',' items).map enumValue).filter (!·.isEmpty)

def quoted? (quote : Char) (cs : List Char) : Option (List Char) :=
  match cs with
  | [] => none
  | c :: rest =>
    if c = quote ∧ rest.contains quote then
      some (quote :: rest.takeWhile (· != quote) ++ [quote])
    else none

def bareValue? (cs : List Char) : Option (List Char) :=
  match cs.takeWhile fun c => !isBlank c && c != ',' with
  | [] => none
  | value => some value

def defaultClause? (cs : List Char) : Option (List Char) := do
  let rest ← afterBlanks (← afterKeyword "default" cs)
  quoted? '\'' rest <|> quoted? '"' rest <|> bareValue? rest

def unquoteWith? (quote : Char) (value : List Char) : Option (List Char) :=
  match value with
  | [] => none
  | c :: rest => if c = quote ∧ rest.getLast? = some quote then some rest.dropLast else none

def unquote (value : List Char) : List Char :=
  (unquoteWith? '\'' value <|> unquoteWith? '"' value).getD value

def defaultValue? (line : List Char) : Option (List Char) :=
  (searchBoundary defaultClause? false line).map unquote

def saysNotNull (line : List Char) : Bool :=
  (searchBoundary (fun cs => (afterPhrase "not" "null" cs).filter wordEnds) false line).isSome

def columnText (line : List Char) : List Char := trim (trimWhere (· == ',') line)

/-- The kind of a column whose type is spelled `raw` and whose line goes on with `rest`. -/
def columnKind? (raw rest : List Char) : Option Kind :=
  (Kind.ofRaw? (String.ofList raw)).map fun kind =>
    if kind = .int ∧ unsignedFollows rest then .uint else kind

def readColumn (line : List Char) : Except Refusal Column :=
  let text := columnText line
  let (name, rest) := nextRun isWord text
  if isConstraint text then .error ⟨name, .tableConstraint⟩
  else
    let (raw, rest) := nextRun isWord rest
    if raw.isEmpty then .error ⟨name, .unexpectedFormat⟩
    else
      match columnKind? raw rest with
      | none => .error ⟨name, .unsupportedType (String.ofList raw)⟩
      | some kind =>
        let values := if kind = .enum then enumValues text else []
        if kind = .enum ∧ values.isEmpty then .error ⟨name, .missingEnumValues⟩
        else .ok {
          name := String.ofList name
          camelCase := Name.camelCase (String.ofList name)
          kind
          default? := (defaultValue? text).map String.ofList
          enumValues := values.map String.ofList
          nullable := !saysNotNull text }

end SchemaModels.Ddl
