namespace SchemaModels

inductive Json where
  | bool (b : Bool)
  | num (n : Nat)
  | str (s : String)
  | arr (items : List Json)
  | obj (members : List (String × Json))

namespace Json

def hexDigit (n : Nat) : Char := (Nat.toDigits 16 n).headD '0'

/-- Quotes, backslashes and control characters are escaped, the common ones by a letter. -/
def escape (c : Char) : List Char :=
  match c with
  | '"' => ['\\', '"']
  | '\\' => ['\\', '\\']
  | '\x08' => ['\\', 'b']
  | '\x0c' => ['\\', 'f']
  | '\n' => ['\\', 'n']
  | '\r' => ['\\', 'r']
  | '\t' => ['\\', 't']
  | c =>
    if c.toNat < 0x20 then
      ['\\', 'u', '0', '0', hexDigit (c.toNat / 16), hexDigit (c.toNat % 16)]
    else [c]

def quote (s : String) : List Char := '"' :: s.toList.flatMap escape ++ ['"']

def newline (depth : Nat) : List Char := '\n' :: List.replicate (2 * depth) ' '

/-- Items between brackets, each on a line of its own. Brackets without items stay together. -/
def enclose (opening closing : Char) (depth : Nat) (items : List (List Char)) : List Char :=
  match items with
  | [] => [opening, closing]
  | _ =>
    opening :: newline (depth + 1) ++ (',' :: newline (depth + 1)).intercalate items ++
      newline depth ++ [closing]

mutual

def chars (depth : Nat) : Json → List Char
  | bool b => (if b then "true" else "false").toList
  | num n => Nat.toDigits 10 n
  | str s => quote s
  | arr items => enclose '[' ']' depth (itemChars (depth + 1) items)
  | obj members => enclose '\x7b' '\x7d' depth (memberChars (depth + 1) members)

def itemChars (depth : Nat) : List Json → List (List Char)
  | [] => []
  | item :: items => chars depth item :: itemChars depth items

def memberChars (depth : Nat) : List (String × Json) → List (List Char)
  | [] => []
  | (key, value) :: members =>
    (quote key ++ [':', ' '] ++ chars depth value) :: memberChars depth members

end

def pretty (j : Json) : String := String.ofList (chars 0 j)

end Json

end SchemaModels
