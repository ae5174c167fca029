import SchemaModels.Text.CharClass

namespace SchemaModels.Glob

inductive PatternFault where
  | wildcards
  | recursive
  | range
  deriving DecidableEq, Repr

structure PatternError where
  position : Nat
  fault : PatternFault
  deriving DecidableEq, Repr

def PatternFault.message : PatternFault → String
  | wildcards => "wildcards are either regular `*` or recursive `**`"
  | recursive => "recursive wildcards must form a single path component"
  | range => "invalid range pattern"

def PatternError.message (e : PatternError) : String :=
  "Pattern syntax error near position " ++ toString e.position ++ ": " ++ e.fault.message

structure CharRange where
  first : Char
  last : Char
  deriving DecidableEq, Repr

inductive Token where
  | char (c : Char)
  | anyChar
  | anySequence
  | anyDirectories
  | oneOf (ranges : List CharRange)
  | noneOf (ranges : List CharRange)
  deriving DecidableEq, Repr

abbrev Pattern := List Token

/-- The ranges in a class: two characters with a hyphen between them, or one. -/
def ranges : List Char → List CharRange
  | a :: '-' :: b :: rest => ⟨a, b⟩ :: ranges rest
  | a :: rest => ⟨a, a⟩ :: ranges rest
  | [] => []

/-- A class in front, without its opening bracket. Its first character may be a closing bracket
that does not end it. -/
def classBody? : List Char → Option (List Char × List Char)
  | [] => none
  | c :: cs =>
    match cs.dropWhile (· != ']') with
    | [] => none
    | _ :: rest => some (c :: cs.takeWhile (· != ']'), rest)

def class? : List Char → Option (Token × List Char)
  | '!' :: cs => (classBody? cs).map fun (body, rest) => (.noneOf (ranges body), rest)
  | cs => (classBody? cs).map fun (body, rest) => (.oneOf (ranges body), rest)

/-- The tokens of the rest of a pattern of `length` characters; `starts` tells whether a component
starts here. A double star is a component of its own and takes the slash after it. `fuel` is at
least the number of characters left. -/
def tokens (length : Nat) : Nat → Bool → List Char → Except PatternError Pattern
  | 0, _, _ => .ok []
  | _, _, [] => .ok []
  | fuel + 1, starts, c :: cs =>
    let position := length - (cs.length + 1)
    match c, cs with
    | '*', '*' :: '*' :: _ => .error ⟨position + 2, .wildcards⟩
    | '*', '*' :: rest =>
      if !starts then .error ⟨position - 1, .recursive⟩
      else
        match rest with
        | [] => .ok [.anyDirectories]
        | '/' :: rest => do return .anyDirectories :: (← tokens length fuel true rest)
        | _ => .error ⟨position + 2, .recursive⟩
    | '*', _ => do return .anySequence :: (← tokens length fuel false cs)
    | '?', _ => do return .anyChar :: (← tokens length fuel false cs)
    | '[', _ =>
      match class? cs with
      | none => .error ⟨position, .range⟩
      | some (token, rest) => do return token :: (← tokens length fuel false rest)
    | c, _ => do return .char c :: (← tokens length fuel (c == '/') cs)

def parse (cs : List Char) : Except PatternError Pattern := tokens cs.length cs.length true cs

def Token.char? : Token → Option Char
  | char c => some c
  | _ => none

def Token.accepts (c : Char) : Token → Bool
  | char a => a == c
  | anyChar => true
  | oneOf rs => rs.any fun r => decide (r.first ≤ c) && decide (c ≤ r.last)
  | noneOf rs => !rs.any fun r => decide (r.first ≤ c) && decide (c ≤ r.last)
  | anySequence | anyDirectories => false

/-- Whether `f` holds of some end of a text, the text itself and the empty one included. -/
def someEnd (f : List Char → Bool) : List Char → Bool
  | [] => f []
  | c :: cs => f (c :: cs) || someEnd f cs

def accepts : Pattern → List Char → Bool
  | [], name => name.isEmpty
  | .anySequence :: ts, name | .anyDirectories :: ts, name => someEnd (accepts ts) name
  | t :: ts, name =>
    match name with
    | [] => false
    | c :: cs => t.accepts c && accepts ts cs

def escape (cs : List Char) : List Char :=
  cs.flatMap fun c => if c == '?' || c == '*' || c == '[' || c == ']' then ['[', c, ']'] else [c]

end SchemaModels.Glob
