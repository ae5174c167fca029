import SchemaModels.Text.Utf8
import SchemaModels.Yaml.Scalar

namespace SchemaModels.Yaml

inductive Token where
  | version (major minor : Nat)
  | tagHandle (handle start : List Char)
  | documentStart
  | documentEnd
  | blockSequence
  | blockMapping
  | blockEnd
  | flowSequence
  | flowSequenceEnd
  | flowMapping
  | flowMappingEnd
  | entry
  | comma
  | key
  | value
  | reference (name : List Char)
  | anchor (name : List Char)
  | tag (handle suffix : List Char)
  | scalar (style : Style) (text : List Char)
  deriving DecidableEq

/-- A place where a key without a mark may have begun. -/
structure KeyStart where
  /-- How many tokens stand before it. -/
  position : Nat
  mark : Mark
  /-- Whether nothing but a key may stand there. -/
  required : Bool

structure Lexer where
  cursor : Cursor
  /-- The tokens so far, the last first. -/
  tokens : List Token
  /-- The columns of the open block collections plus one, the innermost first. -/
  indents : List Nat
  keyAllowed : Bool
  /-- The possible start of a key in each open flow collection, the innermost first, and in the
  block around them. -/
  keys : List (Option KeyStart)

/-- The limit in characters from the start of a key without a mark to its colon. -/
def keyLimit : Nat := 1024

namespace Lexer

def start (text : List Char) : Lexer := ⟨.start text, [], [], true, [none]⟩

def inFlow (s : Lexer) : Bool := decide (1 < s.keys.length)

/-- The column of the innermost block collection plus one, zero outside of all. -/
def indent (s : Lexer) : Nat := s.indents.headD 0

def rest (s : Lexer) : List Char := s.cursor.rest

def column (s : Lexer) : Nat := s.cursor.mark.column

def emit (s : Lexer) (t : Token) : Lexer := { s with tokens := t :: s.tokens }

def emitAt (s : Lexer) (position : Nat) (t : Token) : Lexer :=
  let later := s.tokens.length - position
  { s with tokens := s.tokens.take later ++ t :: s.tokens.drop later }

def skip (s : Lexer) (n : Nat) : Lexer := { s with cursor := s.cursor.skip n }

def allowKey (s : Lexer) (b : Bool) : Lexer := { s with keyAllowed := b }

def dropKey (s : Lexer) : Option Lexer :=
  match s.keys with
  | some k :: keys => if k.required then none else some { s with keys := none :: keys }
  | _ => some s

def noteKey (s : Lexer) : Option Lexer :=
  if !s.keyAllowed then some s
  else do
    let required := !s.inFlow && s.indent == s.column + 1
    let s ← s.dropKey
    return { s with keys := some ⟨s.tokens.length, s.cursor.mark, required⟩ :: s.keys.tail }

/-- Forgets starts of keys that are on an earlier line or too far away. -/
def expireKeys (s : Lexer) : Option Lexer := do
  let keys ← s.keys.mapM fun k =>
    match k with
    | none => some none
    | some k =>
      if k.mark.line < s.cursor.mark.line ∨ k.mark.index + keyLimit < s.cursor.mark.index then
        if k.required then none else some none
      else some (some k)
  return { s with keys }

def indentTo (s : Lexer) (column position : Nat) (t : Token) : Lexer :=
  if !s.inFlow && decide (s.indent < column + 1) then
    { s.emitAt position t with indents := (column + 1) :: s.indents }
  else s

def closeIndents (limit : Nat) (tokens : List Token) : List Nat → List Token × List Nat
  | [] => (tokens, [])
  | indent :: outer =>
    if limit < indent then closeIndents limit (.blockEnd :: tokens) outer
    else (tokens, indent :: outer)

/-- Closes the block collections that start right of a column, given plus one. -/
def dedentTo (s : Lexer) (limit : Nat) : Lexer :=
  if s.inFlow then s
  else
    let (tokens, indents) := closeIndents limit s.tokens s.indents
    { s with tokens, indents }

/-- Goes past blanks, comments and breaks. A tab counts as a blank only where no key may start. -/
def skipGap : Nat → Lexer → Lexer
  | 0, s => s
  | fuel + 1, s =>
    let tabs := s.inFlow || !s.keyAllowed
    let c := s.cursor
    let c := if c.mark.index == 0 && startsWith (· == '\ufeff') c.rest then c.skip 1 else c
    let c := c.skipWhile fun ch => ch == ' ' || (tabs && ch == '\t')
    let c := if startsWith (· == '#') c.rest then c.skipLine else c
    if startsWith isBreak c.rest then
      skipGap fuel { s with cursor := c.skipBreak, keyAllowed := s.keyAllowed || !s.inFlow }
    else { s with cursor := c }

def closeAll (s : Lexer) : Option Lexer := do
  return (← (s.dedentTo 0).dropKey).allowKey false

def versionNumber? (cs : List Char) : Option (Nat × List Char) :=
  let digits := cs.takeWhile Char.isDigit
  if digits.isEmpty || decide (9 < digits.length) then none
  else some (digits.foldl (fun n c => n * 10 + (c.toNat - '0'.toNat)) 0, cs.dropWhile Char.isDigit)

def version? (cs : List Char) : Option (Token × List Char) := do
  let (major, rest) ← versionNumber? cs
  let ('.' :: rest) := rest | none
  let (minor, rest) ← versionNumber? rest
  return (.version major minor, rest)

def handle? : List Char → Option (List Char × List Char)
  | '!' :: rest =>
    let name := rest.takeWhile isNameChar
    match rest.dropWhile isNameChar with
    | '!' :: rest => some ('!' :: name ++ ['!'], rest)
    | rest => some ('!' :: name, rest)
  | _ => none

def isTagChar (verbatim : Bool) (c : Char) : Bool :=
  isNameChar c || ";/?:@&=+$.%!~*'()".toList.contains c ||
    (verbatim && (c == ',' || c == '[' || c == ']'))

def escapedByte? : List Char → Option (UInt8 × List Char)
  | '%' :: a :: b :: rest => do
    return (UInt8.ofNat ((← hexValue? a) * 16 + (← hexValue? b)), rest)
  | _ => none

/-- The bytes of a tag, where a percent sign writes one by number. -/
def tagBytes (verbatim : Bool) : Nat → List Char → Option (Text.Bytes × List Char)
  | 0, _ => none
  | _, [] => some ([], [])
  | fuel + 1, c :: rest =>
    if !isTagChar verbatim c then some ([], c :: rest)
    else if c == '%' then do
      let (b, rest) ← escapedByte? (c :: rest)
      let (bytes, rest) ← tagBytes verbatim fuel rest
      return (b :: bytes, rest)
    else do
      let (bytes, rest) ← tagBytes verbatim fuel rest
      return (Text.encode [c] ++ bytes, rest)

def tagText? (verbatim : Bool) (cs : List Char) : Option (List Char × List Char) := do
  let (bytes, rest) ← tagBytes verbatim (cs.length + 1) cs
  return (← Text.decode? bytes, rest)

/-- The handle that a directive defines and what it stands for. -/
def tagDirective? (cs : List Char) : Option (Token × List Char) := do
  let (handle, rest) ← handle? cs
  if handle != ['!'] && handle.getLast? != some '!' then none
  if !startsWith isBlank rest then none
  let (start, rest) ← tagText? true (rest.dropWhile isBlank)
  if start.isEmpty || !atGap rest then none
  return (.tagHandle handle start, rest)

def directive (s : Lexer) : Option Lexer := do
  let s ← s.closeAll
  let text := s.rest.drop 1
  let name := text.takeWhile isNameChar
  let value := text.dropWhile isNameChar
  if !atGap value then none
  let value := value.dropWhile isBlank
  let (token, rest) ←
    if name = "YAML".toList then version? value
    else if name = "TAG".toList then tagDirective? value
    else none
  let c := (s.cursor.moveTo rest).skipWhile isBlank
  let c := if startsWith (· == '#') c.rest then c.skipLine else c
  if !c.rest.isEmpty && !startsWith isBreak c.rest then none
  return { s with cursor := c.skipBreak }.emit token

def documentBoundary (s : Lexer) (t : Token) : Option Lexer := do
  return ((← s.closeAll).skip 3).emit t

def openFlow (s : Lexer) (t : Token) : Option Lexer := do
  let s ← s.noteKey
  return (({ s with keys := none :: s.keys }.allowKey true).skip 1).emit t

def closeFlow (s : Lexer) (t : Token) : Option Lexer := do
  let s ← s.dropKey
  let keys := if s.inFlow then s.keys.tail else s.keys
  return (({ s with keys }.allowKey false).skip 1).emit t

def comma (s : Lexer) : Option Lexer := do
  return (((← s.dropKey).allowKey true).skip 1).emit .comma

/-- Opens a block collection for a mark in front of an entry, which has to stand where a key
may. -/
def openFor (s : Lexer) (t : Token) : Option Lexer :=
  if s.inFlow then some s
  else if !s.keyAllowed then none
  else some (s.indentTo s.column s.tokens.length t)

def entry (s : Lexer) : Option Lexer := do
  return (((← (← s.openFor .blockSequence).dropKey).allowKey true).skip 1).emit .entry

def key (s : Lexer) : Option Lexer := do
  return (((← (← s.openFor .blockMapping).dropKey).allowKey (!s.inFlow)).skip 1).emit .key

/-- A colon makes a key of what started at the last place for one. -/
def value (s : Lexer) : Option Lexer := do
  match s.keys with
  | some k :: keys =>
    let s := { s with keys := none :: keys }.emitAt k.position .key
    let s := s.indentTo k.mark.column k.position .blockMapping
    return ((s.allowKey false).skip 1).emit .value
  | _ => return (((← s.openFor .blockMapping).allowKey (!s.inFlow)).skip 1).emit .value

def named (s : Lexer) (t : List Char → Token) : Option Lexer := do
  let s ← s.noteKey
  let text := s.rest.drop 1
  let name := text.takeWhile isNameChar
  let rest := text.dropWhile isNameChar
  if name.isEmpty then none
  if !atGap rest && !startsWith (fun c => "?:,]\x7d%@`".toList.contains c) rest then none
  return ({ s with cursor := s.cursor.moveTo rest }.allowKey false).emit (t name)

/-- A tag by handle and suffix. A tag that is written in full has the empty handle, and so has the
single exclamation mark. -/
def tag? (cs : List Char) : Option (Token × List Char) :=
  match cs with
  | '!' :: '<' :: rest => do
    let (suffix, rest) ← tagText? true rest
    if suffix.isEmpty then none
    let ('>' :: rest) := rest | none
    return (.tag [] suffix, rest)
  | _ => do
    let (handle, rest) ← handle? cs
    if 1 < handle.length ∧ handle.getLast? = some '!' then
      let (suffix, rest) ← tagText? false rest
      if suffix.isEmpty then none
      return (.tag handle suffix, rest)
    else
      let (suffix, rest) ← tagText? false rest
      let suffix := handle.tail ++ suffix
      return (if suffix.isEmpty then .tag [] ['!'] else .tag ['!'] suffix, rest)

def tag (s : Lexer) : Option Lexer := do
  let s ← s.noteKey
  let (token, rest) ← tag? s.rest
  if !atGap rest && !(s.inFlow && startsWith (· == ',') rest) then none
  return ({ s with cursor := s.cursor.moveTo rest }.allowKey false).emit token

def block (s : Lexer) (style : Style) : Option Lexer := do
  let s ← s.dropKey
  let lexed ← readBlock (style == .folded) s.indent s.cursor
  return ({ s with cursor := lexed.after }.allowKey true).emit (.scalar style lexed.text)

def quoted (s : Lexer) (quote : Char) (style : Style) : Option Lexer := do
  let s ← s.noteKey
  let lexed ← readQuoted quote s.cursor
  return ({ s with cursor := lexed.after }.allowKey false).emit (.scalar style lexed.text)

def plain (s : Lexer) : Option Lexer := do
  let s ← s.noteKey
  let lexed ← readPlain s.inFlow s.indent s.cursor
  return ({ s with cursor := lexed.after }.allowKey lexed.broken).emit (.scalar .plain lexed.text)

/-- Characters that start no plain scalar, or only in front of what is no gap. -/
def isIndicator (c : Char) : Bool := "-?:,[]\x7b\x7d#&*!|>'\"%@`".toList.contains c

def startsPlain (inFlow : Bool) (c : Char) (rest : List Char) : Bool :=
  (!isIndicator c && !isBlank c) || (c == '-' && !startsWith isBlank rest) ||
    (!inFlow && (c == '?' || c == ':') && !atGap rest)

def token (s : Lexer) (c : Char) (rest : List Char) : Option Lexer :=
  if s.column == 0 && c == '%' then s.directive
  else if s.cursor.atDocumentLine '-' then s.documentBoundary .documentStart
  else if s.cursor.atDocumentLine '.' then s.documentBoundary .documentEnd
  else if c == '[' then s.openFlow .flowSequence
  else if c == '{' then s.openFlow .flowMapping
  else if c == ']' then s.closeFlow .flowSequenceEnd
  else if c == '}' then s.closeFlow .flowMappingEnd
  else if c == ',' then s.comma
  else if c == '-' && atGap rest then s.entry
  else if c == '?' && (s.inFlow || atGap rest) then s.key
  else if c == ':' && (s.inFlow || atGap rest) then s.value
  else if c == '*' then s.named .reference
  else if c == '&' then s.named .anchor
  else if c == '!' then s.tag
  else if c == '|' && !s.inFlow then s.block .literal
  else if c == '>' && !s.inFlow then s.block .folded
  else if c == '\'' then s.quoted '\'' .single
  else if c == '"' then s.quoted '"' .double
  else if startsPlain s.inFlow c rest then s.plain
  else none

def run : Nat → Lexer → Option (List Token)
  | 0, _ => none
  | fuel + 1, s => do
    let s ← (s.skipGap (s.rest.length + 1)).expireKeys
    let s := s.dedentTo (s.column + 1)
    match s.rest with
    | [] => return (← (s.dedentTo 0).dropKey).tokens.reverse
    | c :: rest => run fuel (← s.token c rest)

end Lexer

/-- The tokens of a text, none if it is no YAML text. -/
def tokens? (text : List Char) : Option (List Token) :=
  if text.all isAllowed then Lexer.run (text.length + 1) (.start text) else none

end SchemaModels.Yaml
