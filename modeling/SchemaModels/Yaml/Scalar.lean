import SchemaModels.Yaml.Cursor

namespace SchemaModels.Yaml

inductive Style where
  | plain
  | single
  | double
  | literal
  | folded
  deriving DecidableEq

structure Gap where
  blanks : List Char
  breaks : List Char
  /-- Whether the first break was written as an escape. -/
  escaped : Bool

def Gap.broken (g : Gap) : Bool := g.escaped || !g.breaks.isEmpty

def Gap.text (g : Gap) : List Char :=
  if g.escaped then g.breaks
  else
    match g.breaks with
    | [] => g.blanks
    | ['\n'] => [' ']
    | '\n' :: breaks => breaks
    | breaks => breaks

/-- Reads the blanks and breaks here. After a break a tab may not stand left of column `limit`. -/
def gapAt (limit : Nat) (g : Gap) (m : Mark) : List Char → Option (Gap × Cursor)
  | '\r' :: '\n' :: rest => gapAt limit { g with breaks := g.breaks ++ ['\n'] } (m.down 2) rest
  | c :: rest =>
    if isBreak c then gapAt limit { g with breaks := g.breaks ++ [breakText c] } (m.down 1) rest
    else if isBlank c then
      if g.broken && decide (m.column < limit) && c == '\t' then none
      else
        gapAt limit (if g.broken then g else { g with blanks := g.blanks ++ [c] }) (m.right 1) rest
    else some (g, ⟨c :: rest, m⟩)
  | [] => some (g, ⟨[], m⟩)

def readGap (limit : Nat) (escaped : Bool) (c : Cursor) : Option (Gap × Cursor) :=
  gapAt limit ⟨[], [], escaped⟩ c.mark c.rest

def isFlowBracket (c : Char) : Bool := c == '[' || c == ']' || c == '{' || c == '}'

/-- The part of a plain scalar up to a gap or to what ends the scalar. -/
def plainPart (inFlow : Bool) : List Char → Option (List Char × List Char)
  | [] => some ([], [])
  | c :: rest =>
    if isBlankOrBreak c then some ([], c :: rest)
    else if inFlow && c == ':' &&
        startsWith (fun d => d == ',' || d == '?' || isFlowBracket d) rest then none
    else if (c == ':' && atGap rest) || (inFlow && (c == ',' || isFlowBracket c)) then
      some ([], c :: rest)
    else (plainPart inFlow rest).map fun (part, rest) => (c :: part, rest)

/-- Text of a scalar, the place after it, and whether that is on a later line. -/
structure Lexed where
  text : List Char
  after : Cursor
  broken : Bool

/-- Reads the parts of a plain scalar after `text`. In a block its lines start at column `limit` or
right of it. -/
def plainFrom (inFlow : Bool) (limit : Nat) : Nat → List Char → Gap → Cursor → Option Lexed
  | 0, _, _, _ => none
  | fuel + 1, text, gap, c =>
    if c.atDocumentBoundary || startsWith (· == '#') c.rest then some ⟨text, c, gap.broken⟩
    else do
      let (part, rest) ← plainPart inFlow c.rest
      let after := c.moveTo rest
      if part.isEmpty then return ⟨text, after, gap.broken⟩
      let text := text ++ gap.text ++ part
      if rest.isEmpty || !atGap rest then return ⟨text, after, false⟩
      let (gap, next) ← readGap limit false after
      if !inFlow && decide (next.mark.column < limit) then return ⟨text, next, gap.broken⟩
      plainFrom inFlow limit fuel text gap next

def readPlain (inFlow : Bool) (limit : Nat) (c : Cursor) : Option Lexed :=
  plainFrom inFlow limit (c.rest.length + 1) [] ⟨[], [], false⟩ c

/-- A part of a quoted scalar: its text, what follows, and whether it ends in an escaped break. -/
structure QuotedPart where
  text : List Char
  rest : List Char
  escapedBreak : Bool

def QuotedPart.cons (c : Char) (p : QuotedPart) : QuotedPart := { p with text := c :: p.text }

def singlePart : List Char → QuotedPart
  | '\'' :: '\'' :: rest => (singlePart rest).cons '\''
  | c :: rest =>
    if c == '\'' || isBlankOrBreak c then ⟨[], c :: rest, false⟩ else (singlePart rest).cons c
  | [] => ⟨[], [], false⟩

def hexValue? (c : Char) : Option Nat :=
  if c.isDigit then some (c.toNat - '0'.toNat)
  else if 'a' ≤ c ∧ c ≤ 'f' then some (c.toNat - 'a'.toNat + 10)
  else if 'A' ≤ c ∧ c ≤ 'F' then some (c.toNat - 'A'.toNat + 10)
  else none

def hexNumber? (digits : List Char) : Option Nat :=
  digits.foldlM (fun n c => (hexValue? c).map (n * 16 + ·)) 0

def letterEscape? : Char → Option Char
  | '0' => some '\x00'
  | 'a' => some '\x07'
  | 'b' => some '\x08'
  | 't' | '\t' => some '\t'
  | 'n' => some '\n'
  | 'v' => some '\x0b'
  | 'f' => some '\x0c'
  | 'r' => some '\r'
  | 'e' => some '\x1b'
  | ' ' => some ' '
  | '"' => some '"'
  | '/' => some '/'
  | '\\' => some '\\'
  | 'N' => some '\u0085'
  | '_' => some '\u00a0'
  | 'L' => some '\u2028'
  | 'P' => some '\u2029'
  | _ => none

/-- How many hexadecimal digits follow the letter of an escape by number. -/
def numberEscape? : Char → Option Nat
  | 'x' => some 2
  | 'u' => some 4
  | 'U' => some 8
  | _ => none

def scalarOf? (n : Nat) : Option Char :=
  if h : n.isValidChar then some (Char.ofNatAux n h) else none

def escape? : List Char → Option (Char × List Char)
  | [] => none
  | c :: rest =>
    match letterEscape? c with
    | some e => some (e, rest)
    | none => do
      let n ← numberEscape? c
      if rest.length < n then none
      let e ← scalarOf? (← hexNumber? (rest.take n))
      return (e, rest.drop n)

def doublePart : Nat → List Char → Option QuotedPart
  | 0, _ => none
  | _, [] => some ⟨[], [], false⟩
  | fuel + 1, c :: rest =>
    if c == '"' || isBlankOrBreak c then some ⟨[], c :: rest, false⟩
    else if c == '\\' then
      if startsWith isBreak rest then some ⟨[], rest, true⟩
      else do
        let (e, rest) ← escape? rest
        return (← doublePart fuel rest).cons e
    else (doublePart fuel rest).map (·.cons c)

/-- Reads a quoted scalar after its opening quote and the text so far. -/
def quotedFrom (quote : Char) : Nat → List Char → Cursor → Option Lexed
  | 0, _, _ => none
  | fuel + 1, text, c =>
    if c.atDocumentBoundary || c.rest.isEmpty then none
    else do
      let part ←
        if quote == '\'' then some (singlePart c.rest) else doublePart (c.rest.length + 1) c.rest
      let text := text ++ part.text
      let after := c.moveTo part.rest
      if !part.escapedBreak && startsWith (· == quote) part.rest then
        return ⟨text, after.skip 1, false⟩
      let after := if part.escapedBreak then after.skipBreak else after
      let (gap, next) ← readGap 0 part.escapedBreak after
      quotedFrom quote fuel (text ++ gap.text) next

def readQuoted (quote : Char) (c : Cursor) : Option Lexed :=
  quotedFrom quote (c.rest.length + 1) [] (c.skip 1)

inductive Chomp where
  | strip
  | clip
  | keep
  deriving DecidableEq

structure BlockHeader where
  chomp : Chomp
  /-- The indentation as it is written, zero if it is left to the lines. -/
  indent : Nat
  rest : List Char

def chomp? : List Char → Option (Chomp × List Char)
  | '+' :: rest => some (.keep, rest)
  | '-' :: rest => some (.strip, rest)
  | _ => none

def indentDigit? : List Char → Option (Nat × List Char)
  | c :: rest =>
    if c.isDigit then if c == '0' then none else some (c.toNat - '0'.toNat, rest)
    else some (0, c :: rest)
  | [] => some (0, [])

def blockHeader? (cs : List Char) : Option BlockHeader :=
  match chomp? cs with
  | some (chomp, rest) => do
    let (indent, rest) ← indentDigit? rest
    return ⟨chomp, indent, rest⟩
  | none => do
    let (indent, rest) ← indentDigit? cs
    if indent = 0 then return ⟨.clip, 0, rest⟩
    match chomp? rest with
    | some (chomp, rest) => return ⟨chomp, indent, rest⟩
    | none => return ⟨.clip, indent, rest⟩

/-- Reads indentation and empty lines up to column `limit`, or without limit if that is zero. Gives
the breaks and the widest indentation. -/
def indentation (limit widest : Nat) (breaks : List Char) (m : Mark) :
    List Char → Option (List Char × Nat × Cursor)
  | [] => some (breaks, max widest m.column, ⟨[], m⟩)
  | '\r' :: '\n' :: rest =>
    indentation limit (max widest m.column) (breaks ++ ['\n']) (m.down 2) rest
  | c :: rest =>
    let inside := limit == 0 || decide (m.column < limit)
    if c == ' ' && inside then indentation limit widest breaks (m.right 1) rest
    else if c == '\t' && inside then none
    else if isBreak c then
      indentation limit (max widest m.column) (breaks ++ [breakText c]) (m.down 1) rest
    else some (breaks, max widest m.column, ⟨c :: rest, m⟩)

structure BlockText where
  text : List Char
  /-- The break after the last line. -/
  lastBreak : List Char
  /-- The breaks of empty lines after it. -/
  emptyLines : List Char
  /-- Whether the last line starts with a blank. -/
  blankStart : Bool

def BlockText.addLine (fold : Bool) (b : BlockText) (line : List Char) : List Char :=
  let blankStart := startsWith isBlank line
  let joint :=
    if fold && b.lastBreak == ['\n'] && !b.blankStart && !blankStart then
      if b.emptyLines.isEmpty then [' '] else []
    else b.lastBreak
  b.text ++ joint ++ b.emptyLines ++ line

def blockLinesFrom (fold : Bool) (indent : Nat) : Nat → BlockText → Cursor →
    Option (BlockText × Cursor)
  | 0, _, _ => none
  | fuel + 1, b, c =>
    if c.mark.column != indent || c.rest.isEmpty then some (b, c)
    else do
      let line := c.rest.takeWhile fun ch => !isBreak ch
      let ending := c.skipLine
      let lastBreak := (ending.rest.take 1).map breakText
      let next := ending.skipBreak
      let (emptyLines, _, next) ← indentation indent 0 [] next.mark next.rest
      blockLinesFrom fold indent fuel
        ⟨b.addLine fold line, lastBreak, emptyLines, startsWith isBlank line⟩ next

/-- Reads a block scalar. Its lines are indented further than `parent`, the column of the
collection around it plus one. -/
def readBlock (fold : Bool) (parent : Nat) (c : Cursor) : Option Lexed := do
  let header ← blockHeader? (c.rest.drop 1)
  let c := (c.moveTo header.rest).skipWhile isBlank
  let c := if startsWith (· == '#') c.rest then c.skipLine else c
  if !c.rest.isEmpty && !startsWith isBreak c.rest then none
  let c := c.skipBreak
  let limit := if header.indent = 0 then 0 else parent - 1 + header.indent
  let (emptyLines, widest, c) ← indentation limit 0 [] c.mark c.rest
  let indent := if limit = 0 then max widest (max parent 1) else limit
  let (b, after) ← blockLinesFrom fold indent (c.rest.length + 1) ⟨[], [], emptyLines, false⟩ c
  let ending :=
    match header.chomp with
    | .strip => []
    | .clip => b.lastBreak
    | .keep => b.lastBreak ++ b.emptyLines
  return ⟨b.text ++ ending, after, true⟩

end SchemaModels.Yaml
