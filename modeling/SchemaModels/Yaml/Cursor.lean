namespace SchemaModels.Yaml

def isBreak (c : Char) : Bool :=
  c == '\n' || c == '\r' || c == '\u0085' || c == '\u2028' || c == '\u2029'

def isBlank (c : Char) : Bool := c == ' ' || c == '\t'

/-- A character of a name: an ASCII letter or digit, a hyphen or an underscore. -/
def isNameChar (c : Char) : Bool := c.isAlphanum || c == '-' || c == '_'

def isBlankOrBreak (c : Char) : Bool := isBlank c || isBreak c

/-- Whether a text is at its end or goes on with a blank or a break. -/
def atGap : List Char → Bool
  | [] => true
  | c :: _ => isBlankOrBreak c

def startsWith (p : Char → Bool) : List Char → Bool
  | [] => false
  | c :: _ => p c

/-- Characters that a text may hold: no controls but tab and the breaks. -/
def isAllowed (c : Char) : Bool :=
  let n := c.toNat
  c == '\t' || c == '\n' || c == '\r' || (decide (0x20 ≤ n) && decide (n ≤ 0x7e)) ||
    c == '\u0085' || (decide (0xa0 ≤ n) && decide (n ≤ 0xd7ff)) ||
    (decide (0xe000 ≤ n) && decide (n ≤ 0xfffd)) || decide (0x10000 ≤ n)

structure Mark where
  index : Nat
  line : Nat
  column : Nat

def Mark.right (m : Mark) (n : Nat) : Mark := ⟨m.index + n, m.line, m.column + n⟩

def Mark.down (m : Mark) (n : Nat) : Mark := ⟨m.index + n, m.line + 1, 0⟩

structure Cursor where
  rest : List Char
  mark : Mark

namespace Cursor

def start (text : List Char) : Cursor := ⟨text, ⟨0, 0, 0⟩⟩

def skip (c : Cursor) (n : Nat) : Cursor := ⟨c.rest.drop n, c.mark.right n⟩

def skipWhile (c : Cursor) (p : Char → Bool) : Cursor := c.skip (c.rest.takeWhile p).length

def moveTo (c : Cursor) (rest : List Char) : Cursor :=
  ⟨rest, c.mark.right (c.rest.length - rest.length)⟩

def skipBreak (c : Cursor) : Cursor :=
  match c.rest with
  | '\r' :: '\n' :: rest => ⟨rest, c.mark.down 2⟩
  | b :: rest => if isBreak b then ⟨rest, c.mark.down 1⟩ else c
  | [] => c

def skipLine (c : Cursor) : Cursor := c.skipWhile fun ch => !isBreak ch

/-- Whether a line starts here with the three characters that start or end a document. -/
def atDocumentLine (c : Cursor) (ch : Char) : Bool :=
  c.mark.column == 0 && [ch, ch, ch].isPrefixOf c.rest && atGap (c.rest.drop 3)

def atDocumentBoundary (c : Cursor) : Bool := c.atDocumentLine '-' || c.atDocumentLine '.'

end Cursor

/-- A break as it counts in the text of a scalar. -/
def breakText (c : Char) : Char := if c == '\r' || c == '\u0085' then '\n' else c

end SchemaModels.Yaml
