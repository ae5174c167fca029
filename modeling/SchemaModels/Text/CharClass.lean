import SchemaModels.Text.PropertyTable

namespace SchemaModels.Text

def inRanges (table : List (Nat × Nat)) (c : Char) : Bool :=
  table.any fun r => decide (r.1 ≤ c.toNat) && decide (c.toNat ≤ r.2)

def isAscii (c : Char) : Bool := decide (c.toNat < 0x80)

def isBlank (c : Char) : Bool :=
  c == ' ' || (decide (9 ≤ c.toNat) && decide (c.toNat ≤ 13)) ||
    (!isAscii c && inRanges [(0x85, 0x85), (0xa0, 0xa0), (0x1680, 0x1680), (0x2000, 0x200a),
      (0x2028, 0x2029), (0x202f, 0x202f), (0x205f, 0x205f), (0x3000, 0x3000)] c)

def isAlphabetic (c : Char) : Bool :=
  if isAscii c then c.isAlpha else inRanges alphabeticRanges c

def isAlphanumeric (c : Char) : Bool :=
  if isAscii c then c.isAlphanum
  else inRanges alphabeticRanges c || inRanges numberRanges c

/-- A character of a word: a letter, mark, decimal digit, connector or joiner. -/
def isWord (c : Char) : Bool :=
  if isAscii c then c.isAlphanum || c == '_'
  else inRanges alphabeticRanges c || inRanges joinerRanges c

/-- A character that an identifier may hold after its first. -/
def isIdentifierRest (c : Char) : Bool := isAlphanumeric c || c == '_'

end SchemaModels.Text
