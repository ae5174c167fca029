import SchemaModels.Text.CaseTable
import SchemaModels.Text.CharClass

namespace SchemaModels.Text

def CaseRun.holds (r : CaseRun) (n : Nat) : Bool :=
  decide (r.first ≤ n) && decide (n ≤ r.last) && (n - r.first) % r.stride == 0

/-- The code points that the table gives for one above the ASCII range, itself if none. -/
def mapCode (expansions : List (Nat × List Nat)) (runs : List CaseRun) (n : Nat) : List Nat :=
  match expansions.lookup n with
  | some codes => codes
  | none =>
    match runs.find? (·.holds n) with
    | some r => [(n + r.shift).toNat]
    | none => [n]

def upper (c : Char) : List Char :=
  if isAscii c then [c.toUpper] else (mapCode upperExpansions upperRuns c.toNat).map Char.ofNat

def lower (c : Char) : List Char :=
  if isAscii c then [c.toLower] else (mapCode lowerExpansions lowerRuns c.toNat).map Char.ofNat

def isCased (c : Char) : Bool := inRanges casedRanges c

def isCaseIgnorable (c : Char) : Bool := inRanges caseIgnorableRanges c

/-- Whether the first character that case looks at is a cased one. -/
def meetsCased (cs : List Char) : Bool :=
  match cs.dropWhile isCaseIgnorable with
  | c :: _ => isCased c
  | [] => false

/-- Lower case of the text that follows the characters `before`, which are in reverse order. -/
def lowerAfter (before : List Char) : List Char → List Char
  | [] => []
  | c :: rest =>
    let image :=
      if c = 'Σ' then [if meetsCased before && !meetsCased rest then 'ς' else 'σ'] else lower c
    image ++ lowerAfter (c :: before) rest

def lowerText (cs : List Char) : List Char := lowerAfter [] cs

def foldAscii (s : String) : String := s.map Char.toLower

theorem foldAscii_eq_ofList (s : String) :
    foldAscii s = String.ofList (s.toList.map Char.toLower) := by
  rw [← String.toList_map, String.ofList_toList, foldAscii]

end SchemaModels.Text
