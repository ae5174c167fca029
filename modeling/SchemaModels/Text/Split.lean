import SchemaModels.Text.CharClass

namespace SchemaModels.Text

/-- The pieces between the characters that `p` holds of, one more than there are of those. -/
def splitWhere (p : Char → Bool) : List Char → List (List Char)
  | [] => [[]]
  | c :: cs =>
    if p c then [] :: splitWhere p cs
    else
      match splitWhere p cs with
      | [] => [[c]]
      | piece :: pieces => (c :: piece) :: pieces

theorem splitWhere_ne_nil (p : Char → Bool) (cs : List Char) : splitWhere p cs ≠ [] := by
  cases cs with
  | nil => simp [splitWhere]
  | cons c cs =>
    unfold splitWhere
    split
    · simp
    · split <;> simp

def splitOn (sep : Char) : List Char → List (List Char) := splitWhere (· == sep)

def runs (p : Char → Bool) (cs : List Char) : List (List Char) :=
  (splitWhere (!p ·) cs).filter (!·.isEmpty)

/-- The first maximal run and the text after it. Without a run both are empty. -/
def nextRun (p : Char → Bool) (cs : List Char) : List Char × List Char :=
  let start := cs.dropWhile (!p ·)
  (start.takeWhile p, start.dropWhile p)

def dropEndWhile (p : Char → Bool) (cs : List Char) : List Char :=
  (cs.reverse.dropWhile p).reverse

def trimWhere (p : Char → Bool) (cs : List Char) : List Char :=
  dropEndWhile p (cs.dropWhile p)

def trim (cs : List Char) : List Char := trimWhere isBlank cs

def trimEnd (cs : List Char) : List Char := dropEndWhile isBlank cs

/-- Drops the carriage return in front of a line feed. -/
def dropReturn (line : List Char) : List Char :=
  if line.getLast? = some '\r' then line.dropLast else line

/-- The lines that line feeds end, and the text after the last of them unless it is empty. -/
def lines (cs : List Char) : List (List Char) :=
  let pieces := splitOn '\n' cs
  pieces.dropLast.map dropReturn ++ (pieces.getLast?.toList.filter (!·.isEmpty))

def takeThrough {α : Type} (p : α → Bool) : List α → List α
  | [] => []
  | x :: xs => if p x then [x] else x :: takeThrough p xs

end SchemaModels.Text
