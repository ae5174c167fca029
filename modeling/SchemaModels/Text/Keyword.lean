import SchemaModels.Text.CharClass

namespace SchemaModels.Text

/-- Keywords are in lower case. A letter folds to one of theirs singly, so that the long s stands
for s and the Kelvin sign for k. -/
def folds (letter c : Char) : Bool :=
  c.toLower == letter || (letter == 's' && c == '\u017f') || (letter == 'k' && c == '\u212a')

def afterLetters : List Char → List Char → Option (List Char)
  | [], cs => some cs
  | k :: ks, c :: cs => if folds k c then afterLetters ks cs else none
  | _ :: _, [] => none

def afterKeyword (keyword : String) (cs : List Char) : Option (List Char) :=
  afterLetters keyword.toList cs

def afterBlanks : List Char → Option (List Char)
  | [] => none
  | c :: cs => if isBlank c then some (cs.dropWhile isBlank) else none

def afterPhrase (first second : String) (cs : List Char) : Option (List Char) := do
  afterKeyword second (← afterBlanks (← afterKeyword first cs))

def wordEnds : List Char → Bool
  | [] => true
  | c :: _ => !isWord c

/-- The first result of `f` on the text from some position on. -/
def search {α : Type} (f : List Char → Option α) : List Char → Option α
  | [] => f []
  | c :: cs => f (c :: cs) <|> search f cs

/-- As `search`, at the positions where no word reaches across; `inWord` tells whether the
character in front is one of a word. -/
def searchBoundary {α : Type} (f : List Char → Option α) (inWord : Bool) :
    List Char → Option α
  | [] => none
  | c :: cs =>
    (if inWord != isWord c then f (c :: cs) else none) <|> searchBoundary f (isWord c) cs

end SchemaModels.Text
