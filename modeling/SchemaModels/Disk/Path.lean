import SchemaModels.Text.Split

namespace SchemaModels

/-- A path keeps its spelling; two spellings may name one place. -/
structure Path where
  text : String
  deriving DecidableEq, Repr

namespace Path

inductive Component where
  | root
  | here
  | up
  | name (text : String)
  deriving DecidableEq, Repr

abbrev Piece := List Char

def isAbsolute (p : Path) : Bool := p.text.toList.head? == some '/'

/-- The text after the root, cut at slashes. -/
def pieces (p : Path) : List Piece :=
  Text.splitOn '/' (if p.isAbsolute then p.text.toList.tail else p.text.toList)

/-- Empty pieces say nothing, and dots do so except in front of a relative path. -/
def saysNothing (inFront : Bool) (piece : Piece) : Bool :=
  piece.isEmpty || (piece == ['.'] && !inFront)

def componentOf (piece : Piece) : Component :=
  if piece = ['.'] then .here else if piece = ['.', '.'] then .up else .name (String.ofList piece)

def componentsFrom (inFront : Bool) : List Piece → List Component
  | [] => []
  | piece :: rest =>
    if saysNothing inFront piece then componentsFrom false rest
    else componentOf piece :: componentsFrom false rest

def components (p : Path) : List Component :=
  if p.isAbsolute then .root :: componentsFrom false p.pieces else componentsFrom true p.pieces

def fileName? (p : Path) : Option String :=
  match p.components.getLast? with
  | some (.name n) => some n
  | _ => none

/-- Drops the pieces that say nothing from the end. The list is in reverse order. -/
def dropSilent (relative : Bool) : List Piece → List Piece
  | [] => []
  | piece :: before =>
    if saysNothing (relative && before.isEmpty) piece then dropSilent relative before
    else piece :: before

def ofPieces (absolute : Bool) (reversed : List Piece) : Path :=
  let text := ['/'].intercalate reversed.reverse
  ⟨String.ofList (if absolute then '/' :: text else text)⟩

/-- The path up to each piece that says something, the longest first. The list of pieces is in
reverse order. -/
def above (absolute : Bool) : List Piece → List Path
  | [] => []
  | piece :: before =>
    let rest := above absolute before
    if saysNothing (!absolute && before.isEmpty) piece then rest
    else ofPieces absolute (piece :: before) :: rest

def ancestors (p : Path) : List Path := above p.isAbsolute p.pieces.reverse

def parent (p : Path) : Path :=
  match p.ancestors with
  | _ :: dir :: _ => dir
  | _ => ⟨if p.isAbsolute then "/" else ""⟩

/-- The directory that a new file beside `p` goes to. Nothing lies beside the root. -/
def directory (p : Path) : Path :=
  if p.ancestors.isEmpty || p.parent.text.isEmpty then ⟨"."⟩ else p.parent

def join (dir : Path) (name : String) : Path :=
  if name.toList.head? = some '/' then ⟨name⟩
  else if dir.text.toList.getLast?.all (· == '/') then ⟨dir.text ++ name⟩
  else ⟨dir.text ++ "/" ++ name⟩

def Component.rank : Component → Nat
  | root => 0
  | here => 1
  | up => 2
  | name _ => 3

def Component.before (a b : Component) : Bool :=
  match a, b with
  | name s, name t => decide (s < t)
  | a, b => decide (a.rank < b.rank)

def componentsLe : List Component → List Component → Bool
  | [], _ => true
  | _ :: _, [] => false
  | a :: as, b :: bs => if a = b then componentsLe as bs else a.before b

/-- The order by components: what lies in a directory stands together. -/
def le (p q : Path) : Bool := componentsLe p.components q.components

end Path

end SchemaModels
