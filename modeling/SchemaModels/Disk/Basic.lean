import SchemaModels.Disk.Cause
import SchemaModels.Disk.Path
import SchemaModels.Text.Utf8

namespace SchemaModels

open Text (Bytes)

inductive Disk.Node where
  | dir
  | file (bytes : Bytes)
  deriving DecidableEq, Repr

/-- The names from a place up to the root. -/
abbrev Location := List String

/-- A tree of directories and files, and where relative paths start in it. Symbolic links,
permissions and the room that files take are no part of it. -/
structure Disk where
  entries : List (Location × Disk.Node)
  /-- Where relative paths start. -/
  work : Location
  /-- How many temporary files were made. -/
  tempCount : Nat

namespace Disk

def directoriesTo : Location → List (Location × Node)
  | [] => []
  | name :: dir => (name :: dir, .dir) :: directoriesTo dir

def startAt (work : Location) : Disk := ⟨directoriesTo work, work, 0⟩

def get? (d : Disk) (loc : Location) : Option Node :=
  if loc.isEmpty then some .dir else d.entries.lookup loc

def erase (d : Disk) (loc : Location) : Disk :=
  { d with entries := d.entries.filter fun e => e.1 != loc }

def set (d : Disk) (loc : Location) (node : Node) : Disk :=
  { d.erase loc with entries := (loc, node) :: (d.erase loc).entries }

theorem lookup_filter_ne {α β : Type} [BEq α] [LawfulBEq α] (xs : List (α × β)) {a b : α}
    (h : b ≠ a) : (xs.filter fun e => e.1 != a).lookup b = xs.lookup b := by
  induction xs with
  | nil => rfl
  | cons e xs ih =>
    obtain ⟨k, v⟩ := e
    by_cases ha : k = a
    · subst ha
      have hb : (b == k) = false := by simpa using h
      simp [List.lookup_cons, hb, ih]
    · simp [List.filter_cons_of_pos, List.lookup_cons, ha, ih]

theorem lookup_filter_self {α β : Type} [BEq α] [LawfulBEq α] (xs : List (α × β)) (a : α) :
    (xs.filter fun e => e.1 != a).lookup a = none := by
  rw [List.lookup_eq_none_iff]
  intro e he
  have := (List.mem_filter.1 he).2
  simp only [bne_iff_ne, ne_eq] at this ⊢
  exact fun h => this h.symm

theorem get?_erase_self (d : Disk) {loc : Location} (h : loc ≠ []) :
    (d.erase loc).get? loc = none := by
  simp [get?, erase, h, lookup_filter_self]

theorem get?_erase_of_ne (d : Disk) {loc other : Location} (h : other ≠ loc) :
    (d.erase loc).get? other = d.get? other := by
  simp [get?, erase, lookup_filter_ne d.entries h]

theorem get?_set_self (d : Disk) {loc : Location} (node : Node) (h : loc ≠ []) :
    (d.set loc node).get? loc = some node := by
  simp [get?, set, h]

theorem get?_set_of_ne (d : Disk) {loc other : Location} (node : Node) (h : other ≠ loc) :
    (d.set loc node).get? other = d.get? other := by
  have hb : (other == loc) = false := by simpa using h
  rw [← get?_erase_of_ne d h]
  simp [get?, set, List.lookup_cons, hb]

def prune (d : Disk) (loc : Location) : Disk :=
  { d with entries := d.entries.filter fun e => !(loc.isSuffixOf e.1) }

def children (d : Disk) (loc : Location) : List String :=
  d.entries.filterMap fun e =>
    match e.1 with
    | [] => none
    | name :: dir => if dir = loc then some name else none

def isDirAt (d : Disk) (loc : Location) : Bool := d.get? loc == some .dir

def nameLimit : Nat := 255

def pathLimit : Nat := 4096

def step (d : Disk) (loc : Location) : Path.Component → Except Cause Location
  | .root => .ok []
  | .here => .ok loc
  | .up => .ok loc.tail
  | .name n =>
    if nameLimit < n.utf8ByteSize then .error .nameTooLong
    else if (d.get? (n :: loc)).isNone then .error .notFound
    else .ok (n :: loc)

def walk (d : Disk) (loc : Location) : List Path.Component → Except Cause Location
  | [] => .ok loc
  | c :: cs =>
    if d.isDirAt loc then do d.walk (← d.step loc c) cs else .error .notADirectory

/-- The steps that a path spells out. All dots count as steps here. -/
def steps (p : Path) : List Path.Component :=
  (p.pieces.filter (!·.isEmpty)).map Path.componentOf

def endsInSlash (p : Path) : Bool := p.text.toList.getLast? == some '/'

/-- Faults of the text of a path, which are found before it is followed. -/
def checkText (p : Path) : Except Cause Unit :=
  if p.text.toList.contains '\x00' then .error .zeroInName
  else if p.text.isEmpty then .error .notFound
  else if pathLimit ≤ p.text.utf8ByteSize then .error .nameTooLong
  else .ok ()

def origin (d : Disk) (p : Path) : Location := if p.isAbsolute then [] else d.work

/-- The place that a path names. With a slash at its end it has to be a directory. -/
def resolve (d : Disk) (p : Path) : Except Cause Location := do
  checkText p
  let loc ← d.walk (d.origin p) (steps p)
  if endsInSlash p && !d.isDirAt loc then .error .notADirectory else .ok loc

def resolveDir (d : Disk) (p : Path) : Except Cause Location := do
  let loc ← d.resolve p
  if d.isDirAt loc then .ok loc else .error .notADirectory

def node? (d : Disk) (p : Path) : Option Node :=
  match d.resolve p with
  | .ok loc => d.get? loc
  | .error _ => none

def isDir (d : Disk) (p : Path) : Bool := d.node? p == some .dir

def isFile (d : Disk) (p : Path) : Bool :=
  match d.node? p with
  | some (.file _) => true
  | _ => false

def read (d : Disk) (p : Path) : Except Cause Bytes := do
  match d.get? (← d.resolve p) with
  | some (.file bytes) => .ok bytes
  | some .dir => .error .isADirectory
  | none => .error .notFound

def readText (d : Disk) (p : Path) : Except Cause String := do
  match Text.decode? (← d.read p) with
  | some cs => .ok (String.ofList cs)
  | none => .error .notText

/-- The directory that a path's last step is taken from, and that step. -/
def lastStep (d : Disk) (p : Path) : Except Cause (Location × Path.Component) := do
  checkText p
  let loc ← d.walk (d.origin p) (steps p).dropLast
  if d.isDirAt loc then .ok (loc, (steps p).getLast?.getD .root) else .error .notADirectory

def makeDir (d : Disk) (p : Path) : Except Cause Disk := do
  match ← d.lastStep p with
  | (loc, .name n) =>
    if nameLimit < n.utf8ByteSize then .error .nameTooLong
    else if (d.get? (n :: loc)).isSome then .error .alreadyExists
    else .ok (d.set (n :: loc) .dir)
  | _ => .error .alreadyExists

/-- Makes the first of some directories, each in the next, and those after it as far as they are
missing. Directories made before a failure stay. -/
def makeDirs (d : Disk) : List Path → Disk × Except Cause Unit
  | [] => (d, .ok ())
  | p :: above =>
    match d.makeDir p with
    | .ok made => (made, .ok ())
    | .error .notFound =>
      match d.makeDirs above with
      | (d, .error cause) => (d, .error cause)
      | (d, .ok ()) =>
        match d.makeDir p with
        | .ok made => (made, .ok ())
        | .error cause => (d, if d.isDir p then .ok () else .error cause)
    | .error cause => (d, if d.isDir p then .ok () else .error cause)

def makeDirAll (d : Disk) (p : Path) : Disk × Except Cause Unit := d.makeDirs p.ancestors

def eraseFile (d : Disk) (loc : Location) : Disk :=
  match d.get? loc with
  | some (.file _) => d.erase loc
  | _ => d

def unlink (d : Disk) (p : Path) : Disk :=
  match d.resolve p with
  | .ok loc => d.eraseFile loc
  | .error _ => d

/-- Moves a file of a directory to a path, over a file there. -/
def rename (d : Disk) (dir : Path) (name : String) (target : Path) : Except Cause Disk := do
  let sourceDir ← d.resolveDir dir
  let (targetDir, targetStep) ← d.lastStep target
  match targetStep with
  | .name t =>
    match d.get? (name :: sourceDir) with
    | none => .error .notFound
    | some node =>
      if nameLimit < t.utf8ByteSize then .error .nameTooLong
      else if endsInSlash target then .error .notADirectory
      else if d.isDirAt (t :: targetDir) then .error .isADirectory
      else .ok ((d.erase (name :: sourceDir)).set (t :: targetDir) node)
  | _ => .error .busy

def write (d : Disk) (p : Path) (bytes : Bytes) : Except Cause Disk := do
  match ← d.lastStep p with
  | (loc, .name n) =>
    if nameLimit < n.utf8ByteSize then .error .nameTooLong
    else if d.isDirAt (n :: loc) || endsInSlash p then .error .isADirectory
    else .ok (d.set (n :: loc) (.file bytes))
  | _ => .error .isADirectory

def remove (d : Disk) (p : Path) : Disk :=
  match d.resolve p with
  | .ok loc => d.prune loc
  | .error _ => d

def pathOf (loc : Location) : Path := ⟨"/" ++ "/".intercalate loc.reverse⟩

/-- What is below the directory where the work is done, by the names that lead there. -/
def belowWork (d : Disk) : List (List String × Node) :=
  d.entries.filterMap fun (loc, node) =>
    if d.work.isSuffixOf loc ∧ loc ≠ d.work then
      some ((loc.take (loc.length - d.work.length)).reverse, node)
    else none

end Disk

end SchemaModels
