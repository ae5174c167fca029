import SchemaModels.Disk.Basic
import SchemaModels.Glob.Pattern

namespace SchemaModels.Glob

/-- A path that was reached, with what is still to be matched: the name of the path itself first.
Nothing is left for a path that is known to match. -/
structure Reached where
  path : Path
  patterns : List Pattern

structure Query where
  scope : Path
  patterns : List Pattern
  /-- Whether the pattern ends in a slash. -/
  wantsDir : Bool

def isRecursive (p : Pattern) : Bool := p.contains .anyDirectories

/-- The name that a pattern without wildcards spells out. -/
def literal? (p : Pattern) : Option String := (p.mapM Token.char?).map String.ofList

/-- A name below a path. Nothing is put in front of a name where the work is done. -/
def below (path : Path) (name : String) : Path :=
  if path.components = [.here] then ⟨name⟩ else path.join name

def childNames (d : Disk) (path : Path) : List String :=
  match d.resolve path with
  | .ok loc => (d.children loc).mergeSort fun a b => decide (a ≤ b)
  | .error _ => []

def isDotName (s : String) : Bool := s == "." || s == ".."

/-- What is reached from a directory by the first of the patterns. The special names for it and the
directory above count only for a pattern that starts with a dot. -/
def reach (d : Disk) (path : Path) : List Pattern → List Reached
  | [] => []
  | p :: rest =>
    let onward (next : Path) : List Reached :=
      if rest.isEmpty then [⟨next, []⟩] else reach d next rest
    match literal? p with
    | some s =>
      let next := below path s
      if if isDotName s then d.isDir path else (d.node? next).isSome then onward next else []
    | none =>
      if d.isDir path then
        let special :=
          if p.head? = some (.char '.') then
            ["..", "."].filter fun s => accepts p s.toList
          else []
        special.flatMap (fun s => onward (path.join s)) ++
          (childNames d path).map fun name => ⟨below path name, p :: rest⟩
      else []

/-- The matching paths below and at what was reached. Each step down a directory or along the
patterns takes one of `fuel`. -/
def matching (d : Disk) (wantsDir : Bool) : Nat → Reached → List Path
  | 0, _ => []
  | fuel + 1, ⟨path, patterns⟩ =>
    let visit (items : List Reached) : List Path := items.flatMap (matching d wantsDir fuel)
    let found : List Path := if wantsDir && !d.isDir path then [] else [path]
    let byName (patterns : List Pattern) : List Path :=
      match patterns, path.fileName? with
      | p :: rest, some name =>
        if !accepts p name.toList then []
        else if rest.isEmpty then found
        else visit (reach d path rest)
      | _, _ => []
    match patterns with
    | [] => found
    | p :: rest =>
      if !isRecursive p then byName (p :: rest)
      else
        let after := rest.dropWhile isRecursive
        if d.isDir path then
          let deeper := visit (reach d path (p :: after))
          if after.isEmpty then path :: deeper else byName after ++ deeper
        else byName after

def Query.paths (q : Query) (d : Disk) : List Path :=
  let fuel := (q.patterns.length + 1) * (d.entries.length + 2)
  (reach d q.scope q.patterns).flatMap (matching d q.wantsDir fuel)

/-- Reads a pattern of several components. It starts at the root or where the work is done. -/
def Query.ofChars (cs : List Char) : Except PatternError Query := do
  let _ ← parse cs
  let absolute := cs.head? == some '/'
  let rest := if absolute then cs.tail else cs
  let pieces := Text.splitOn '/' rest
  let pieces := if pieces.getLast? = some [] then pieces.dropLast else pieces
  let patterns ← pieces.mapM parse
  return {
    scope := if absolute then ⟨"/"⟩ else ⟨"."⟩
    patterns := if rest.isEmpty then patterns ++ [[]] else patterns
    wantsDir := cs.getLast? == some '/' }

end SchemaModels.Glob
