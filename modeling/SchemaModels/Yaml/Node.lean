import SchemaModels.Yaml.Token

namespace SchemaModels.Yaml

inductive Node where
  | scalar (tag? : Option (List Char)) (style : Style) (text : List Char)
  | sequence (items : List Node)
  | mapping (entries : List (Node × Node))
  | reference (number : Nat)
  | anchored (number : Nat) (node : Node)

namespace Node

def nothing : Node := scalar none .plain []

mutual

/-- The anchored nodes with their numbers, in the order in which they begin. -/
def anchors : Node → List (Nat × Node)
  | scalar .. | reference _ => []
  | sequence items => itemAnchors items
  | mapping entries => entryAnchors entries
  | anchored number node => (number, node) :: anchors node

def itemAnchors : List Node → List (Nat × Node)
  | [] => []
  | item :: items => anchors item ++ itemAnchors items

def entryAnchors : List (Node × Node) → List (Nat × Node)
  | [] => []
  | (key, value) :: entries => anchors key ++ anchors value ++ entryAnchors entries

end

def resolve (table : List (Nat × Node)) : Node → Node
  | reference number =>
    match table.reverse.lookup number with
    | some (anchored _ node) | some node => node
    | none => nothing
  | anchored _ node => node
  | node => node

end Node

/-- What is left of a document while its tree is built. -/
structure Reading where
  tokens : List Token
  handles : List (List Char × List Char)
  /-- The names of anchors with their numbers. A name keeps the number it got last. -/
  names : List (List Char × Nat)

abbrev Reader := StateT Reading Option

namespace Reader

def peek? : Reader (Option Token) := return (← get).tokens.head?

def advance : Reader Unit := modify fun r => { r with tokens := r.tokens.tail }

def expect (t : Token) : Reader Unit := do
  if (← peek?) == some t then advance else failure

/-- Gives a name the number of names known so far. -/
def nameAnchor (name : List Char) : Reader Nat := do
  let number := (← get).names.length
  modify fun r => { r with names := (name, number) :: r.names.filter fun n => n.1 != name }
  return number

def resolveTag (handle suffix : List Char) : Reader (List Char) := do
  if handle.isEmpty then return suffix
  match (← get).handles.lookup handle with
  | some start => return start ++ suffix
  | none => failure

def anchor? : Reader (Option Nat) := do
  match ← peek? with
  | some (.anchor name) => advance; return some (← nameAnchor name)
  | _ => return none

def tag? : Reader (Option (List Char)) := do
  match ← peek? with
  | some (.tag handle suffix) => advance; return some (← resolveTag handle suffix)
  | _ => return none

def properties : Reader (Option Nat × Option (List Char)) := do
  match ← anchor? with
  | some number => return (some number, ← tag?)
  | none =>
    let tag ← tag?
    return (← anchor?, tag)

def anchoring (number? : Option Nat) (node : Node) : Node :=
  match number? with
  | some number => .anchored number node
  | none => node

/-- Whether the next token is one of those after which nothing was written. -/
def nextIn (ends : List Token) : Reader Bool := do
  match ← peek? with
  | some t => return ends.contains t
  | none => return false

mutual

/-- A node. Without `block` it is written in flow style; with `indentless`, entries of a sequence
may stand at the column of the mapping around it. -/
def node : Nat → (block indentless : Bool) → Reader Node
  | 0, _, _ => failure
  | fuel + 1, block, indentless => do
    if let some (.reference name) ← peek? then
      advance
      match (← get).names.lookup name with
      | some number => return .reference number
      | none => failure
    let (number?, tag?) ← properties
    match ← peek? with
    | some .entry =>
      if indentless then return anchoring number? (.sequence (← looseEntries fuel))
      else nothingFor number? tag?
    | some (.scalar style text) =>
      advance
      return anchoring number? (.scalar tag? style text)
    | some .flowSequence =>
      advance
      return anchoring number? (.sequence (← flowItems fuel true))
    | some .flowMapping =>
      advance
      return anchoring number? (.mapping (← flowEntries fuel true))
    | some .blockSequence =>
      if !block then nothingFor number? tag?
      else
        advance
        return anchoring number? (.sequence (← blockItems fuel))
    | some .blockMapping =>
      if !block then nothingFor number? tag?
      else
        advance
        return anchoring number? (.mapping (← blockEntries fuel))
    | _ => nothingFor number? tag?

/-- Only a node with an anchor or a tag may be left out where a node is due. -/
def nothingFor (number? : Option Nat) (tag? : Option (List Char)) : Reader Node :=
  if number?.isNone && tag?.isNone then failure
  else return anchoring number? (.scalar tag? .plain [])

def nodeUnless : Nat → List Token → (block indentless : Bool) → Reader Node
  | 0, _, _, _ => failure
  | fuel + 1, ends, block, indentless => do
    if ← nextIn ends then return .nothing else node fuel block indentless

def blockItems : Nat → Reader (List Node)
  | 0 => failure
  | fuel + 1 => do
    match ← peek? with
    | some .entry =>
      advance
      let item ← nodeUnless fuel [.entry, .blockEnd] true false
      return item :: (← blockItems fuel)
    | some .blockEnd => advance; return []
    | _ => failure

def looseEntries : Nat → Reader (List Node)
  | 0 => failure
  | fuel + 1 => do
    match ← peek? with
    | some .entry =>
      advance
      let item ← nodeUnless fuel [.entry, .key, .value, .blockEnd] true false
      return item :: (← looseEntries fuel)
    | _ => return []

def blockEntries : Nat → Reader (List (Node × Node))
  | 0 => failure
  | fuel + 1 => do
    match ← peek? with
    | some .key =>
      advance
      let key ← nodeUnless fuel [.key, .value, .blockEnd] true true
      let value ← blockValue fuel
      return (key, value) :: (← blockEntries fuel)
    | some .blockEnd => advance; return []
    | _ => failure

def blockValue : Nat → Reader Node
  | 0 => failure
  | fuel + 1 => do
    match ← peek? with
    | some .value =>
      advance
      nodeUnless fuel [.key, .value, .blockEnd] true true
    | _ => return .nothing

/-- The items of a flow sequence. An item with a key is a mapping with one entry. -/
def flowItems : Nat → Bool → Reader (List Node)
  | 0, _ => failure
  | fuel + 1, first => do
    if (← peek?) == some .flowSequenceEnd then
      advance
      return []
    if !first then expect .comma
    match ← peek? with
    | some .flowSequenceEnd => advance; return []
    | some .key =>
      advance
      let entry ← flowPair fuel
      return .mapping [entry] :: (← flowItems fuel false)
    | _ =>
      let item ← node fuel false false
      return item :: (← flowItems fuel false)

/-- The entry of a mapping without braces. Where its key is left out, the next token goes with
it. -/
def flowPair : Nat → Reader (Node × Node)
  | 0 => failure
  | fuel + 1 => do
    let key ←
      if ← nextIn [.value, .comma, .flowSequenceEnd] then do advance; pure Node.nothing
      else node fuel false false
    match ← peek? with
    | some .value =>
      advance
      return (key, ← nodeUnless fuel [.comma, .flowSequenceEnd] false false)
    | _ => return (key, .nothing)

def flowEntries : Nat → Bool → Reader (List (Node × Node))
  | 0, _ => failure
  | fuel + 1, first => do
    if (← peek?) == some .flowMappingEnd then
      advance
      return []
    if !first then expect .comma
    match ← peek? with
    | some .flowMappingEnd => advance; return []
    | some .key =>
      advance
      let key ← nodeUnless fuel [.value, .comma, .flowMappingEnd] false false
      let value ← flowValue fuel
      return (key, value) :: (← flowEntries fuel false)
    | _ =>
      let key ← node fuel false false
      return (key, .nothing) :: (← flowEntries fuel false)

def flowValue : Nat → Reader Node
  | 0 => failure
  | fuel + 1 => do
    match ← peek? with
    | some .value =>
      advance
      nodeUnless fuel [.comma, .flowMappingEnd] false false
    | _ => return .nothing

end

def defaultHandles : List (List Char × List Char) :=
  [(['!'], ['!']), (['!', '!'], "tag:yaml.org,2002:".toList)]

def directives : Nat → Bool → List (List Char × List Char) → Reader Unit
  | 0, _, _ => failure
  | fuel + 1, versioned, handles => do
    match ← peek? with
    | some (.version major minor) =>
      if versioned || major != 1 || (minor != 1 && minor != 2) then failure
      advance
      directives fuel true handles
    | some (.tagHandle handle start) =>
      if (handles.lookup handle).isSome then failure
      advance
      directives fuel versioned ((handle, start) :: handles)
    | _ => modify fun r => { r with handles := handles ++ defaultHandles }

def endsDocument : Token → Bool
  | .version .. | .tagHandle .. | .documentStart | .documentEnd => true
  | _ => false

/-- The root of a document. With a mark for its start it may be left out. -/
def root (fuel : Nat) : Reader Node := do
  match ← peek? with
  | some (.version ..) | some (.tagHandle ..) | some .documentStart =>
    directives fuel false []
    expect .documentStart
    match ← peek? with
    | none => return .nothing
    | some t => if endsDocument t then return .nothing else node fuel true false
  | _ =>
    directives fuel false []
    node fuel true false

end Reader

/-- The tree of a text with one document at most; nothing for a text without any. -/
def Node.ofText? (text : List Char) : Option Node := do
  let tokens ← tokens? text
  if tokens.isEmpty then return .nothing
  let (node, left) ← (Reader.root (4 * tokens.length + 4)).run ⟨tokens, [], []⟩
  if left.tokens.all (· == .documentEnd) then return node else none

end SchemaModels.Yaml
