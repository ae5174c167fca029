import SchemaModels.Report.Summary
import SchemaModels.Run
import SchemaModels.SettingsFile

namespace SchemaModels.CommandLine

inductive Valued where
  | config
  | migrations
  | pattern
  | output
  | package
  | skip
  | only
  | report
  deriving DecidableEq, Repr

structure Options where
  config? : Option Path := none
  migrations? : Option Path := none
  pattern? : Option String := none
  output? : Option Path := none
  package? : Option String := none
  skip : List String := []
  only : List String := []
  nullablePointers : Bool := false
  report? : Option Path := none
  dryRun : Bool := false
  deriving DecidableEq, Repr

inductive Request where
  | run (options : Options)
  | version
  | help
  | misuse
  deriving DecidableEq, Repr

def Valued.ofName? : String → Option Valued
  | "config" => some config
  | "migrations" => some migrations
  | "pattern" => some pattern
  | "output" => some output
  | "package" => some package
  | "skip" => some skip
  | "only" => some only
  | "report" => some report
  | _ => none

/-- A value for an option that may stand once. -/
def once {α : Type} (old : Option α) (value : α) : Option (Option α) :=
  if old.isSome then none else some (some value)

def oncePath (old : Option Path) (value : String) : Option (Option Path) :=
  if value.isEmpty then none else once old ⟨value⟩

def Options.set (o : Options) (v : Valued) (value : String) : Option Options :=
  match v with
  | .config => (oncePath o.config? value).map fun x => { o with config? := x }
  | .migrations => (oncePath o.migrations? value).map fun x => { o with migrations? := x }
  | .pattern => (once o.pattern? value).map fun x => { o with pattern? := x }
  | .output => (oncePath o.output? value).map fun x => { o with output? := x }
  | .package => (once o.package? value).map fun x => { o with package? := x }
  | .skip => some { o with skip := o.skip ++ [value] }
  | .only => some { o with only := o.only ++ [value] }
  | .report => (oncePath o.report? value).map fun x => { o with report? := x }

def Options.switch? (o : Options) : String → Option Options
  | "nullable-pointers" =>
    if o.nullablePointers then none else some { o with nullablePointers := true }
  | "dry-run" => if o.dryRun then none else some { o with dryRun := true }
  | _ => none

/-- An argument that starts with two hyphens: its name, and its value after an equals sign. -/
structure LongArgument where
  name : String
  value? : Option String

def LongArgument.ofChars (cs : List Char) : LongArgument where
  name := String.ofList (cs.takeWhile (· != '='))
  value? :=
    match cs.dropWhile (· != '=') with
    | [] => none
    | _ :: value => some (String.ofList value)

/-- Whether an argument cannot be the value of the option before it. -/
def looksLikeOption (arg : String) : Bool :=
  match arg.toList with
  | '-' :: _ :: _ => true
  | _ => false

def shortRequest (letter : Char) : Request :=
  if letter == 'V' then .version else if letter == 'h' then .help else .misuse

def longRequest? : String → Option Request
  | "version" => some .version
  | "help" => some .help
  | _ => none

def parseFrom (o : Options) : List String → Request
  | [] => .run o
  | arg :: rest =>
    match arg.toList with
    | ['-', '-'] => if rest.isEmpty then .run o else .misuse
    | '-' :: '-' :: cs =>
      let long := LongArgument.ofChars cs
      match Valued.ofName? long.name, long.value? with
      | some v, some value =>
        match o.set v value with
        | some o => parseFrom o rest
        | none => .misuse
      | some v, none =>
        match rest with
        | [] => .misuse
        | value :: rest =>
          if looksLikeOption value then .misuse
          else
            match o.set v value with
            | some o => parseFrom o rest
            | none => .misuse
      | none, some _ => .misuse
      | none, none =>
        match longRequest? long.name with
        | some request => request
        | none =>
          match o.switch? long.name with
          | some o => parseFrom o rest
          | none => .misuse
    | '-' :: letter :: _ => shortRequest letter
    | _ => .misuse

def parse (args : List String) : Request := parseFrom {} args

/-- The settings of a file with those of the options over them. Lists of tables add up. -/
def Options.override (o : Options) (s : Settings) : Settings where
  migrations := o.migrations?.getD s.migrations
  pattern := o.pattern?.getD s.pattern
  output := o.output?.getD s.output
  package? := o.package? <|> s.package?
  skip := s.skip ++ o.skip
  only := s.only ++ o.only
  nullablePointers := s.nullablePointers || o.nullablePointers
  report? := o.report? <|> s.report?

structure Reply where
  code : Nat
  out : String
  err : String
  deriving DecidableEq, Repr

/-- A cause on lines of its own, numbered if there is more than one. -/
def causeText (number? : Option Nat) (message : String) : List Char :=
  let (start, indent) :=
    match number? with
    | some n =>
      let digits := Nat.toDigits 10 n
      (List.replicate (5 - digits.length) ' ' ++ digits ++ [':', ' '], 7)
    | none => (List.replicate 4 ' ', 4)
  let margin := '\n' :: List.replicate indent ' '
  start ++ margin.intercalate (Text.splitOn '\n' message.toList)

def errorText (context : String) (failure : Failure) : String :=
  let causes :=
    match failure.source? with
    | none => [causeText none failure.message]
    | some source => [causeText (some 0) failure.message, causeText (some 1) source]
  "Error: " ++ context ++ "\n\nCaused by:\n" ++ String.ofList (['\n'].intercalate causes) ++ "\n"

def settings (d : Disk) (o : Options) : Except (String × Failure) Settings := do
  match o.config? with
  | none => return o.override {}
  | some path =>
    let s ← (SettingsFile.load d path).mapError fun f => ("loading config " ++ path.text, f)
    return o.override s

def execute (d : Disk) (o : Options) : Disk × Reply :=
  match settings d o with
  | .error (context, failure) => (d, ⟨1, "", errorText context failure⟩)
  | .ok s =>
    match run d s o.dryRun with
    | (d, .error failure) => (d, ⟨1, "", errorText "generating models" failure⟩)
    | (d, .ok outcome) => (d, ⟨0, Summary.text outcome.tables, ""⟩)

def versionText : String := "modelgen 0.1.0\n"

def usageText : String := "usage: modelgen [OPTIONS]\n"

def answer (d : Disk) (args : List String) : Disk × Reply :=
  match parse args with
  | .run o => execute d o
  | .version => (d, ⟨0, versionText, ""⟩)
  | .help => (d, ⟨0, usageText, ""⟩)
  | .misuse => (d, ⟨2, "", usageText⟩)

end SchemaModels.CommandLine
