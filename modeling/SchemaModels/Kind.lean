import SchemaModels.Text.Case
import SchemaModels.Text.Split

namespace SchemaModels

inductive Kind where
  | int
  | uint
  | float
  | string
  | enum
  | bool
  | time
  | bytes
  deriving DecidableEq, Repr

namespace Kind

def all : List Kind := [int, uint, float, string, enum, bool, time, bytes]

def name : Kind → String
  | int => "int"
  | uint => "uint"
  | float => "float"
  | string => "string"
  | enum => "enum"
  | bool => "bool"
  | time => "time"
  | bytes => "bytes"

/-- The spellings of each kind, in lower case with one space between words. -/
def synonyms : List (Kind × List String) := [
  (int, ["int", "integer", "tinyint", "smallint", "mediumint", "bigint"]),
  (uint, ["uint", "uint tinyint", "uint smallint", "uint mediumint", "uint int", "uint bigint",
    "int unsigned", "integer unsigned", "tinyint unsigned", "smallint unsigned",
    "mediumint unsigned", "bigint unsigned"]),
  (float, ["float", "double", "decimal", "dec", "numeric", "float unsigned", "double unsigned",
    "decimal unsigned", "dec unsigned", "numeric unsigned"]),
  (string, ["char", "varchar", "text", "tinytext", "mediumtext", "longtext", "set"]),
  (enum, ["enum"]),
  (bool, ["bool", "boolean"]),
  (time, ["date", "datetime", "timestamp", "time", "year"]),
  (bytes, ["blob", "tinyblob", "mediumblob", "longblob", "binary", "varbinary", "json"])]

def spelling (raw : List Char) : List Char :=
  let words := Text.runs (fun c => !Text.isBlank c) raw
  [' '].intercalate (words.map (·.map Char.toLower))

/-- The kind of a raw spelling. Letters count in either ASCII case and any run of blanks between
words as one. -/
def ofRaw? (raw : String) : Option Kind :=
  (synonyms.find? fun entry => entry.2.contains (String.ofList (spelling raw.toList))).map (·.1)

def memberType : Kind → String
  | int => "int"
  | uint => "uint"
  | float => "float64"
  | string | enum => "string"
  | bool => "bool"
  | time => "time.Time"
  | bytes => "[]byte"

end Kind

end SchemaModels
