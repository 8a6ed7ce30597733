import Questline.Toml.DateTime
import Questline.Toml.Number
import Questline.Toml.Quoted
import Questline.Toml.Section

/-!
Keys and values of TOML.
-/

namespace Questline.Toml

def isBareChar (c : Char) : Bool := c.isAlphanum || c == '_' || c == '-'

def readKeyPart (cs : List Char) : Option (String × List Char) :=
  match cs with
  | [] => none
  | c :: _ =>
    if isBareChar c then some (String.ofList (cs.takeWhile isBareChar), cs.dropWhile isBareChar)
    else (readQuotedLine cs).map fun (s, rest) => (String.ofList s, rest)

def readKeyParts : Nat → List Char → Option (List String × List Char)
  | 0, _ => none
  | fuel + 1, cs =>
    match readKeyPart (skipSpace cs) with
    | none => none
    | some (part, rest) =>
      match skipSpace rest with
      | '.' :: rest => (readKeyParts fuel rest).map fun (parts, rest) => (part :: parts, rest)
      | rest => some ([part], rest)

def maxKeyParts : Nat := 79

/-- A key as the path to its table and its last part. -/
def readKey (cs : List Char) : Option ((List String × String) × List Char) :=
  match readKeyParts maxKeyParts cs with
  | none => none
  | some (parts, rest) => parts.getLast?.map fun last => ((parts.dropLast, last), rest)

/-- A value that holds no other. A date or time is tried before a number, which its first digits would be. -/
def readScalar (cs : List Char) : Option (Value × List Char) :=
  match cs with
  | [] => none
  | c :: _ =>
    if c = '"' ∨ c = '\'' then (readQuoted cs).map fun (s, rest) => (.string (String.ofList s), rest)
    else
      match cs with
      | 't' :: 'r' :: 'u' :: 'e' :: rest => some (.boolean true, rest)
      | 'f' :: 'a' :: 'l' :: 's' :: 'e' :: rest => some (.boolean false, rest)
      | cs =>
        match readDateTime cs with
        | some r => some r
        | none => readNumber cs

/-- The elements of an array and its closing bracket. A comma may follow the last. -/
def readElements (readOne : List Char → Option (Value × List Char)) :
    Nat → List Char → Option (List Value × List Char)
  | 0, _ => none
  | fuel + 1, cs =>
    match skipLines false cs with
    | ']' :: rest => some ([], rest)
    | cs =>
      match readOne cs with
      | none => none
      | some (v, rest) =>
        match skipLines false rest with
        | ']' :: rest => some ([v], rest)
        | ',' :: rest => (readElements readOne fuel rest).map fun (vs, rest) => (v :: vs, rest)
        | _ => none

/-- One assignment or more, up to the brace that ends an inline table. No comma may follow the last. -/
def readPairs (readOne : List Char → Option (Value × List Char)) :
    Nat → Entries → List Char → Option (Entries × List Char)
  | 0, _, _ => none
  | fuel + 1, es, cs =>
    match readKey cs with
    | some ((path, key), '=' :: rest) =>
      match readOne (skipSpace rest) with
      | none => none
      | some (v, rest) =>
        match es.assign path key v with
        | none => none
        | some es =>
          match skipSpace rest with
          | '}' :: rest => some (es, rest)
          | ',' :: rest => readPairs readOne fuel es rest
          | _ => none
    | _ => none

def maxDepth : Nat := 79

/-- A value with at most `depth` arrays and inline tables around one place. -/
def readValue : Nat → List Char → Option (Value × List Char)
  | 0, cs => readScalar cs
  | depth + 1, cs =>
    match cs with
    | '[' :: rest =>
      (readElements (readValue depth) (rest.length + 1) rest).map fun (vs, rest) => (.array vs, rest)
    | '{' :: rest =>
      match skipSpace rest with
      | '}' :: rest => some (.table [], rest)
      | rest =>
        (readPairs (readValue depth) (rest.length + 1) [] rest).map fun (es, rest) =>
          (.table (toValues es), rest)
    | cs => readScalar cs

end Questline.Toml
