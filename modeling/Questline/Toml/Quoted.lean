import Questline.Toml.Value
import Questline.Text.Hex

/-!
Quoted strings of TOML: basic ones with escapes and literal ones without, each on one line or over several.
-/

namespace Questline.Toml

def shortEscape? (c : Char) : Option Char :=
  match c with
  | 'b' => some '\x08'
  | 't' => some '\t'
  | 'n' => some '\n'
  | 'f' => some '\x0c'
  | 'r' => some '\r'
  | '"' => some '"'
  | '\\' => some '\\'
  | _ => none

def namedChar? (ds : List Char) : Option Char := (Hex.value? ds).bind Hex.char?

def withChar (c : Option Char) (r : Option (List Char × List Char)) : Option (List Char × List Char) :=
  match c, r with
  | some c, some (cs, rest) => some (c :: cs, rest)
  | _, _ => none

/-- A basic string after its opening quote. -/
def readBasic : List Char → Option (List Char × List Char)
  | [] => none
  | '"' :: rest => some ([], rest)
  | '\\' :: 'u' :: a :: b :: c :: d :: rest => withChar (namedChar? [a, b, c, d]) (readBasic rest)
  | '\\' :: 'U' :: a :: b :: c :: d :: e :: f :: g :: h :: rest =>
    withChar (namedChar? [a, b, c, d, e, f, g, h]) (readBasic rest)
  | '\\' :: c :: rest => withChar (shortEscape? c) (readBasic rest)
  | c :: rest => if c ≠ '\\' ∧ isTextChar c then withChar (some c) (readBasic rest) else none

def readLiteral : List Char → Option (List Char × List Char)
  | [] => none
  | '\'' :: rest => some ([], rest)
  | c :: rest => if isTextChar c then withChar (some c) (readLiteral rest) else none

/-- Up to two quotes that stand right behind the closing three belong to the string. -/
def readClosing (quote : Char) : List Char → List Char × List Char
  | a :: b :: rest =>
    if a = quote then if b = quote then ([a, b], rest) else ([a], b :: rest) else ([], a :: b :: rest)
  | [a] => if a = quote then ([a], []) else ([], [a])
  | [] => ([], [])

/-- Only white space is left on the line. -/
def endsLine (cs : List Char) : Bool := (readNewline (skipSpace cs)).isSome

/-- A basic string over several lines, after its opening quotes. While `joining`, white space and line ends are
skipped: a backslash at the end of a line began it. -/
def readBasicLines (joining : Bool) : List Char → Option (List Char × List Char)
  | [] => none
  | '"' :: '"' :: '"' :: rest => some (readClosing '"' rest)
  | '\\' :: 'u' :: a :: b :: c :: d :: rest =>
    withChar (namedChar? [a, b, c, d]) (readBasicLines false rest)
  | '\\' :: 'U' :: a :: b :: c :: d :: e :: f :: g :: h :: rest =>
    withChar (namedChar? [a, b, c, d, e, f, g, h]) (readBasicLines false rest)
  | '\\' :: c :: rest =>
    if endsLine (c :: rest) then readBasicLines true (c :: rest)
    else withChar (shortEscape? c) (readBasicLines false rest)
  | '\r' :: '\n' :: rest =>
    if joining then readBasicLines true rest else withChar (some '\n') (readBasicLines false rest)
  | c :: rest =>
    if joining ∧ (isSpace c ∨ c = '\n') then readBasicLines true rest
    else if c ≠ '\\' ∧ (c = '\n' ∨ isTextChar c) then withChar (some c) (readBasicLines false rest)
    else none

/-- A literal string over several lines, after its opening quotes. -/
def readLiteralLines : List Char → Option (List Char × List Char)
  | [] => none
  | '\'' :: '\'' :: '\'' :: rest => some (readClosing '\'' rest)
  | '\r' :: '\n' :: rest => withChar (some '\n') (readLiteralLines rest)
  | c :: rest => if c = '\n' ∨ isTextChar c then withChar (some c) (readLiteralLines rest) else none

/-- A line end right behind the opening quotes is no part of the string. -/
def skipFirstNewline (cs : List Char) : List Char := (readNewline cs).getD cs

def readQuotedLine : List Char → Option (List Char × List Char)
  | '"' :: rest => readBasic rest
  | '\'' :: rest => readLiteral rest
  | _ => none

def readQuoted : List Char → Option (List Char × List Char)
  | '"' :: '"' :: '"' :: rest => readBasicLines false (skipFirstNewline rest)
  | '\'' :: '\'' :: '\'' :: rest => readLiteralLines (skipFirstNewline rest)
  | cs => readQuotedLine cs

end Questline.Toml
