import Questline.Binary64

/-!
TOML values, and the lexical ground that all readers of TOML share: white space, line ends and comments.

A reader takes the characters still to be read and gives what it read with the characters after it, or nothing
when the text is not of its form.
-/

namespace Questline.Toml

/-- What a TOML document denotes. Which moment a date-time names is not kept. -/
inductive Value where
  | string (s : String)
  | integer (i : Int)
  | float (x : Binary64)
  | boolean (b : Bool)
  | dateTime
  | array (elements : List Value)
  | table (entries : List (String × Value))
  deriving Repr, Inhabited

def isSpace (c : Char) : Bool := c == ' ' || c == '\t'

def skipSpace (cs : List Char) : List Char := cs.dropWhile isSpace

def readNewline : List Char → Option (List Char)
  | '\n' :: rest => some rest
  | '\r' :: '\n' :: rest => some rest
  | _ => none

/-- Characters that may stand in comments and strings: control characters are out, but for tab. -/
def isTextChar (c : Char) : Bool := c == '\t' || (0x20 ≤ c.toNat && c.toNat != 0x7F)

def skipComment : List Char → List Char
  | '#' :: rest => rest.dropWhile isTextChar
  | cs => cs

/-- The rest of a line behind its content: white space, a comment, and the line end. -/
def readLineEnd (cs : List Char) : Option (List Char) :=
  match skipComment (skipSpace cs) with
  | [] => some []
  | rest => readNewline rest

/-- White space, comments and line ends in any order, as they stand between the elements of an array. A line
end inside a comment's characters cannot occur, so one flag tells whether a comment is being skipped. -/
def skipLines (inComment : Bool) : List Char → List Char
  | [] => []
  | '\r' :: '\n' :: rest => skipLines false rest
  | c :: rest =>
    if c = '\n' then skipLines false rest
    else if inComment then
      if isTextChar c then skipLines true rest else c :: rest
    else if isSpace c then skipLines false rest
    else if c = '#' then skipLines true rest
    else c :: rest

end Questline.Toml
