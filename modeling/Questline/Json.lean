import Questline.Text.Hex

/-!
JSON values that keep the spelling of their strings and numbers, and the text that they are written as.

`unescape_escape` says that the spelling of a string denotes it. A spelling may also denote nothing, when it
names half of a surrogate pair; such a string can be carried and skipped, but not read.
-/

namespace Questline

/-- Strings, keys and numbers stand as they are spelled, strings without their quotes. -/
inductive Json where
  | null
  | bool (b : Bool)
  | number (spelling : List Char)
  | string (spelling : List Char)
  | array (elements : List Json)
  | object (fields : List (List Char × Json))
  deriving Repr, Inhabited

namespace Json

def shortEscape? (c : Char) : Option Char :=
  match c with
  | '"' => some '"'
  | '\\' => some '\\'
  | '/' => some '/'
  | 'b' => some '\x08'
  | 'f' => some '\x0c'
  | 'n' => some '\n'
  | 'r' => some '\r'
  | 't' => some '\t'
  | _ => none

/-- Quotes, backslashes and control characters are escaped, all else stands for itself. -/
def escapeChar (c : Char) : List Char :=
  if c = '"' then ['\\', '"']
  else if c = '\\' then ['\\', '\\']
  else if c = '\x08' then ['\\', 'b']
  else if c = '\x0c' then ['\\', 'f']
  else if c = '\n' then ['\\', 'n']
  else if c = '\r' then ['\\', 'r']
  else if c = '\t' then ['\\', 't']
  else if c.toNat < 0x20 then ['\\', 'u', '0', '0', Hex.digit (c.toNat / 16), Hex.digit (c.toNat % 16)]
  else [c]

def escape (cs : List Char) : List Char := cs.flatMap escapeChar

def isHighSurrogate (n : Nat) : Bool := 0xD800 ≤ n && n < 0xDC00

def isLowSurrogate (n : Nat) : Bool := 0xDC00 ≤ n && n < 0xE000

def unescape : List Char → Option (List Char)
  | [] => some []
  | '\\' :: 'u' :: a :: b :: c :: d :: rest =>
    match Hex.value? [a, b, c, d] with
    | none => none
    | some n =>
      if isLowSurrogate n then none
      else if isHighSurrogate n then
        match rest with
        | '\\' :: 'u' :: e :: f :: g :: h :: rest =>
          match Hex.value? [e, f, g, h] with
          | none => none
          | some m =>
            if isLowSurrogate m then
              (unescape rest).map (Char.ofNat (0x10000 + (n - 0xD800) * 0x400 + (m - 0xDC00)) :: ·)
            else none
        | _ => none
      else (unescape rest).map (Char.ofNat n :: ·)
  | '\\' :: c :: rest =>
    match shortEscape? c with
    | some c => (unescape rest).map (c :: ·)
    | none => none
  | c :: rest => if c = '\\' then none else (unescape rest).map (c :: ·)

theorem value?_control {n : Nat} (h : n < 0x20) :
    Hex.value? ['0', '0', Hex.digit (n / 16), Hex.digit (n % 16)] = some n := by
  revert n
  decide

theorem unescape_escapeChar_append (c : Char) (rest : List Char) :
    unescape (escapeChar c ++ rest) = (unescape rest).map (c :: ·) := by
  unfold escapeChar
  repeat' split
  any_goals (subst_vars; rfl)
  case isTrue h =>
    have hl : isLowSurrogate c.toNat = false := by simp [isLowSurrogate]; omega
    have hh : isHighSurrogate c.toNat = false := by simp [isHighSurrogate]; omega
    simp only [List.cons_append, List.nil_append, unescape, value?_control h, hl, hh, Char.ofNat_toNat]
    rfl
  case isFalse =>
    rw [List.singleton_append, unescape]
    all_goals grind

theorem unescape_escape (cs : List Char) : unescape (escape cs) = some cs := by
  induction cs with
  | nil => rfl
  | cons c cs ih => rw [escape, List.flatMap_cons, unescape_escapeChar_append, ← escape, ih]; rfl

def ofString (s : String) : Json := .string (escape s.toList)

mutual

def write : Json → List Char
  | .null => ['n', 'u', 'l', 'l']
  | .bool b => if b then ['t', 'r', 'u', 'e'] else ['f', 'a', 'l', 's', 'e']
  | .number spelling => spelling
  | .string spelling => '"' :: spelling ++ ['"']
  | .array elements => '[' :: writeElements elements
  | .object fields => '{' :: writeFields fields

/-- Elements with the bracket that ends them. -/
def writeElements : List Json → List Char
  | [] => [']']
  | [v] => write v ++ [']']
  | v :: rest => write v ++ ',' :: writeElements rest

def writeFields : List (List Char × Json) → List Char
  | [] => ['}']
  | [(key, v)] => '"' :: key ++ '"' :: ':' :: write v ++ ['}']
  | (key, v) :: rest => '"' :: key ++ '"' :: ':' :: write v ++ ',' :: writeFields rest

end

def render (v : Json) : String := String.ofList (write v)

end Json

end Questline
