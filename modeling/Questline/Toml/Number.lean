import Questline.Toml.Value
import Questline.Binary64.Decimal
import Questline.Text.Hex
import Questline.Text.Numeral

/-!
Numbers of TOML: integers of 64 bits in base ten, sixteen, eight and two, and binary64 floats.
-/

namespace Questline.Toml

def readRun (isDigit : Char → Bool) : List Char → List Char × List Char
  | [] => ([], [])
  | '_' :: c :: rest =>
    if isDigit c then
      let (ds, rest) := readRun isDigit rest
      (c :: ds, rest)
    else ([], '_' :: c :: rest)
  | c :: rest =>
    if isDigit c then
      let (ds, rest) := readRun isDigit rest
      (c :: ds, rest)
    else ([], c :: rest)

def readDigits (isDigit : Char → Bool) : List Char → Option (List Char × List Char)
  | [] => none
  | c :: rest => if isDigit c then some (readRun isDigit (c :: rest)) else none

def readWhole : List Char → Option (List Char × List Char)
  | '0' :: rest => some (['0'], rest)
  | cs => readDigits Char.isDigit cs

def readSign : List Char → Option Char × List Char
  | '+' :: rest => (some '+', rest)
  | '-' :: rest => (some '-', rest)
  | cs => (none, cs)

def integer? (i : Int) : Option Value :=
  if Int64.minValue.toInt ≤ i ∧ i ≤ Int64.maxValue.toInt then some (.integer i) else none

/-- An integer in the base of `isDigit`, after its two-character mark. -/
def readBased (base : Nat) (isDigit : Char → Bool) (cs : List Char) : Option (Value × List Char) := do
  let (ds, rest) ← readDigits isDigit cs
  let n := ds.foldl (fun n d => n * base + (Hex.digitValue? d).getD 0) 0
  let v ← integer? n
  return (v, rest)

/-- A point and digits; nothing there is no fraction. -/
def readFraction : List Char → Option (List Char × List Char)
  | '.' :: rest => readDigits Char.isDigit rest
  | cs => some ([], cs)

/-- The power of ten behind `e`; nothing there is none. -/
def readExponent : List Char → Option (Option Int × List Char)
  | [] => some (none, [])
  | c :: rest =>
    if c = 'e' ∨ c = 'E' then
      let (sign, rest) := readSign rest
      (readDigits Char.isDigit rest).map fun (ds, rest) =>
        (some (if sign = some '-' then -(Numeral.value ds : Int) else Numeral.value ds), rest)
    else some (none, c :: rest)

/-- A literal too large for the format is refused when positive; a negative one is read as infinite. -/
def float? (x : Binary64) : Option Value := if x = .infinite false then none else some (.float x)

def readDecimal (negative : Bool) (cs : List Char) : Option (Value × List Char) := do
  let (whole, cs) ← readWhole cs
  let (fraction, cs) ← readFraction cs
  let (exponent, cs) ← readExponent cs
  let v ←
    if fraction.isEmpty && exponent.isNone then
      integer? (if negative then -(Numeral.value whole : Int) else Numeral.value whole)
    else
      float? (Decimal.toBinary64 negative
        ⟨Numeral.value (whole ++ fraction), exponent.getD 0 - fraction.length⟩)
  return (v, cs)

def readNumber (cs : List Char) : Option (Value × List Char) :=
  match cs with
  | '0' :: 'x' :: rest => readBased 16 Hex.isDigit rest
  | '0' :: 'o' :: rest => readBased 8 (fun c => '0' ≤ c && c ≤ '7') rest
  | '0' :: 'b' :: rest => readBased 2 (fun c => c == '0' || c == '1') rest
  | _ =>
    let (sign, rest) := readSign cs
    match rest with
    | 'i' :: 'n' :: 'f' :: rest => some (.float (.infinite (sign = some '-')), rest)
    | 'n' :: 'a' :: 'n' :: rest => some (.float .nan, rest)
    | rest => readDecimal (sign = some '-') rest

end Questline.Toml
