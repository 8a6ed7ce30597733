import Questline.Instant
import Questline.Text.Blank
import Questline.Text.Numeral

/-!
Instants as text. They are written in UTC, `2024-01-02T03:04:05.678Z`, with as few groups of three fraction
digits as say it all. Reading is lenient: blanks before numbers and marks, short numbers, and any offset.
-/

namespace Questline.Instant

open Text Numeral

/-- Years of more or fewer than four digits, and years before 0, carry a sign. -/
def writeYear (year : Int) : List Char :=
  if 0 ≤ year ∧ year ≤ 9999 then padded 4 year.toNat
  else (if year < 0 then '-' else '+') :: padded 4 year.natAbs

def writeFraction (nano : Nat) : List Char :=
  if nano = 0 then []
  else if nano % 1000000 = 0 then '.' :: padded 3 (nano / 1000000)
  else if nano % 1000 = 0 then '.' :: padded 6 (nano / 1000)
  else '.' :: padded 9 nano

def toChars (t : Instant) : List Char :=
  writeYear t.date.year ++ '-' :: padded 2 t.date.month ++ '-' :: padded 2 t.date.day ++
    'T' :: padded 2 t.hour ++ ':' :: padded 2 t.minute ++ ':' :: padded 2 t.second ++
    writeFraction t.nano ++ ['Z']

def toText (t : Instant) : String := String.ofList t.toChars

def readMark (mark : Char) (cs : List Char) : Option (List Char) :=
  match skipBlanks cs with
  | c :: rest => if c = mark then some rest else none
  | [] => none

def readDigits (width : Nat) (cs : List Char) : Option (Nat × List Char) :=
  let ds := (cs.take width).takeWhile Char.isDigit
  if ds.isEmpty then none else some (value ds, cs.drop ds.length)

def readNumber (width : Nat) (cs : List Char) : Option (Nat × List Char) :=
  readDigits width (skipBlanks cs)

/-- Without a sign a year has at most four digits. -/
def readYear (cs : List Char) : Option (Int × List Char) :=
  match skipBlanks cs with
  | '-' :: rest => (readDigits rest.length rest).map fun (n, rest) => (-n, rest)
  | '+' :: rest => (readDigits rest.length rest).map fun (n, rest) => (n, rest)
  | rest => (readDigits 4 rest).map fun (n, rest) => (n, rest)

/-- Nanoseconds after a point; digits beyond the ninth are dropped. -/
def readFraction (cs : List Char) : Option (Nat × List Char) :=
  match cs with
  | '.' :: rest =>
    let ds := rest.takeWhile Char.isDigit
    if ds.isEmpty then none
    else some (value ((ds ++ List.replicate 9 '0').take 9), rest.dropWhile Char.isDigit)
  | _ => some (0, cs)

def isColonOrBlank (c : Char) : Bool := c == ':' || isBlank c

/-- Hours and minutes after the sign of an offset, in minutes. -/
def readOffsetSize (cs : List Char) : Option (Nat × List Char) :=
  match cs with
  | h1 :: h2 :: rest =>
    match rest.dropWhile isColonOrBlank with
    | m1 :: m2 :: rest =>
      let hours := value [h1, h2]
      let minutes := value [m1, m2]
      if [h1, h2, m1, m2].all Char.isDigit && decide (hours < 24) && decide (minutes < 60) then
        some (hours * 60 + minutes, rest)
      else none
    | _ => none
  | _ => none

/-- An offset in minutes: a sign with a size, `Z` or `UTC`. -/
def readOffset (cs : List Char) : Option (Int × List Char) :=
  if (cs.take 3).map Char.toUpper = ['U', 'T', 'C'] then some (0, cs.drop 3)
  else
    match cs with
    | 'Z' :: rest => some (0, rest)
    | 'z' :: rest => some (0, rest)
    | '+' :: rest => (readOffsetSize rest).map fun (n, rest) => ((n : Int), rest)
    | '-' :: rest => (readOffsetSize rest).map fun (n, rest) => (-(n : Int), rest)
    | '\u2212' :: rest => (readOffsetSize rest).map fun (n, rest) => (-(n : Int), rest)
    | _ => none

def readSeparator (cs : List Char) : Option (List Char) :=
  match cs with
  | c :: rest => if c = 'T' ∨ c = 't' ∨ c = ' ' then some rest else none
  | [] => none

def ofChars? (cs : List Char) : Option Instant := do
  let (year, cs) ← readYear cs
  let cs ← readMark '-' cs
  let (month, cs) ← readNumber 2 cs
  let cs ← readMark '-' cs
  let (day, cs) ← readNumber 2 cs
  let cs ← readSeparator cs
  let (hour, cs) ← readNumber 2 cs
  let cs ← readMark ':' cs
  let (minute, cs) ← readNumber 2 cs
  let cs ← readMark ':' cs
  let (second, cs) ← readNumber 2 cs
  let (nano, cs) ← readFraction cs
  let (offset, cs) ← readOffset (skipBlanks cs)
  if cs.all isBlank then
    let date ← Date.of? year month day
    let shown ← Instant.of? date hour minute second nano
    shown.back? offset
  else none

def ofText? (s : String) : Option Instant := ofChars? s.toList

end Questline.Instant
