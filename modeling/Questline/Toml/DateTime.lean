import Questline.Instant
import Questline.Text.Numeral
import Questline.Toml.Value

/-!
Dates and times of TOML. Only their form is checked, since no field of a quest or of the configuration takes one.
-/

namespace Questline.Toml

def readFixed (width : Nat) (cs : List Char) : Option (Nat × List Char) :=
  let ds := cs.take width
  if ds.length = width ∧ ds.all Char.isDigit then some (Numeral.value ds, cs.drop width) else none

def readChar (c : Char) : List Char → Option (List Char)
  | [] => none
  | d :: rest => if d = c then some rest else none

def skipDate (cs : List Char) : Option (List Char) := do
  let (year, cs) ← readFixed 4 cs
  let cs ← readChar '-' cs
  let (month, cs) ← readFixed 2 cs
  let cs ← readChar '-' cs
  let (day, cs) ← readFixed 2 cs
  if IsDate year month day then some cs else none

def skipHourMinute (cs : List Char) : Option (List Char) := do
  let (hour, cs) ← readFixed 2 cs
  let cs ← readChar ':' cs
  let (minute, cs) ← readFixed 2 cs
  if hour < 24 ∧ minute < 60 then some cs else none

/-- Digits behind a point; a point without digits stays unread. -/
def skipSecondFraction (cs : List Char) : List Char :=
  match cs with
  | '.' :: d :: rest => if d.isDigit then rest.dropWhile Char.isDigit else cs
  | _ => cs

def skipTime (cs : List Char) : Option (List Char) := do
  let cs ← skipHourMinute cs
  let cs ← readChar ':' cs
  let (second, cs) ← readFixed 2 cs
  if second ≤ 60 then some (skipSecondFraction cs) else none

def skipOffset (cs : List Char) : Option (List Char) :=
  match cs with
  | 'Z' :: rest => some rest
  | 'z' :: rest => some rest
  | '+' :: rest => skipHourMinute rest
  | '-' :: rest => skipHourMinute rest
  | _ => some cs

/-- A time of day behind a date, with an offset or not. -/
def skipDayTime (cs : List Char) : Option (List Char) :=
  match cs with
  | c :: rest => if c = 'T' ∨ c = 't' ∨ c = ' ' then (skipTime rest).bind skipOffset else none
  | [] => none

def readDateTime (cs : List Char) : Option (Value × List Char) :=
  match skipDate cs with
  | some rest => some (.dateTime, (skipDayTime rest).getD rest)
  | none => (skipTime cs).map fun rest => (.dateTime, rest)

end Questline.Toml
