import Questline.Json.Reader
import Questline.Text.Numeral

/-!
Reading domain values off JSON: numbers of a given range, strings, records and variants.

A record is an object with its fields in any order, each at most once and unknown ones ignored, or an array of
all its fields in order. A variant is its name alone, or an object whose one key is its name.
-/

namespace Questline.Json

def string? : Json → Option String
  | .string spelling => (unescape spelling).map String.ofList
  | _ => none

/-- A number spelled without fraction and exponent; `-0` is none. -/
def int? : Json → Option Int
  | .number ('-' :: ds) =>
    if ds.all Char.isDigit && ds != ['0'] then some (-(Numeral.value ds : Int)) else none
  | .number ds => if ds.all Char.isDigit then some (Numeral.value ds) else none
  | _ => none

def intIn? (low high : Int) (v : Json) : Option Int :=
  v.int?.filter fun i => low ≤ i && i ≤ high

def uint8? (v : Json) : Option UInt8 := (v.intIn? 0 255).map fun i => UInt8.ofNat i.toNat

def uint32? (v : Json) : Option UInt32 := (v.intIn? 0 4294967295).map fun i => UInt32.ofNat i.toNat

def int64? (v : Json) : Option Int64 :=
  (v.intIn? Int64.minValue.toInt Int64.maxValue.toInt).map Int64.ofInt

def ofNat (n : Nat) : Json := .number (Numeral.digits n)

def ofInt (i : Int) : Json := .number (Numeral.ofInt i)

/-- Reads a value that may be missing or null. -/
def optional {α : Type} (read : Json → Option α) : Option Json → Option (Option α)
  | none => some none
  | some .null => some none
  | some v => (read v).map some

/-- Fields by the names that their keys denote. -/
def named? (fields : List (List Char × Json)) : Option (List (String × Json)) :=
  fields.mapM fun f => (unescape f.1).map fun key => (String.ofList key, f.2)

/-- The field of that name, unless there is more than one. -/
def single? (fields : List (String × Json)) (name : String) : Option (Option Json) :=
  match fields.filter (·.1 = name) with
  | [] => some none
  | [f] => some (some f.2)
  | _ => none

def record? (names : List String) : Json → Option (List (Option Json))
  | .object fields => do
    let fields ← named? fields
    names.mapM (single? fields)
  | .array elements => if elements.length = names.length then some (elements.map some) else none
  | _ => none

/-- The name of a variant and what it carries. -/
def variant? : Json → Option (String × Option Json)
  | .string spelling => (unescape spelling).map fun name => (String.ofList name, none)
  | .object [(key, v)] => (unescape key).map fun name => (String.ofList name, some v)
  | _ => none

def tag? (v : Json) : Option String :=
  match v.variant? with
  | some (name, none) => some name
  | some (name, some .null) => some name
  | _ => none

def array? : Json → Option (List Json)
  | .array elements => some elements
  | _ => none

def ofFields (fields : List (String × Json)) : Json :=
  .object (fields.map fun f => (escape f.1.toList, f.2))

end Questline.Json
