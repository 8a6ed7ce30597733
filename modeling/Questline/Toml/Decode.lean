import Questline.Toml.Value

/-!
Reading domain values off TOML: scalars of a given range, lists and records.
-/

namespace Questline.Toml.Value

def string? : Value → Option String
  | .string s => some s
  | _ => none

def boolean? : Value → Option Bool
  | .boolean b => some b
  | _ => none

def intIn? (low high : Int) : Value → Option Int
  | .integer i => if low ≤ i ∧ i ≤ high then some i else none
  | _ => none

def uint32? (v : Value) : Option UInt32 := (v.intIn? 0 4294967295).map fun i => UInt32.ofNat i.toNat

def int32? (v : Value) : Option Int32 :=
  (v.intIn? Int32.minValue.toInt Int32.maxValue.toInt).map Int32.ofInt

def int64? (v : Value) : Option Int64 :=
  (v.intIn? Int64.minValue.toInt Int64.maxValue.toInt).map Int64.ofInt

/-- An integer may stand for a float. -/
def float? : Value → Option Binary64
  | .float x => some x
  | .integer i => some (.ofInt i)
  | _ => none

def list? {α : Type} (read : Value → Option α) : Value → Option (List α)
  | .array vs => vs.mapM read
  | _ => none

/-- The fields of a record in the order of `names`: a table gives them by name, an array by place, and neither
unknown names nor places beyond the last count. A date-time is a record without any field that has a name
here. -/
def record? (names : List String) : Value → Option (List (Option Value))
  | .table entries => some (names.map fun name => entries.lookup name)
  | .array vs => some (((vs.map some) ++ names.map fun _ => none).take names.length)
  | .dateTime => some (names.map fun _ => none)
  | _ => none

def required {α : Type} (read : Value → Option α) (field : Option Value) : Option α := field.bind read

def withDefault {α : Type} (default : α) (read : Value → Option α) : Option Value → Option α
  | none => some default
  | some v => read v

end Questline.Toml.Value
