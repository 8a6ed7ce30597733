import Questline.Toml.Value

/-!
Tables under construction. TOML lets a table be named by a header, be passed through by the path of another
header, or be made by a dotted key, and each of these forbids some later additions. So a table carries how it
came to be until the document is complete.
-/

namespace Questline.Toml

/-- How a table came to be. -/
inductive Origin where
  /-- Named itself: by a header, as an element of an array of tables, or in braces. -/
  | named
  /-- Passed through by the path of a header. -/
  | passed
  /-- Made by a dotted key. -/
  | dotted
  deriving DecidableEq, Repr

/-- An entry of a table under construction. The elements of an array of tables stand newest first. -/
inductive Node where
  | value (v : Value)
  | table (origin : Origin) (entries : List (String × Node))
  | tables (elements : List (List (String × Node)))
  deriving Repr

abbrev Entries := List (String × Node)

namespace Entries

def find? (es : Entries) (key : String) : Option Node := es.lookup key

def add (es : Entries) (key : String) (n : Node) : Entries := es ++ [(key, n)]

def remove (es : Entries) (key : String) : Entries := es.filter (·.1 != key)

def replace (es : Entries) (key : String) (n : Node) : Entries :=
  es.map fun e => if e.1 = key then (key, n) else e

/-- Runs `f` on the table at the end of a path, making the tables that are missing on the way. The path goes
through the newest element of an array of tables. A dotted path passes through no table that was named. -/
def descend {α : Type} (dotted : Bool) (f : Origin → Entries → Option (α × Entries)) :
    List String → Origin → Entries → Option (α × Entries)
  | [], origin, es => f origin es
  | key :: path, _, es =>
    match es.find? key with
    | none =>
      let origin := if dotted then .dotted else .passed
      (descend dotted f path origin []).map fun (a, child) => (a, es.add key (.table origin child))
    | some (.value _) => none
    | some (.tables []) => none
    | some (.tables (newest :: older)) =>
      (descend dotted f path .named newest).map fun (a, newest) =>
        (a, es.replace key (.tables (newest :: older)))
    | some (.table origin child) =>
      if dotted ∧ origin = .named then none
      else
        (descend dotted f path origin child).map fun (a, child) =>
          (a, es.replace key (.table origin child))

/-- Adds a value under a key that may be dotted. The table that takes it is the one the keys are written in, or
was made by dotted keys itself. -/
def assign (es : Entries) (path : List String) (key : String) (v : Value) : Option Entries :=
  (descend true (fun origin es =>
    if path.isEmpty == decide (origin = .dotted) then none
    else if (es.find? key).isSome then none
    else some ((), es.add key (.value v))) path .named es).map (·.2)

end Entries

mutual

def Node.toValue : Node → Value
  | .value v => v
  | .table _ entries => .table (toValues entries)
  | .tables elements => .array (toTables elements).reverse

def toValues : List (String × Node) → List (String × Value)
  | [] => []
  | (key, n) :: rest => (key, n.toValue) :: toValues rest

def toTables : List (List (String × Node)) → List Value
  | [] => []
  | entries :: rest => .table (toValues entries) :: toTables rest

end

end Questline.Toml
