import Questline.Toml.Reader

/-!
TOML documents: lines that are assignments or table headers, assembled into one table.
-/

namespace Questline.Toml

inductive Statement where
  | assignment (path : List String) (key : String) (v : Value)
  /-- The header `[path.key]`. -/
  | table (path : List String) (key : String)
  /-- The header `[[path.key]]`. -/
  | element (path : List String) (key : String)

def readStatement (cs : List Char) : Option (Statement × List Char) :=
  match cs with
  | '[' :: '[' :: rest =>
    match readKey rest with
    | some ((path, key), ']' :: ']' :: rest) => some (.element path key, rest)
    | _ => none
  | '[' :: rest =>
    match readKey rest with
    | some ((path, key), ']' :: rest) => some (.table path key, rest)
    | _ => none
  | cs =>
    match readKey cs with
    | some ((path, key), '=' :: rest) =>
      (readValue maxDepth (skipSpace rest)).map fun (v, rest) => (.assignment path key v, rest)
    | _ => none

def readStatements : Nat → List Char → Option (List Statement)
  | 0, _ => none
  | fuel + 1, cs =>
    match skipSpace cs with
    | [] => some []
    | c :: rest =>
      if c = '#' ∨ c = '\n' ∨ c = '\r' then
        match readLineEnd (c :: rest) with
        | none => none
        | some rest => readStatements fuel rest
      else
        match readStatement (c :: rest) with
        | none => none
        | some (s, rest) =>
          match readLineEnd rest with
          | none => none
          | some rest => (readStatements fuel rest).map (s :: ·)

/-- A document under construction: `body` collects the assignments under the last header, which is where it
goes when the next header comes. -/
structure Assembly where
  root : Entries
  header : Option Statement
  body : Entries

namespace Assembly

def start : Assembly := ⟨[], none, []⟩

/-- Puts the body in its place. -/
def close (a : Assembly) : Option Entries :=
  match a.header with
  | some (.table path key) =>
    (Entries.descend false (fun _ es =>
      match es.find? key with
      | none => some ((), es.add key (.table .named a.body))
      | some _ => none) path .named a.root).map (·.2)
  | some (.element path key) =>
    (Entries.descend false (fun _ es =>
      match es.find? key with
      | none => some ((), es.add key (.tables [a.body]))
      | some (.tables elements) => some ((), es.replace key (.tables (a.body :: elements)))
      | some _ => none) path .named a.root).map (·.2)
  | _ => some a.body

/-- Opens the table `path.key`. One that other headers passed through may be named once; it keeps its entries. -/
def openTable (root : Entries) (path : List String) (key : String) : Option Assembly :=
  (Entries.descend false (fun _ es =>
    match es.find? key with
    | none => some ([], es)
    | some (.table .passed entries) => some (entries, es.remove key)
    | some _ => none) path .named root).map fun (body, root) => ⟨root, some (.table path key), body⟩

def openElement (root : Entries) (path : List String) (key : String) : Option Assembly :=
  (Entries.descend false (fun _ es =>
    match es.find? key with
    | none => some ((), es)
    | some (.tables _) => some ((), es)
    | some _ => none) path .named root).map fun (_, root) => ⟨root, some (.element path key), []⟩

def step (a : Assembly) : Statement → Option Assembly
  | .assignment path key v => (a.body.assign path key v).map fun body => { a with body }
  | .table path key => a.close.bind fun root => openTable root path key
  | .element path key => a.close.bind fun root => openElement root path key

end Assembly

/-- The table that a list of lines makes, unless a line adds to what may not be added to. -/
def assemble (lines : List Statement) : Option Value := do
  let a ← lines.foldlM Assembly.step Assembly.start
  let root ← a.close
  return .table (toValues root)

/-- Reads a document. A byte-order mark in front is skipped. -/
def parse? (s : String) : Option Value := do
  let cs := match s.toList with
    | '\ufeff' :: rest => rest
    | cs => cs
  let lines ← readStatements (cs.length + 1) cs
  assemble lines

end Questline.Toml
