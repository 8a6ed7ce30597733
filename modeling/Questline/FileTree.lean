import Questline.Table

/-!
Trees of files and folders, as far as loading depends on them: the texts of files and the names below folders.

A path is a list of names from the top down. In written form its names are separated by slashes.
-/

namespace Questline

inductive FileTree where
  /-- A file with its text, which is missing when the file cannot be read as UTF-8. -/
  | file (text : Option String)
  | folder (entries : List (String × FileTree))
  /-- A folder that cannot be listed. -/
  | locked
  deriving Repr

namespace FileTree

abbrev Path := List String

mutual

/-- The files of a tree with their paths, when all folders can be listed. -/
def files (path : Path) : FileTree → Option (List (Path × Option String))
  | .file text => some [(path, text)]
  | .folder entries => filesBelow path entries
  | .locked => none
termination_by structural t => t

def filesBelow (path : Path) : List (String × FileTree) → Option (List (Path × Option String))
  | [] => some []
  | (name, t) :: rest =>
    match t.files (path ++ [name]), filesBelow path rest with
    | some here, some there => some (here ++ there)
    | _, _ => none
termination_by structural entries => entries

end

/-- The extension is exactly `toml`, and something stands before its point. -/
def isQuestName (name : String) : Bool :=
  ".toml".toList.isSuffixOf name.toList && decide (5 < name.length)

/-- The quest files of a folder by their paths, at whatever depth. Whether a folder is entered does not depend on
its name. -/
def questFiles? : FileTree → Option (Table Path (Option String))
  | .file _ => none
  | t => (t.files []).map fun fs => .ofList (fs.filter fun f => (f.1.getLast?).any isQuestName)

/-- Goes down from a tree, whose `above` are the folders above it, nearest first. -/
def follow (above : List FileTree) : FileTree → Path → Option FileTree
  | t, [] => some t
  | .folder entries, name :: rest =>
    if name = "" ∨ name = "." then follow above (.folder entries) rest
    else if name = ".." then
      match above with
      | [] => none
      | t :: above => follow above t rest
    else
      match entries.lookup name with
      | none => none
      | some t => follow (.folder entries :: above) t rest
  | _, _ :: _ => none

/-- What stands at a written path that starts at the top of the tree. Nothing stands at an empty path, above the
top, or below a file. -/
def at? (t : FileTree) (path : String) : Option FileTree :=
  if path = "" ∨ path.front = '/' then none else follow [] t (path.splitOn "/")

def setEntry (name : String) (t : FileTree) : List (String × FileTree) → List (String × FileTree)
  | [] => [(name, t)]
  | e :: rest => if e.1 = name then (name, t) :: rest else e :: setEntry name t rest

/-- Puts a file or an empty folder at a path, with the folders on the way. A file takes the place of a file, and a
folder that is there already stays; nothing else gives way. -/
def put (t : FileTree) : Path → Option FileTree → Option FileTree
  | [], none => some t
  | [], some (.file _) =>
    match t with
    | .file text => some (.file text)
    | _ => none
  | [], some old =>
    match t with
    | .file _ => none
    | _ => some old
  | name :: rest, none => (put t rest none).map fun new => .folder [(name, new)]
  | name :: rest, some (.folder entries) =>
    (put t rest (entries.lookup name)).map fun new => .folder (setEntry name new entries)
  | _ :: _, some _ => none

def remove : Path → FileTree → FileTree
  | [name], .folder entries => .folder (entries.filter (·.1 != name))
  | name :: rest, .folder entries =>
    match entries.lookup name with
    | some t => .folder (setEntry name (remove rest t) entries)
    | none => .folder entries
  | _, t => t

end FileTree

end Questline
