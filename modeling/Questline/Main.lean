import Questline.CommandLine

/-!
The program: files are read from disk, and the command line runs on them.
-/

namespace Questline

def readFile (path : String) : IO FileTree := do
  try
    let bytes ← IO.FS.readBinFile path
    return .file (String.fromUTF8? bytes)
  catch _ => return .file none

/-- Reads a folder with all that is below it. -/
partial def readFolder (path : String) : IO FileTree := do
  try
    let entries ← ((← IO.currentDir) / path).readDir
    let entries ← entries.toList.mapM fun e => do
      let below := path ++ "/" ++ e.fileName
      return (e.fileName, ← if ← e.path.isDir then readFolder below else readFile below)
    return .folder entries
  catch _ => return .locked

def disk : Disk IO where
  peek path := do
    let place := (← IO.currentDir) / path
    if path.isEmpty || !(← place.pathExists) then return none
    else if ← place.isDir then return some .locked
    else return some (← readFile path)
  tree path := do
    let place := (← IO.currentDir) / path
    if path.isEmpty || !(← place.pathExists) then return none
    else if ← place.isDir then return some (← readFolder path)
    else return some (← readFile path)

end Questline

open Questline in
def main : IO UInt32 := do
  let result ← CommandLine.run disk (← IO.getEnv CommandLine.configVariable)
  match result with
  | .ok lines => lines.forM (IO.println ·)
  | .error failure => IO.eprintln failure.message
  return CommandLine.exitCode result
