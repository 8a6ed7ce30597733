import Questline.Config
import Questline.Registry

/-!
The command line: the configuration is loaded, then the quests, and each quest is summed up in a line.

How files are reached is left open by `Disk`, so that a tree in memory serves as well as a disk.
-/

namespace Questline

/-- How what stands at a path is found. -/
structure Disk (m : Type → Type) where
  /-- Of a folder, only that there is one. -/
  peek : String → m (Option FileTree)
  /-- With all that is below it. -/
  tree : String → m (Option FileTree)

def Disk.ofTree {m : Type → Type} [Pure m] (t : FileTree) : Disk m := ⟨(pure <| t.at? ·), (pure <| t.at? ·)⟩

namespace CommandLine

def configVariable : String := "QUEST_SCRIPTS_CONFIG"

def defaultConfigPath : String := "quest-scripts.toml"

inductive Failure where
  | config (reason : LoadError)
  | quests (reason : LoadError)
  deriving DecidableEq, Repr

def Failure.message : Failure → String
  | .config reason => "Failed to load config: " ++ reason.message
  | .quests reason => "Failed to load quest registry: " ++ reason.message

def writeNpcs (npcs : List NpcId) : String :=
  "[" ++ ", ".intercalate (npcs.map fun npc => s!"NpcId({npc})") ++ "]"

def summary (d : Definition) : String :=
  s!"Quest {d.id} '{d.name}': script={d.script} level>={d.levelRequired.toInt} " ++
    "start=" ++ writeNpcs d.startNpcs ++ " kills=" ++ writeNpcs d.killNpcs

/-- One line a quest, in ascending order of their numbers. -/
def summaries (r : Registry) : List String := r.index.quests.values.map fun h => summary h.definition

def run {m : Type → Type} [Monad m] (disk : Disk m) (configPath : Option String) :
    m (Except Failure (List String)) := do
  match Config.load (← disk.peek (configPath.getD defaultConfigPath)) with
  | .error reason => return .error (.config reason)
  | .ok config =>
    match (Registry.empty config.rates).load (← disk.tree config.questsDir) with
    | .error reason => return .error (.quests reason)
    | .ok (registry, _) => return .ok (summaries registry)

def exitCode : Except Failure (List String) → UInt32
  | .ok _ => 0
  | .error _ => 1

end CommandLine

end Questline
