import Questline.Binary64.Decimal
import Questline.Definition

/-!
Why a quest, a tree of quest files or a configuration cannot be loaded.
-/

namespace Questline

inductive LoadError where
  /-- A file is no text, or a folder cannot be listed. -/
  | unreadable
  /-- A text is not of the expected form. -/
  | malformed
  | flawed (quest : QuestId) (flaw : Flaw)
  | unknownScript (name : String)
  /-- A multiplier that is negative or not finite. -/
  | badRate (rate : Binary64)
  deriving DecidableEq, Repr

namespace LoadError

def message : LoadError → String
  | .unreadable => "Cannot be read"
  | .malformed => "Not of the expected form"
  | .flawed quest flaw => s!"Invalid quest {quest}: " ++ flaw.reason
  | .unknownScript name => s!"Unknown quest script '{name}'"
  | .badRate rate =>
    "Configuration error: rates.quest_reward_currency must be a non-negative number, got " ++ rate.toText

end LoadError

end Questline
