import Questline.Id
import Questline.Text.Numeral

/-!
What a player is shown: a page of a quest, or one of two standing messages.
-/

namespace Questline

inductive Dialogue where
  /-- The page of that name; a choice within a dialogue names its page too. -/
  | page (token : String)
  | noQuest
  | alreadyCompleted
  deriving DecidableEq, Repr

/-- The name of a character's page: its number has two digits or more. -/
def pageName (npc : NpcId) (number : UInt8) : String :=
  String.ofList (Numeral.digits npc.number.toNat ++ '-' :: Numeral.padded 2 number.toNat ++
    ['.', 'h', 't', 'm'])

namespace Dialogue

def ofPage (npc : NpcId) (number : UInt8) : Dialogue := .page (pageName npc number)

def html : Dialogue → String
  | .page token => token
  | .noQuest =>
    "<html><body>You are either not on a quest that involves this NPC, or you don't meet this NPC's " ++
      "minimum quest requirements.</body></html>"
  | .alreadyCompleted => "<html><body>This quest has already been completed.</body></html>"

def isDefault : Dialogue → Bool
  | .page _ => false
  | _ => true

end Dialogue

end Questline
