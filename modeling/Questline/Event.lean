import Questline.Json.Decode
import Questline.Id

/-!
Events: what a player does that may concern quests.
-/

namespace Questline

inductive Event where
  | npcTalk (player : PlayerId) (npc : NpcId)
  /-- A choice made in a dialogue of a quest. -/
  | dialogueChoice (player : PlayerId) (quest : QuestId) (token : String)
  | npcKilled (player : PlayerId) (npc : NpcId)
  deriving DecidableEq, Repr

namespace Event

def player : Event → PlayerId
  | .npcTalk player _ => player
  | .dialogueChoice player _ _ => player
  | .npcKilled player _ => player

def kindName : Event → String
  | .npcTalk .. => "npc_talk"
  | .dialogueChoice .. => "dialogue_choice"
  | .npcKilled .. => "npc_killed"

def toJson : Event → Json
  | .npcTalk player npc =>
    .ofFields [("NpcTalk", .ofFields [
      ("player_id", .ofString player),
      ("npc_id", .ofNat npc.number.toNat)])]
  | .dialogueChoice player quest token =>
    .ofFields [("DialogueChoice", .ofFields [
      ("player_id", .ofString player),
      ("quest_id", .ofNat quest.number.toNat),
      ("token", .ofString token)])]
  | .npcKilled player npc =>
    .ofFields [("NpcKilled", .ofFields [
      ("player_id", .ofString player),
      ("npc_id", .ofNat npc.number.toNat)])]

def ofJson? (v : Json) : Option Event := do
  let (name, some body) ← v.variant? | none
  if name = "NpcTalk" then
    let [some player, some npc] ← body.record? ["player_id", "npc_id"] | none
    return .npcTalk (← player.string?) ⟨← npc.uint32?⟩
  else if name = "DialogueChoice" then
    let [some player, some quest, some token] ← body.record? ["player_id", "quest_id", "token"] | none
    return .dialogueChoice (← player.string?) ⟨← quest.uint32?⟩ (← token.string?)
  else if name = "NpcKilled" then
    let [some player, some npc] ← body.record? ["player_id", "npc_id"] | none
    return .npcKilled (← player.string?) ⟨← npc.uint32?⟩
  else none

def toText (e : Event) : String := e.toJson.render

def ofText? (s : String) : Option Event := (Json.parse? s).bind ofJson?

end Event

end Questline
