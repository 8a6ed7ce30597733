import Questline.Dialogue
import Questline.Json.Decode

/-!
Effects: what a quest does to a player beyond the quest record. Their JSON form has one key, which names the
effect.
-/

namespace Questline

inductive Sound where
  | questAccept
  | questFinish
  | itemGet
  deriving DecidableEq, Repr

inductive Effect where
  | playSound (player : PlayerId) (sound : Sound)
  /-- An item already counted in the record of the quest. -/
  | itemGiven (player : PlayerId) (quest : QuestId) (item : ItemId) (count : UInt32)
  /-- The items taken away when a quest ended. -/
  | itemsRemoved (player : PlayerId) (quest : QuestId) (items : List (ItemId × UInt32))
  /-- Pay, which belongs to no quest. -/
  | reward (player : PlayerId) (item : ItemId) (amount : Int64)
  deriving DecidableEq, Repr

namespace Sound

def cue : Sound → String
  | .questAccept => "ItemSound.quest_accept"
  | .questFinish => "ItemSound.quest_finish"
  | .itemGet => "ItemSound.quest_itemget"

def name : Sound → String
  | .questAccept => "QuestAccept"
  | .questFinish => "QuestFinish"
  | .itemGet => "ItemGet"

def ofName? (s : String) : Option Sound :=
  if s = "QuestAccept" then some .questAccept
  else if s = "QuestFinish" then some .questFinish
  else if s = "ItemGet" then some .itemGet
  else none

end Sound

namespace Effect

def player : Effect → PlayerId
  | .playSound player _ => player
  | .itemGiven player _ _ _ => player
  | .itemsRemoved player _ _ => player
  | .reward player _ _ => player

def kindName : Effect → String
  | .playSound .. => "play_sound"
  | .itemGiven .. => "quest_item_given"
  | .itemsRemoved .. => "quest_items_removed"
  | .reward .. => "reward_items"

def writePair (e : ItemId × UInt32) : Json := .array [.ofNat e.1.number.toNat, .ofNat e.2.toNat]

def toJson : Effect → Json
  | .playSound player sound =>
    .ofFields [("PlaySound", .ofFields [
      ("player_id", .ofString player),
      ("sound", .ofString sound.name)])]
  | .itemGiven player quest item count =>
    .ofFields [("QuestItemGiven", .ofFields [
      ("player_id", .ofString player),
      ("quest_id", .ofNat quest.number.toNat),
      ("item", .ofNat item.number.toNat),
      ("count", .ofNat count.toNat)])]
  | .itemsRemoved player quest items =>
    .ofFields [("QuestItemsRemoved", .ofFields [
      ("player_id", .ofString player),
      ("quest_id", .ofNat quest.number.toNat),
      ("items", .array (items.map writePair))])]
  | .reward player item amount =>
    .ofFields [("RewardItems", .ofFields [
      ("player_id", .ofString player),
      ("item", .ofNat item.number.toNat),
      ("amount", .ofInt amount.toInt)])]

def readSound (v : Json) : Option Sound := v.tag?.bind Sound.ofName?

def readPair : Json → Option (ItemId × UInt32)
  | .array [item, count] => do return (⟨← item.uint32?⟩, ← count.uint32?)
  | _ => none

def readPairs (v : Json) : Option (List (ItemId × UInt32)) := v.array?.bind fun vs => vs.mapM readPair

def ofJson? (v : Json) : Option Effect := do
  let (name, some body) ← v.variant? | none
  if name = "PlaySound" then
    let [some player, some sound] ← body.record? ["player_id", "sound"] | none
    return .playSound (← player.string?) (← readSound sound)
  else if name = "QuestItemGiven" then
    let [some player, some quest, some item, some count] ←
      body.record? ["player_id", "quest_id", "item", "count"] | none
    return .itemGiven (← player.string?) ⟨← quest.uint32?⟩ ⟨← item.uint32?⟩ (← count.uint32?)
  else if name = "QuestItemsRemoved" then
    let [some player, some quest, some items] ← body.record? ["player_id", "quest_id", "items"] | none
    return .itemsRemoved (← player.string?) ⟨← quest.uint32?⟩ (← readPairs items)
  else if name = "RewardItems" then
    let [some player, some item, some amount] ← body.record? ["player_id", "item", "amount"] | none
    return .reward (← player.string?) ⟨← item.uint32?⟩ (← amount.int64?)
  else none

def toText (e : Effect) : String := e.toJson.render

def ofText? (s : String) : Option Effect := (Json.parse? s).bind ofJson?

end Effect

/-- What comes of an action: something to show, and effects in the order in which they apply. -/
structure Outcome where
  dialogue : Option Dialogue
  effects : List Effect
  deriving DecidableEq, Repr

namespace Outcome

def nothing : Outcome := ⟨none, []⟩

def say (dialogue : Dialogue) : Outcome := ⟨some dialogue, []⟩

def isNothing (o : Outcome) : Bool := o.dialogue.isNone && o.effects.isEmpty

end Outcome

end Questline
