import Questline.Definition
import Questline.Toml.Decode
import Questline.Toml.Document

/-!
Quest files: a TOML document with a table `quest`. Parts that may be left out have defaults.
-/

namespace Questline

open Toml (Value)
open Toml.Value (required withDefault)

def readId? {kind : IdKind} (v : Value) : Option (Id kind) := v.uint32?.map fun number => ⟨number⟩

/-- Without `count` and `max` a drop yields one and no more than one. -/
def Drop.ofToml? (v : Value) : Option Drop := do
  let [npc, item, count, max] ← v.record? ["npc", "item", "count", "max"] | none
  return {
    npc := ← required readId? npc
    item := ← required readId? item
    count := ← withDefault 1 Value.uint32? count
    max := ← withDefault 1 Value.uint32? max }

def Reward.baseCurrency : ItemId := ⟨57⟩

/-- The reward of a quest without a reward table; its currency is not the one of an empty table. -/
def Reward.nothing : Reward := ⟨⟨0⟩, 0, false⟩

def Reward.ofToml? (v : Value) : Option Reward := do
  let [currency, amount, repeatable] ← v.record? ["currency", "amount", "repeatable"] | none
  return {
    currency := ← withDefault baseCurrency readId? currency
    amount := ← withDefault 0 Value.int64? amount
    repeatable := ← withDefault false Value.boolean? repeatable }

namespace Draft

def readEnds? (v : Value) : Option (NpcId × NpcId) := do
  let [giver, turnIn] ← v.record? ["giver", "turn_in"] | none
  return (← required readId? giver, ← required readId? turnIn)

def ofToml? (v : Value) : Option Draft := do
  let [id, name, description, script, levelRequired, startNpcs, talkNpcs, questItems, npcs, drops, rewards] ←
    v.record? ["id", "name", "description", "script", "level_required", "start_npcs", "talk_npcs",
      "quest_items", "npcs", "drops", "rewards"] | none
  let (giver, turnIn) ← required readEnds? npcs
  return {
    id := ← required readId? id
    name := ← required Value.string? name
    description := ← withDefault "" Value.string? description
    script := ← required Value.string? script
    levelRequired := ← withDefault 0 Value.int32? levelRequired
    startNpcs := ← withDefault [] (Value.list? readId?) startNpcs
    talkNpcs := ← withDefault [] (Value.list? readId?) talkNpcs
    questItems := ← withDefault [] (Value.list? readId?) questItems
    giver, turnIn
    drops := ← withDefault [] (Value.list? Drop.ofToml?) drops
    reward := ← withDefault .nothing Reward.ofToml? rewards }

def ofText? (s : String) : Option Draft := do
  let file ← Toml.parse? s
  let [quest] ← file.record? ["quest"] | none
  required ofToml? quest

end Draft

end Questline
