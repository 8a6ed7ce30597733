import Questline.Event
import Questline.Hunt.Kill
import Questline.Registry.Index

/-!
Bringing what players do to the quests that are concerned: talks, choices in a dialogue, and kills.
-/

namespace Questline.Index

/-- A talk with a quest about one character: nothing to say when the player has no record and the character
does not start the quest; otherwise what the quest says, and the sessions in which a player of sufficient level
has got a record. What is said does not depend on the new record. -/
def talkOnce (h : Hunt) (npc : NpcId) (player : PlayerId) (level : Int32) (s : Sessions) :
    Option (Dialogue × Sessions) :=
  let d := h.definition
  match s.record? player d.id with
  | some r => some (h.talk npc level (some r), s)
  | none =>
    if d.isStartNpc npc then
      some (h.talk npc level none,
        if d.levelRequired ≤ level then s.enterRecord player (.fresh d.id d.questItems) else s)
    else none

/-- Quests are asked in turn, and the first page is shown. Without a page the first message other than `noQuest`
is shown. -/
def talkInTurn (npc : NpcId) (player : PlayerId) (level : Int32) :
    List Hunt → Dialogue → Sessions → Dialogue × Sessions
  | [], message, s => (message, s)
  | h :: rest, message, s =>
    match talkOnce h npc player level s with
    | none => talkInTurn npc player level rest message s
    | some (dialogue, s) =>
      if dialogue.isDefault then
        talkInTurn npc player level rest (if message = .noQuest then dialogue else message) s
      else (dialogue, s)

def talk (ix : Index) (s : Sessions) (player : PlayerId) (npc : NpcId) : Dialogue × Sessions :=
  match s.level? player with
  | none => (.noQuest, s)
  | some level => talkInTurn npc player level (ix.talkHunts npc) .noQuest s

/-- A player makes a choice in a dialogue of a quest. There is no outcome when the quest is unknown or the player
has no record of it. The record changes before the effects are applied. -/
def choose (ix : Index) (s : Sessions) (player : PlayerId) (quest : QuestId) (token : String) (now : Instant) :
    Attempt Sessions (Option Outcome × Sessions) :=
  match ix.get? quest, s.record? player quest with
  | some h, some r =>
    let (outcome, r) := h.choose player token r now
    ((s.modifyRecord player quest fun _ => r).applyAll outcome.effects).map fun s => (some outcome, s)
  | _, _ => .ok (none, s)

/-- Each hunt decides on its drop, and its effects are applied before the next one decides. Only hunts to which
something happened are listed. -/
def killInTurn (npc : NpcId) (killer : PlayerId) :
    List Hunt → Sessions → Dice → Attempt (Sessions × Dice) (List (QuestId × Outcome) × Sessions × Dice)
  | [], s, dice => .ok ([], s, dice)
  | h :: rest, s, dice =>
    let (outcome, s, dice) := h.kill npc killer s dice
    if outcome.isNothing then killInTurn npc killer rest s dice
    else do
      let s ← (s.applyAll outcome.effects).within (·, dice)
      let (outcomes, s, dice) ← killInTurn npc killer rest s dice
      return ((h.definition.id, outcome) :: outcomes, s, dice)

def kill (ix : Index) (s : Sessions) (killer : PlayerId) (npc : NpcId) (dice : Dice) :
    Attempt (Sessions × Dice) (List (QuestId × Outcome) × Sessions × Dice) :=
  killInTurn npc killer (ix.killHunts npc) s dice

/-- Brings an event to the quests. The outcome of a kill holds the effects of all quests, and a choice without
an outcome shows `noQuest`. -/
def process (ix : Index) (s : Sessions) (event : Event) (now : Instant) (dice : Dice) :
    Attempt (Sessions × Dice) (Outcome × Sessions × Dice) :=
  match event with
  | .npcTalk player npc =>
    let (dialogue, s) := ix.talk s player npc
    .ok (.say dialogue, s, dice)
  | .dialogueChoice player quest token =>
    ((ix.choose s player quest token now).within (·, dice)).map fun (outcome, s) =>
      (outcome.getD (.say .noQuest), s, dice)
  | .npcKilled player npc =>
    (ix.kill s player npc dice).map fun (outcomes, s, dice) =>
      (⟨none, outcomes.flatMap (·.2.effects)⟩, s, dice)

end Questline.Index
