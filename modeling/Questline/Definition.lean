import Questline.Id
import Questline.Table

/-!
Quest definitions: what a quest file says, the rules it has to obey, and the part each character plays.

`Definition.ofDraft` checks the rules in a fixed order and reports the first one that is broken. The roles are
collected on the way, so that a character with two parts shows when the second is given.
-/

namespace Questline

/-- Killing `npc` yields `count` of `item`, as long as no more than `max` are held. -/
structure Drop where
  npc : NpcId
  item : ItemId
  count : UInt32
  max : UInt32
  deriving DecidableEq, Repr

structure Reward where
  currency : ItemId
  amount : Int64
  repeatable : Bool
  deriving DecidableEq, Repr

/-- What a quest file says, before any rule is checked. -/
structure Draft where
  id : QuestId
  name : String
  description : String
  script : String
  levelRequired : Int32
  startNpcs : List NpcId
  talkNpcs : List NpcId
  questItems : List ItemId
  giver : NpcId
  turnIn : NpcId
  drops : List Drop
  reward : Reward
  deriving DecidableEq, Repr

/-- The part that a character plays in a quest. -/
inductive Role where
  /-- Offers the quest and tells how it stands. -/
  | giver
  /-- Takes the collected items and pays. -/
  | turnIn
  /-- Drops an item when killed. -/
  | monster (item : ItemId)
  deriving DecidableEq, Repr

structure Definition extends Draft where
  roles : Table NpcId Role
  deriving DecidableEq, Repr

inductive Flaw where
  | giverStartsNot (npc : NpcId)
  | giverTalksNot (npc : NpcId)
  | turnInTalksNot (npc : NpcId)
  | noDrops
  | twoRoles (npc : NpcId)
  | noQuestItem (item : ItemId)
  | badCount (npc : NpcId) (count max : UInt32)
  | droppedTwice (item : ItemId)
  deriving DecidableEq, Repr

def Flaw.reason : Flaw → String
  | .giverStartsNot npc => s!"giver {npc} is not a start npc"
  | .giverTalksNot npc => s!"giver {npc} is not a talk npc"
  | .turnInTalksNot npc => s!"turn-in {npc} is not a talk npc"
  | .noDrops => "quest has no drops"
  | .twoRoles npc => s!"npc {npc} has two roles"
  | .noQuestItem item => s!"drop item {item} is not a quest item"
  | .badCount npc count max =>
    s!"drop from npc {npc} has count {count.toNat} over max {max.toNat}"
  | .droppedTwice item => s!"item {item} dropped by more than one npc"

namespace Definition

/-- Gives each character of a drop the role of a monster, after the drop is checked against the quest's items
and against the drops before it. -/
def assignMonsters (questItems : List ItemId) :
    List ItemId → Table NpcId Role → List Drop → Except Flaw (Table NpcId Role)
  | _, roles, [] => .ok roles
  | dropped, roles, d :: rest =>
    if d.item ∉ questItems then .error (.noQuestItem d.item)
    else if d.count = 0 ∨ d.max < d.count then .error (.badCount d.npc d.count d.max)
    else if d.item ∈ dropped then .error (.droppedTwice d.item)
    else if roles.contains d.npc then .error (.twoRoles d.npc)
    else assignMonsters questItems (d.item :: dropped) (roles.insert d.npc (.monster d.item)) rest

def ofDraft (d : Draft) : Except Flaw Definition :=
  if d.giver ∉ d.startNpcs then .error (.giverStartsNot d.giver)
  else if d.giver ∉ d.talkNpcs then .error (.giverTalksNot d.giver)
  else if d.turnIn ∉ d.talkNpcs then .error (.turnInTalksNot d.turnIn)
  else if d.drops = [] then .error .noDrops
  else if d.giver = d.turnIn then .error (.twoRoles d.turnIn)
  else
    (assignMonsters d.questItems [] ((Table.empty.insert d.giver .giver).insert d.turnIn .turnIn) d.drops).map
      fun roles => { d with roles }

/-- The definition comes of a draft that obeys the rules. -/
def Accepted (d : Definition) : Prop := ∃ draft, ofDraft draft = .ok d

def roleOf (d : Definition) (npc : NpcId) : Option Role := d.roles.get? npc

def killNpcs (d : Definition) : List NpcId := d.drops.map (·.npc)

def dropFor (d : Definition) (npc : NpcId) : Option Drop := d.drops.find? fun e => decide (e.npc = npc)

/-- All characters that the quest mentions, with their parts. -/
def cast (d : Definition) : Table NpcId (Option Role) :=
  .ofList ((d.startNpcs ++ d.talkNpcs ++ d.killNpcs).map fun npc => (npc, d.roleOf npc))

def isStartNpc (d : Definition) (npc : NpcId) : Bool := decide (npc ∈ d.startNpcs)

end Definition

end Questline
