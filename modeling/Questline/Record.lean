import Questline.Id
import Questline.Instant
import Questline.Table

/-!
A player's record of one quest: how far it has come and which of its items are held.
-/

namespace Questline

/-- Where a quest stands for a player. -/
inductive Phase where
  /-- The giver was met, the quest not accepted. -/
  | created
  | started
  | completed
  deriving DecidableEq, Repr

structure Record where
  quest : QuestId
  phase : Phase
  /-- The step within a started quest. -/
  cond : Option UInt8
  /-- Counts of the items that the quest knows; no other item is ever held here. -/
  items : Table ItemId UInt32
  startedAt : Option Instant
  completedAt : Option Instant
  deriving DecidableEq, Repr

namespace Record

/-- The record of a player who has just met the giver. -/
def fresh (quest : QuestId) (items : List ItemId) : Record where
  quest
  phase := .created
  cond := none
  items := .ofList (items.map (·, 0))
  startedAt := none
  completedAt := none

def isStarted (r : Record) : Bool := decide (r.phase = .started)

def isCompleted (r : Record) : Bool := decide (r.phase = .completed)

def count (r : Record) (item : ItemId) : UInt32 := (r.items.get? item).getD 0

def has (r : Record) (item : ItemId) : Bool := decide (0 < r.count item)

/-- Every item that the quest knows is held; a quest without items is never ready. -/
def hasAll (r : Record) : Bool := !r.items.isEmpty && r.items.values.all (decide <| 0 < ·)

def start (r : Record) (cond : UInt8) (now : Instant) : Record :=
  { r with phase := .started, cond := some cond, startedAt := some now }

/-- Only a started quest has steps. -/
def setCond (r : Record) (cond : UInt8) : Record :=
  if r.isStarted then { r with cond := some cond } else r

def clearCond (r : Record) : Record := { r with cond := none }

/-- How many of `count` items fit below `max` when `held` are held. -/
def room (held count max : UInt32) : UInt32 := min count (if held ≤ max then max - held else 0)

/-- Grants up to `count` of an item, and says how many; none of an item that the quest does not know. -/
def give (r : Record) (item : ItemId) (count max : UInt32) : Record × UInt32 :=
  match r.items.get? item with
  | none => (r, 0)
  | some held =>
    let granted := room held count max
    ({ r with items := r.items.insert item (held + granted) }, granted)

/-- The items that are held, with their counts, in ascending order. -/
def holdings (r : Record) : List (ItemId × UInt32) := r.items.toList.filter fun e => decide (0 < e.2)

def emptied (r : Record) : Record := { r with items := r.items.mapValues fun _ => 0 }

/-- Ends the quest, and says which items were taken away. A repeatable quest goes back to its first phase
without a trace. -/
def exit (r : Record) (repeatable : Bool) (now : Instant) : Record × List (ItemId × UInt32) :=
  let ended := { r.emptied with cond := none }
  let ended :=
    if repeatable then { ended with phase := .created, startedAt := none, completedAt := none }
    else { ended with phase := .completed, completedAt := some now }
  (ended, r.holdings)

end Record

end Questline
