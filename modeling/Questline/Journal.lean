import Questline.Record

/-!
A player's journal: the records of all quests the player has met, by quest.
-/

namespace Questline

structure Journal where
  records : Table QuestId Record
  deriving DecidableEq, Repr

namespace Journal

def empty : Journal := ⟨.empty⟩

def get? (j : Journal) (quest : QuestId) : Option Record := j.records.get? quest

/-- Enters a record under its quest, unless there is one already. -/
def enter (j : Journal) (r : Record) : Journal :=
  if j.records.contains r.quest then j else ⟨j.records.insert r.quest r⟩

def modify (j : Journal) (quest : QuestId) (f : Record → Record) : Journal := ⟨j.records.modify quest f⟩

def isCompleted (j : Journal) (quest : QuestId) : Bool := (j.get? quest).any Record.isCompleted

def isActive (j : Journal) (quest : QuestId) : Bool := (j.get? quest).any Record.isStarted

def size (j : Journal) : Nat := j.records.size

def isEmpty (j : Journal) : Bool := j.records.isEmpty

theorem get?_enter (j : Journal) (r : Record) (quest : QuestId) :
    (j.enter r).get? quest =
      if r.quest = quest then some ((j.get? quest).getD r) else j.get? quest := by
  unfold enter Table.contains get?
  split
  · next h =>
    obtain ⟨s, hs⟩ := Option.isSome_iff_exists.1 h
    split
    · next hq => rw [← hq, hs]; rfl
    · rfl
  · next h =>
    rw [Table.get?_insert]
    split
    · next hq => rw [← hq, Option.not_isSome_iff_eq_none.1 h]; rfl
    · rfl

theorem get?_modify (j : Journal) (quest quest' : QuestId) (f : Record → Record) :
    (j.modify quest f).get? quest' = if quest = quest' then (j.get? quest').map f else j.get? quest' :=
  Table.get?_modify j.records quest quest' f

end Journal

end Questline
