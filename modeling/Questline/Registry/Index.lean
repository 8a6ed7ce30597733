import Questline.Hunt

/-!
The quests that are served, and for each character the quests that it starts, talks about or feeds by its
death. The three lists are kept beside the quests; registering and removing keep all four in step.
-/

namespace Questline

/-- Quests by character, each list in ascending order. -/
abbrev Mentions := Table NpcId (List QuestId)

structure Index where
  quests : Table QuestId Hunt
  starts : Mentions
  talks : Mentions
  kills : Mentions
  deriving DecidableEq, Repr

namespace Index

def empty : Index := ⟨.empty, .empty, .empty, .empty⟩

def insertOnce (quest : QuestId) : List QuestId → List QuestId
  | [] => [quest]
  | q :: rest =>
    match compare quest q with
    | .lt => quest :: q :: rest
    | .eq => q :: rest
    | .gt => q :: insertOnce quest rest

def mentioned (m : Mentions) (npc : NpcId) : List QuestId := (m.get? npc).getD []

def mention (quest : QuestId) (m : Mentions) (npc : NpcId) : Mentions :=
  m.insert npc (insertOnce quest (mentioned m npc))

/-- Removes a quest from every list; a list that becomes empty goes. -/
def forget (quest : QuestId) (m : Mentions) : Mentions :=
  m.filterMap fun _ quests =>
    let rest := quests.filter (· != quest)
    if rest.isEmpty then none else some rest

def remove (ix : Index) (quest : QuestId) : Index :=
  ⟨ix.quests.erase quest, forget quest ix.starts, forget quest ix.talks, forget quest ix.kills⟩

/-- A quest that is registered under the same number already is removed first. -/
def register (ix : Index) (h : Hunt) : Index :=
  let d := h.definition
  let ix := if ix.quests.contains d.id then ix.remove d.id else ix
  { quests := ix.quests.insert d.id h
    starts := d.startNpcs.foldl (mention d.id) ix.starts
    talks := d.talkNpcs.foldl (mention d.id) ix.talks
    kills := d.killNpcs.foldl (mention d.id) ix.kills }

def ofList (hs : List Hunt) : Index := hs.foldl register empty

def get? (ix : Index) (quest : QuestId) : Option Hunt := ix.quests.get? quest

theorem get?_remove (ix : Index) (quest quest' : QuestId) :
    (ix.remove quest).get? quest' = if quest = quest' then none else ix.get? quest' :=
  Table.get?_erase ix.quests quest quest'

theorem get?_register (ix : Index) (h : Hunt) (quest : QuestId) :
    (ix.register h).get? quest = if h.definition.id = quest then some h else ix.get? quest := by
  unfold register
  simp only [get?, Table.get?_insert]
  by_cases hq : h.definition.id = quest
  · simp [hq]
  · simp only [if_neg hq]
    split
    · exact (get?_remove ix h.definition.id quest).trans (if_neg hq)
    · rfl

def ids (ix : Index) : List QuestId := ix.quests.keys

def size (ix : Index) : Nat := ix.quests.size

def startedBy (ix : Index) (npc : NpcId) : List QuestId := mentioned ix.starts npc

def killedBy (ix : Index) (npc : NpcId) : List QuestId := mentioned ix.kills npc

/-- The hunts mentioned for a character, in ascending order of their quests. -/
def huntsFor (ix : Index) (m : Mentions) (npc : NpcId) : List Hunt := (mentioned m npc).filterMap ix.get?

def talkHunts (ix : Index) (npc : NpcId) : List Hunt := ix.huntsFor ix.talks npc

def killHunts (ix : Index) (npc : NpcId) : List Hunt := ix.huntsFor ix.kills npc

end Index

end Questline
