import Questline.Session

/-!
The players who are present, their parties, and the effects applied to them.

A party is kept twice, as a number on each member and as a list of members under that number; joining, forming
and leaving keep the two in step.
-/

namespace Questline

structure Sessions where
  players : Table PlayerId Session
  parties : Table PartyId (List PlayerId)
  nextParty : PartyId
  /-- The effects applied, oldest first. -/
  log : List Effect
  deriving DecidableEq, Repr

namespace Sessions

def empty : Sessions := ⟨.empty, .empty, ⟨1⟩, []⟩

def level? (s : Sessions) (player : PlayerId) : Option Int32 := (s.players.get? player).map (·.level)

/-- The members of the player's party, with the player, in the order in which it was formed. -/
def members? (s : Sessions) (player : PlayerId) : Option (List PlayerId) :=
  (s.players.get? player).bind fun p => p.party.bind s.parties.get?

def record? (s : Sessions) (player : PlayerId) (quest : QuestId) : Option Record :=
  (s.players.get? player).bind (·.journal.get? quest)

def inventoryCount (s : Sessions) (player : PlayerId) (item : ItemId) : Int64 :=
  ((s.players.get? player).map (·.held item)).getD 0

/-- A player who is present already only changes level. -/
def join (s : Sessions) (player : PlayerId) (level : Int32) : Sessions :=
  let session := match s.players.get? player with
    | some p => { p with level }
    | none => .fresh level
  { s with players := s.players.insert player session }

def modifyPlayer (s : Sessions) (player : PlayerId) (f : Session → Session) : Sessions :=
  { s with players := s.players.modify player f }

theorem get?_modifyPlayer (s : Sessions) (player player' : PlayerId) (f : Session → Session) :
    (s.modifyPlayer player f).players.get? player' =
      if player = player' then (s.players.get? player').map f else s.players.get? player' :=
  Table.get?_modify s.players player player' f

def clearParty (s : Sessions) (player : PlayerId) : Sessions :=
  s.modifyPlayer player fun p => { p with party := none }

/-- A party that is left by all but one is dissolved. -/
def leaveParty (s : Sessions) (player : PlayerId) : Sessions :=
  match (s.players.get? player).bind (·.party) with
  | none => s
  | some party =>
    let s := s.clearParty player
    match s.parties.get? party with
    | none => s
    | some members =>
      let rest := members.filter (· != player)
      if rest.length < 2 then
        let s := rest.foldl clearParty s
        { s with parties := s.parties.erase party }
      else { s with parties := s.parties.insert party rest }

/-- The player leaves party and game, and is handed back as they were then. -/
def leave (s : Sessions) (player : PlayerId) : Sessions × Option Session :=
  let s := s.leaveParty player
  ({ s with players := s.players.erase player }, s.players.get? player)

def enterParty (party : PartyId) (s : Sessions) (player : PlayerId) : Sessions :=
  s.modifyPlayer player fun p => { p with party := some party }

/-- Groups players into a new party. Unknown names are skipped, and those in a party leave it first, even when there
is no number left for the new one; fewer than two known names form none. -/
def formParty (s : Sessions) (names : List PlayerId) : Attempt Sessions (Sessions × Option PartyId) :=
  let known := names.filter fun n => s.players.contains n
  if known.length < 2 then .ok (s, none)
  else
    let s := known.foldl leaveParty s
    let party := s.nextParty
    if party.number.toNat + 1 < UInt32.size then
      let s := known.foldl (enterParty party) { s with nextParty := ⟨party.number + 1⟩ }
      .ok ({ s with parties := s.parties.insert party known }, some party)
    else .error (.partyNumber, s)

/-- Enters a record for a player, unless the player is unknown or has one for that quest. -/
def enterRecord (s : Sessions) (player : PlayerId) (r : Record) : Sessions :=
  s.modifyPlayer player fun p => { p with journal := p.journal.enter r }

def modifyRecord (s : Sessions) (player : PlayerId) (quest : QuestId) (f : Record → Record) : Sessions :=
  s.modifyPlayer player fun p => { p with journal := p.journal.modify quest f }

theorem record?_enterRecord (s : Sessions) (player player' : PlayerId) (r : Record) (quest : QuestId) :
    (s.enterRecord player r).record? player' quest =
      if player = player' ∧ r.quest = quest then
        (s.players.get? player').map fun p => (p.journal.get? quest).getD r
      else s.record? player' quest := by
  unfold enterRecord record?
  rw [get?_modifyPlayer]
  cases s.players.get? player' with
  | none => simp
  | some p =>
    by_cases hp : player = player' <;> by_cases hq : r.quest = quest <;> simp [hp, hq, Journal.get?_enter]

theorem record?_modifyRecord (s : Sessions) (player player' : PlayerId) (quest quest' : QuestId)
    (f : Record → Record) :
    (s.modifyRecord player quest f).record? player' quest' =
      if player = player' ∧ quest = quest' then (s.record? player' quest').map f
      else s.record? player' quest' := by
  unfold modifyRecord record?
  rw [get?_modifyPlayer]
  cases s.players.get? player' with
  | none => simp
  | some p =>
    by_cases hp : player = player' <;> by_cases hq : quest = quest' <;> simp [hp, hq, Journal.get?_modify]

/-- An effect on an unknown player is dropped and not logged, and neither is one that is broken off. -/
def apply (s : Sessions) (e : Effect) : Attempt Sessions Sessions :=
  match s.players.get? e.player with
  | none => .ok s
  | some p =>
    ((p.receive e).within fun p => { s with players := s.players.insert e.player p }).map fun p =>
      { s with players := s.players.insert e.player p, log := s.log ++ [e] }

def applyAll (s : Sessions) (es : List Effect) : Attempt Sessions Sessions := es.foldlM apply s

end Sessions

end Questline
