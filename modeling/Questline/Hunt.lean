import Questline.Definition
import Questline.Effect
import Questline.Rates
import Questline.Record

/-!
The hunt, the script that drives quests: the giver sends a player after monsters, each of which drops an item,
and for all items together the turn-in character pays.

Two tables decide: `talk` gives the page for a player who talks to a character, and `choose` says what a choice
in a dialogue does to the player's record. Drops are granted in `Questline.Hunt.Kill`.
-/

namespace Questline

/-- A checked definition with the rates at which it pays. -/
structure Hunt where
  definition : Definition
  rates : Rates
  deriving DecidableEq, Repr

namespace Hunt

/-- The step of a started hunt. -/
def collecting : UInt8 := 1

inductive GiverPage where
  | tooLow
  | offer
  | accept
  | inProgress
  | ready
  | done
  deriving DecidableEq, Repr

def GiverPage.number : GiverPage → UInt8
  | .tooLow => 0
  | .offer => 1
  | .accept => 3
  | .inProgress => 4
  | .ready => 5
  | .done => 6

inductive TurnInPage where
  | notYet
  | deliver
  | reward
  deriving DecidableEq, Repr

def TurnInPage.number : TurnInPage → UInt8
  | .notYet => 1
  | .deliver => 2
  | .reward => 3

def giverPage (h : Hunt) (page : GiverPage) : Dialogue := .ofPage h.definition.giver page.number

def turnInPage (h : Hunt) (page : TurnInPage) : Dialogue := .ofPage h.definition.turnIn page.number

def acceptToken (h : Hunt) : String := pageName h.definition.giver GiverPage.accept.number

def turnInToken (h : Hunt) : String := pageName h.definition.turnIn TurnInPage.reward.number

/-- Without a record the quest counts as not accepted. -/
def talkGiver (h : Hunt) (level : Int32) (record : Option Record) : Dialogue :=
  let phase := match record with
    | some r => r.phase
    | none => .created
  match phase with
  | .completed => h.giverPage .done
  | .created => if h.definition.levelRequired ≤ level then h.giverPage .offer else h.giverPage .tooLow
  | .started =>
    match record with
    | none => .noQuest
    | some r =>
      if r.hasAll then h.giverPage .ready
      else if r.cond = some collecting then h.giverPage .inProgress
      else .noQuest

def talkTurnIn (h : Hunt) (record : Option Record) : Dialogue :=
  match record with
  | none => .noQuest
  | some r =>
    if r.isCompleted then .alreadyCompleted
    else if r.hasAll then h.turnInPage .deliver
    else h.turnInPage .notYet

def talk (h : Hunt) (npc : NpcId) (level : Int32) (record : Option Record) : Dialogue :=
  match h.definition.roleOf npc with
  | some .giver => h.talkGiver level record
  | some .turnIn => h.talkTurnIn record
  | some (.monster _) => .noQuest
  | none => .noQuest

def accept (player : PlayerId) (token : String) (r : Record) (now : Instant) : Outcome × Record :=
  match r.phase with
  | .created => (⟨some (.page token), [.playSound player .questAccept]⟩, r.start collecting now)
  | .started => (.say (.page token), r)
  | .completed => (.say .alreadyCompleted, r)

/-- Pays, takes the items back and ends the quest, when it is started. -/
def turnIn (h : Hunt) (player : PlayerId) (token : String) (r : Record) (now : Instant) : Outcome × Record :=
  match r.phase with
  | .started =>
    let reward := h.definition.reward
    let (ended, removed) := r.clearCond.exit reward.repeatable now
    let pay := Effect.reward player reward.currency (h.rates.scale reward.amount)
    let removal := if removed.isEmpty then [] else [Effect.itemsRemoved player h.definition.id removed]
    (⟨some (.page token), pay :: removal ++ [.playSound player .questFinish]⟩, ended)
  | .completed => (.say .alreadyCompleted, r)
  | .created => (.say .noQuest, r)

/-- A choice that is neither of the two tokens turns to the page of that name. -/
def choose (h : Hunt) (player : PlayerId) (token : String) (r : Record) (now : Instant) : Outcome × Record :=
  if token = h.acceptToken then accept player token r now
  else if token = h.turnInToken then h.turnIn player token r now
  else (.say (.page token), r)

end Hunt

end Questline
