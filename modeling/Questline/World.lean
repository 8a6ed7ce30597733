import Questline.Registry
import Questline.Registry.Dispatch

/-!
A world: the quests that are served, the players who are present, and the die. Commands are all that can happen
to it in play; `perform` carries one out.
-/

namespace Questline

structure World where
  registry : Registry
  sessions : Sessions
  dice : Dice
  deriving DecidableEq, Repr

inductive Command where
  | join (player : PlayerId) (level : Int32)
  | leave (player : PlayerId)
  | formParty (players : List PlayerId)
  | leaveParty (player : PlayerId)
  | talk (player : PlayerId) (npc : NpcId)
  | choose (player : PlayerId) (quest : QuestId) (token : String)
  | kill (killer : PlayerId) (npc : NpcId)
  | process (event : Event)
  | register (hunt : Hunt) (accepted : hunt.definition.Accepted)
  | load (tree : Option FileTree)
  deriving Repr

inductive Answer where
  | done
  /-- The player who left, as they were then. -/
  | left (session : Option Session)
  | party (id : Option PartyId)
  | dialogue (dialogue : Dialogue)
  | outcome (outcome : Option Outcome)
  | outcomes (outcomes : List (QuestId × Outcome))
  /-- So many quests were loaded. -/
  | loaded (count : Nat)
  | refused (reason : LoadError)
  deriving DecidableEq, Repr

namespace World

def empty (rates : Rates) (dice : Dice) : World := ⟨.empty rates, .empty, dice⟩

/-- Carries out a command at the instant `now`. A tree of files that cannot be read changes nothing. -/
def perform (w : World) (now : Instant) : Command → Attempt World (Answer × World)
  | .join player level => .ok (.done, { w with sessions := w.sessions.join player level })
  | .leave player =>
    let (sessions, session) := w.sessions.leave player
    .ok (.left session, { w with sessions })
  | .formParty players =>
    ((w.sessions.formParty players).within fun sessions => { w with sessions }).map fun (sessions, party) =>
      (.party party, { w with sessions })
  | .leaveParty player => .ok (.done, { w with sessions := w.sessions.leaveParty player })
  | .talk player npc =>
    let (dialogue, sessions) := w.registry.index.talk w.sessions player npc
    .ok (.dialogue dialogue, { w with sessions })
  | .choose player quest token =>
    ((w.registry.index.choose w.sessions player quest token now).within fun sessions => { w with sessions }).map
      fun (outcome, sessions) => (.outcome outcome, { w with sessions })
  | .kill killer npc =>
    ((w.registry.index.kill w.sessions killer npc w.dice).within fun (sessions, dice) => { w with sessions, dice }).map
      fun (outcomes, sessions, dice) => (.outcomes outcomes, { w with sessions, dice })
  | .process event =>
    ((w.registry.index.process w.sessions event now w.dice).within fun (sessions, dice) => { w with sessions, dice }).map
      fun (outcome, sessions, dice) => (.outcome (some outcome), { w with sessions, dice })
  | .register hunt _ => .ok (.done, { w with registry := w.registry.register hunt })
  | .load tree =>
    match w.registry.load tree with
    | .ok (registry, count) => .ok (.loaded count, { w with registry })
    | .error reason => .ok (.refused reason, w)

end World

end Questline
