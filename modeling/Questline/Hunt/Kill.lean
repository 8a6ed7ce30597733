import Questline.Arbitration
import Questline.Hunt
import Questline.Sessions

/-!
What the death of a monster brings to a hunt: at most one player gets at most one grant of its item.
-/

namespace Questline.Hunt

def misses (drop : Drop) (r : Record) : Bool := decide (r.count drop.item < drop.max)

def soloEligible (drop : Drop) (r : Record) : Bool := r.isStarted && misses drop r

/-- In a party the quest has to be at the collecting step, too. -/
def partyEligible (drop : Drop) (r : Record) : Bool :=
  r.isStarted && decide (r.cond = some collecting) && misses drop r

/-- Changes the record of the winner only. The effects are reported and not applied. -/
def kill (h : Hunt) (npc : NpcId) (killer : PlayerId) (s : Sessions) (dice : Dice) :
    Outcome × Sessions × Dice :=
  match h.definition.dropFor npc with
  | none => (.nothing, s, dice)
  | some drop =>
    let quest := h.definition.id
    let (winner, dice) := Arbitration.pick (s.members? killer) (s.record? · quest) killer
      (partyEligible drop) (soloEligible drop) dice
    match winner with
    | none => (.nothing, s, dice)
    | some winner =>
      match s.record? winner quest with
      | none => (.nothing, s, dice)
      | some r =>
        let (r, granted) := r.give drop.item drop.count drop.max
        if granted = 0 then (.nothing, s, dice)
        else
          (⟨none, [.itemGiven winner quest drop.item granted, .playSound winner .itemGet]⟩,
            s.modifyRecord winner quest fun _ => r, dice)

end Questline.Hunt
