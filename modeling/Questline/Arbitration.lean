import Questline.Record

/-!
Who gets a drop: with a party one of its eligible members, drawn with a die, otherwise the killer if eligible.

Everything about the players is given as functions, so the rules hold whoever keeps the records.
-/

namespace Questline

/-- The rolls of a die that are still to come, and the bounds that were asked of it so far. A roll may lie
outside the bound; when no roll is left the die shows zero. -/
structure Dice where
  rolls : List Nat
  asked : List Nat
  deriving DecidableEq, Repr

namespace Dice

def ofRolls (rolls : List Nat) : Dice := ⟨rolls, []⟩

def roll (d : Dice) (bound : Nat) : Nat × Dice :=
  (d.rolls.headD 0, ⟨d.rolls.tail, d.asked ++ [bound]⟩)

end Dice

namespace Arbitration

def candidates (record : PlayerId → Option Record) (eligible : Record → Bool) (members : List PlayerId) :
    List PlayerId :=
  members.filter fun m => (record m).any eligible

/-- The player who gets the drop. Without a candidate no die is rolled. -/
def pick (members : Option (List PlayerId)) (record : PlayerId → Option Record) (killer : PlayerId)
    (partyEligible soloEligible : Record → Bool) (dice : Dice) : Option PlayerId × Dice :=
  match members with
  | some members =>
    match candidates record partyEligible members with
    | [] => (none, dice)
    | c :: rest =>
      let (n, dice) := dice.roll (rest.length + 1)
      ((c :: rest)[n]?, dice)
  | none => (if (record killer).any soloEligible then some killer else none, dice)

end Arbitration

end Questline
