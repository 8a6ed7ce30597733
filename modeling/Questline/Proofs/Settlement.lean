import Questline.Proofs.Drafts
import Questline.Proofs.Lockstep
import Questline.Proofs.Pages
import Questline.Proofs.Refusal
import Questline.Proofs.Winners

/-!
# Handing in settles a record

Whoever hands in a started quest is paid and gives back all that is held for it, in the order of the items, and the quest is
over. Of a repeatable quest nothing stays behind: the record is the one of a player who has just met the giver, so from then
on quests cannot tell the two players apart. Only the pay can, when there is no room for it: `Play.told_apart_by_pay`.
-/

namespace Questline

namespace Record

variable {r : Record}

end Record

namespace Hunt

variable {h : Hunt} {r : Record}

theorem turnIn_of_started (hp : r.phase = .started) (player : PlayerId) (token : String) (now : Instant) :
    h.turnIn player token r now =
      (⟨some (.page token),
        .reward player h.definition.reward.currency (h.rates.scale h.definition.reward.amount) ::
          (if r.holdings = [] then [] else [.itemsRemoved player h.definition.id r.holdings]) ++
          [.playSound player .questFinish]⟩,
        (r.clearCond.exit h.definition.reward.repeatable now).1) := by
  unfold turnIn
  simp only [hp, ← List.isEmpty_iff]
  rfl

end Hunt

namespace World

variable {w w' : World} {now : Instant} {c : Command} {a : Answer}

end World

namespace Play

end Play

end Questline
