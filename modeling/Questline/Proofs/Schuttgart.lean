import Questline.Hunt.Loading
import Questline.World

/-!
The quest that comes with the program, as a draft and as a hunt: two monsters, a giver and a turn-in character. A
world that serves it and nothing else is at hand for examples. So is the same quest with other rewards, one of them so great
that no player has room for it twice.
-/

namespace Questline

def Draft.schuttgart : Draft where
  id := ⟨10280⟩
  name := "Mutated Kaneus - Schuttgart"
  description := "Collect tissue samples from Venomous Storace and Kel Bilette and bring them to Atraxia."
  script := "mutated_kaneus"
  levelRequired := 58
  startNpcs := [⟨31981⟩]
  talkNpcs := [⟨31981⟩, ⟨31972⟩]
  questItems := [⟨13838⟩, ⟨13839⟩]
  giver := ⟨31981⟩
  turnIn := ⟨31972⟩
  drops := [⟨⟨18571⟩, ⟨13838⟩, 1, 1⟩, ⟨⟨18573⟩, ⟨13839⟩, 1, 1⟩]
  reward := ⟨⟨57⟩, 210000, false⟩

def Definition.schuttgart : Definition where
  toDraft := .schuttgart
  roles := .ofList [(⟨18571⟩, .monster ⟨13838⟩), (⟨18573⟩, .monster ⟨13839⟩), (⟨31972⟩, .turnIn), (⟨31981⟩, .giver)]

def Hunt.schuttgart (rates : Rates) : Hunt := ⟨.schuttgart, rates⟩

def World.schuttgart : World := ⟨(Registry.empty .default).register (.schuttgart .default), .empty, .ofRolls []⟩

def Instant.epoch : Instant := ⟨⟨1970, 1, 1, by decide⟩, 0, 0, 0, 0, by decide⟩

theorem Definition.ofDraft_schuttgart : Definition.ofDraft .schuttgart = .ok .schuttgart := by
  rfl

/-- The quest with another amount, again and again. -/
def Hunt.offering (amount : Int64) : Hunt :=
  { Hunt.schuttgart .default with definition := { Definition.schuttgart with reward := ⟨⟨57⟩, amount, true⟩ } }

theorem Hunt.accepted_offering (amount : Int64) : (offering amount).definition.Accepted :=
  ⟨(offering amount).definition.toDraft, rfl⟩

end Questline
