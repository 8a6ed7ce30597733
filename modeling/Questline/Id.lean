/-!
Numbers by which quests, characters and items are known, and the number of a party.
Each kind of number is a type of its own, so that one cannot stand for another.
-/

namespace Questline

inductive IdKind where
  | quest
  | npc
  | item
  | party
  deriving DecidableEq, Repr

structure Id (kind : IdKind) where
  number : UInt32
  deriving DecidableEq, Repr, Inhabited

abbrev QuestId := Id .quest
abbrev NpcId := Id .npc
abbrev ItemId := Id .item
abbrev PartyId := Id .party

/-- Players are known by name. -/
abbrev PlayerId := String

namespace Id

variable {kind : IdKind}

instance : Ord (Id kind) := ⟨fun a b => compare a.number b.number⟩

instance : Std.TransOrd (Id kind) where
  eq_swap {a b} :=
    show compare a.number b.number = (compare b.number a.number).swap from Std.OrientedCmp.eq_swap
  isLE_trans {a b c} hab hbc :=
    show (compare a.number c.number).isLE from
      Std.TransCmp.isLE_trans (show (compare a.number b.number).isLE from hab)
        (show (compare b.number c.number).isLE from hbc)

instance : Std.LawfulEqOrd (Id kind) where
  eq_of_compare {a b} h := by
    cases a
    cases b
    exact congrArg mk (Std.LawfulEqCmp.eq_of_compare (show compare _ _ = Ordering.eq from h))
  compare_self {a} := show compare a.number a.number = .eq from Std.ReflCmp.compare_self

instance : ToString (Id kind) := ⟨fun a => toString a.number.toNat⟩

end Id

end Questline
