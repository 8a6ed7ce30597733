import Questline.Proofs.Deed

/-!
# Grants

What the death of a monster comes to for one hunt: who may get the drop, who is drawn, and what is granted. `kill_eq` puts
the decision of a hunt together from these. They depend on the killer's party and on the records of the hunt's own quest,
and on nothing else of the sessions; a killer without a party needs no die.
-/

namespace Questline

namespace Dice

def rollAll (d : Dice) (bounds : List Nat) : Dice := ⟨d.rolls.drop bounds.length, d.asked ++ bounds⟩

@[simp] theorem rollAll_nil (d : Dice) : d.rollAll [] = d := by simp [rollAll]

@[simp] theorem rollAll_rollAll (d : Dice) (bounds bounds' : List Nat) :
    (d.rollAll bounds).rollAll bounds' = d.rollAll (bounds ++ bounds') := by
  simp [rollAll]

theorem roll_snd (d : Dice) (bound : Nat) : (d.roll bound).2 = d.rollAll [bound] := by simp [roll, rollAll]

end Dice

/-- A die is rolled when there are members to draw from, and its bound is their number. -/
theorem Arbitration.pick_snd (members : Option (List PlayerId)) (record : PlayerId → Option Record) (killer : PlayerId)
    (partyEligible soloEligible : Record → Bool) (dice : Dice) :
    (pick members record killer partyEligible soloEligible dice).2 =
      dice.rollAll ([(members.elim [] (candidates record partyEligible)).length].filter (· ≠ 0)) := by
  unfold pick
  cases members with
  | none => simp
  | some ms =>
    simp only [Option.elim_some]
    cases candidates record partyEligible ms with
    | nil => simp
    | cons c rest => simp [Dice.roll_snd]

theorem Arbitration.pick_party_fst (members : List PlayerId) (record : PlayerId → Option Record) (killer : PlayerId)
    (partyEligible soloEligible : Record → Bool) (dice : Dice) :
    (pick (some members) record killer partyEligible soloEligible dice).1 =
      (candidates record partyEligible members)[dice.rolls.headD 0]? := by
  unfold pick
  simp only
  cases candidates record partyEligible members <;> rfl

/-- A player gets so many of an item, and has the new record from then on. -/
structure Grant where
  quest : QuestId
  winner : PlayerId
  item : ItemId
  count : UInt32
  record : Record
  deriving DecidableEq, Repr

namespace Grant

def effects (g : Grant) : List Effect := [.itemGiven g.winner g.quest g.item g.count, .playSound g.winner .itemGet]

def outcome (g : Grant) : Outcome := ⟨none, g.effects⟩

/-- The record is replaced, and the effects are still to come. -/
def settle (g : Grant) (s : Sessions) : Sessions := s.modifyRecord g.winner g.quest fun _ => g.record

@[simp] theorem isNothing_outcome (g : Grant) : g.outcome.isNothing = false := rfl

@[simp] theorem effects_outcome (g : Grant) : g.outcome.effects = g.effects := rfl

theorem effects_player (g : Grant) : ∀ e ∈ g.effects, e.player = g.winner := by
  simp [effects, Effect.player]

end Grant

namespace Hunt

variable (h : Hunt) (npc : NpcId) (killer : PlayerId) (s t : Sessions) (dice : Dice)

/-- The members of the killer's party who may get what the character drops. -/
def candidates : List PlayerId :=
  match h.definition.dropFor npc with
  | none => []
  | some drop => (s.members? killer).elim [] (Arbitration.candidates (s.record? · h.definition.id) (partyEligible drop))

/-- The bounds of the dice that are rolled: of one die among the candidates, if there are any. -/
def bounds : List Nat := [(h.candidates npc killer s).length].filter (· ≠ 0)

def drawn (drop : Drop) : Option PlayerId :=
  (Arbitration.pick (s.members? killer) (s.record? · h.definition.id) killer (partyEligible drop) (soloEligible drop)
    dice).1

def granted (drop : Drop) (winner : PlayerId) (r : Record) : Option Grant :=
  if (r.give drop.item drop.count drop.max).2 = 0 then none
  else some
    { quest := h.definition.id
      winner
      item := drop.item
      count := (r.give drop.item drop.count drop.max).2
      record := (r.give drop.item drop.count drop.max).1 }

/-- What the death of the character brings. -/
def grant? : Option Grant :=
  (h.definition.dropFor npc).bind fun drop =>
    (h.drawn killer s dice drop).bind fun winner =>
      (s.record? winner h.definition.id).bind fun r => h.granted drop winner r

/-- A hunt decides by its grant, and rolls a die only when there are candidates. -/
theorem kill_eq : h.kill npc killer s dice =
    ((h.grant? npc killer s dice).elim .nothing Grant.outcome, (h.grant? npc killer s dice).elim s (·.settle s),
      dice.rollAll (h.bounds npc killer s)) := by
  unfold kill grant? bounds candidates
  cases h.definition.dropFor npc with
  | none => simp
  | some drop =>
    simp only [Option.bind_some, Arbitration.pick_snd]
    rw [← drawn]
    cases h.drawn killer s dice drop with
    | none => rfl
    | some winner =>
      cases hr : s.record? winner h.definition.id with
      | none => simp only [hr, Option.bind_some, Option.bind_none, Option.elim_none]
      | some r =>
        simp only [hr, Option.bind_some, granted]
        split <;> rfl

variable {h npc killer s t dice}

theorem kill_outcome : (h.kill npc killer s dice).1 = (h.grant? npc killer s dice).elim .nothing Grant.outcome := by
  rw [kill_eq]

theorem kill_sessions : (h.kill npc killer s dice).2.1 = (h.grant? npc killer s dice).elim s (·.settle s) := by
  rw [kill_eq]

theorem grant?_eq_some {g : Grant} (hg : h.grant? npc killer s dice = some g) :
    g.quest = h.definition.id ∧ ∃ drop r, h.definition.dropFor npc = some drop ∧
      h.drawn killer s dice drop = some g.winner ∧ s.record? g.winner h.definition.id = some r ∧
      h.granted drop g.winner r = some g := by
  unfold grant? at hg
  simp only [Option.bind_eq_some_iff] at hg
  obtain ⟨drop, hd, winner, hw, r, hr, hg⟩ := hg
  have hgrant := hg
  unfold granted at hg
  split at hg
  · cases hg
  · cases hg
    exact ⟨rfl, drop, r, hd, hw, hr, hgrant⟩

theorem record?_of_drawn {drop : Drop} {winner : PlayerId} (hw : h.drawn killer s dice drop = some winner) :
    ∃ r, s.record? winner h.definition.id = some r := by
  rcases Index.pick_eq_some hw with ⟨-, -, -, he⟩ | ⟨-, -, he⟩
  · exact Option.isSome_iff_exists.1 (Option.isSome_of_any he)
  · exact Option.isSome_iff_exists.1 (Option.isSome_of_any he)

/-- For the quest the two sessions look the same: the killer is in the same company, and the records of the quest are
the same. -/
structure Alike (quest : QuestId) (killer : PlayerId) (s t : Sessions) : Prop where
  members? : t.members? killer = s.members? killer
  record? : ∀ player, t.record? player quest = s.record? player quest

theorem grant?_congr (ha : Alike h.definition.id killer s t) (npc : NpcId) (dice : Dice) :
    h.grant? npc killer t dice = h.grant? npc killer s dice := by
  unfold grant? drawn
  simp only [ha.members?, ha.record?]

theorem bounds_congr (ha : Alike h.definition.id killer s t) (npc : NpcId) :
    h.bounds npc killer t = h.bounds npc killer s := by
  unfold bounds candidates
  simp only [ha.members?, ha.record?]

theorem bounds_alone (hs : s.members? killer = none) (npc : NpcId) : h.bounds npc killer s = [] := by
  unfold bounds candidates
  rw [hs]
  split <;> rfl

theorem drawn_alone (hs : s.members? killer = none) (dice : Dice) (drop : Drop) :
    h.drawn killer s dice drop =
      if (s.record? killer h.definition.id).any (soloEligible drop) then some killer else none := by
  unfold drawn
  rw [hs]
  rfl

/-- Without a party a hunt decides by the killer's own record, and the die does not matter. -/
theorem grant?_own (hs : s.members? killer = none) (ht : t.members? killer = none)
    (hr : t.record? killer h.definition.id = s.record? killer h.definition.id) (npc : NpcId) (dice dice' : Dice) :
    h.grant? npc killer t dice' = h.grant? npc killer s dice := by
  unfold grant?
  simp only [drawn_alone hs, drawn_alone ht, hr]
  cases h.definition.dropFor npc with
  | none => rfl
  | some drop =>
    simp only [Option.bind_some]
    split
    · simp only [Option.bind_some, hr]
    · rfl

theorem winner_alone (hs : s.members? killer = none) {g : Grant} (hg : h.grant? npc killer s dice = some g) :
    g.winner = killer := by
  obtain ⟨-, drop, -, -, hw, -⟩ := grant?_eq_some hg
  rw [drawn_alone hs] at hw
  split at hw
  · exact (Option.some.inj hw).symm
  · cases hw

end Hunt

end Questline
