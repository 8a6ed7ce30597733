import Mathlib.Data.Finset.Card
import Mathlib.Data.Set.Function
import Questline.Proofs.Grant

/-!
# Draws are fair

In a party the drop goes to one of the members who are eligible, and the die says to which one, by their places. Each of
them answers to exactly one roll within the bound, so a die that prefers no roll prefers no member; a roll beyond the bound
is nobody's. A killer without a party needs no die.
-/

namespace Questline

/-- The die whose next roll is known. -/
def Dice.showing (d : Dice) (roll : Nat) : Dice := ⟨roll :: d.rolls, d.asked⟩

theorem bijOn_getElem? {α : Type} {l : List α} (h : l.Nodup) :
    Set.BijOn (fun i => l[i]?) (Set.Iio l.length) (some '' {a | a ∈ l}) := by
  refine ⟨fun i hi => ?_, fun i hi j _ he => ?_, fun o ho => ?_⟩
  · exact ⟨l[i], List.getElem_mem hi, (List.getElem?_eq_getElem hi).symm⟩
  · exact (List.getElem?_inj hi h).1 he
  · obtain ⟨a, ha, rfl⟩ := ho
    obtain ⟨i, hi⟩ := List.mem_iff_getElem?.1 ha
    exact ⟨i, (List.getElem?_eq_some_iff.1 hi).1, hi⟩

namespace Arbitration

/-- The draw leaves each of the candidates the same chance, and nobody else any. -/
structure Fair (cs : List PlayerId) (draw : Dice → Option PlayerId × Dice) : Prop where
  /-- Every roll within the bound has a winner of its own, and every candidate wins on one of them. -/
  bijOn (dice : Dice) :
    Set.BijOn (fun roll => (draw (dice.showing roll)).1) (Set.Iio cs.length) (some '' {m | m ∈ cs})
  chance (dice : Dice) :
    ∀ m ∈ cs, ((Finset.range cs.length).filter fun roll => (draw (dice.showing roll)).1 = some m).card = 1
  beyond (dice : Dice) : ∀ roll, cs.length ≤ roll → (draw (dice.showing roll)).1 = none
  asked : cs ≠ [] → ∀ dice, (draw dice).2 = ⟨dice.rolls.tail, dice.asked ++ [cs.length]⟩
  undrawn : cs = [] → ∀ dice, draw dice = (none, dice)

variable (record : PlayerId → Option Record) (killer : PlayerId) (partyEligible soloEligible : Record → Bool)
variable {members : List PlayerId}

theorem mem_candidates {player : PlayerId} : player ∈ candidates record partyEligible members ↔
    player ∈ members ∧ ∃ r, record player = some r ∧ partyEligible r := by
  simp [candidates, Option.any_eq_true]

theorem fair_pick (h : members.Nodup) : Fair (candidates record partyEligible members)
    (pick (some members) record killer partyEligible soloEligible) := by
  have hwinner : ∀ (dice : Dice) (roll : Nat),
      (pick (some members) record killer partyEligible soloEligible (dice.showing roll)).1 =
        (candidates record partyEligible members)[roll]? := fun dice roll =>
    pick_party_fst members record killer partyEligible soloEligible (dice.showing roll)
  have hnodup : (candidates record partyEligible members).Nodup := h.filter _
  have hbij := bijOn_getElem? hnodup
  constructor
  · intro dice
    simpa only [hwinner] using hbij
  · intro dice m hm
    obtain ⟨roll, hroll, he⟩ := hbij.surjOn ⟨m, hm, rfl⟩
    refine Finset.card_eq_one.2 ⟨roll, Finset.ext fun other => ?_⟩
    simp only [hwinner, Finset.mem_filter, Finset.mem_range, Finset.mem_singleton]
    constructor
    · rintro ⟨hother, ho⟩
      exact hbij.injOn hother hroll (ho.trans he.symm)
    · rintro rfl
      exact ⟨hroll, he⟩
  · intro dice roll hroll
    rw [hwinner, List.getElem?_eq_none_iff.2 hroll]
  · intro hne dice
    simp [pick_snd, hne, Dice.rollAll]
  · intro he dice
    refine Prod.ext ?_ ?_
    · simp [pick_party_fst, he]
    · simp [pick_snd, he]

/-- Whoever keeps the records and whatever the die shows: in a party the draw is fair among the members who have a record
that is eligible, and nobody wins who is not one of them. A killer without a party wins by an eligible record, and then no
die is rolled. -/
theorem pick_fair :
    (∀ members : List PlayerId, members.Nodup →
      (candidates record partyEligible members).Sublist members ∧
      (∀ player, player ∈ candidates record partyEligible members ↔
        player ∈ members ∧ ∃ r, record player = some r ∧ partyEligible r) ∧
      Fair (candidates record partyEligible members) (pick (some members) record killer partyEligible soloEligible)) ∧
    (∀ dice, (pick none record killer partyEligible soloEligible dice).2 = dice ∧
      ∀ winner, (pick none record killer partyEligible soloEligible dice).1 = some winner ↔
        winner = killer ∧ ∃ r, record killer = some r ∧ soloEligible r) ∧
    ∀ members dice winner, (pick (some members) record killer partyEligible soloEligible dice).1 = some winner →
      winner ∈ members ∧ ∃ r, record winner = some r ∧ partyEligible r := by
  refine ⟨fun members hm => ⟨List.filter_sublist, fun player => mem_candidates record partyEligible,
    fair_pick record killer partyEligible soloEligible hm⟩, fun dice => ⟨rfl, fun winner => ?_⟩,
    fun members dice winner hw => ?_⟩
  · rw [← Option.any_eq_true, and_comm, eq_comm (a := winner)]
    simp [pick]
  · rw [pick_party_fst] at hw
    exact (mem_candidates record partyEligible).1 (List.mem_of_getElem? hw)

/-- A party of three in which the second member has not accepted the quest. The others win on a roll each. -/
theorem pick_fair_of_three :
    let started : Record := { Record.fresh ⟨10280⟩ [] with phase := .started }
    let records : Table PlayerId Record := .ofList [("a", started), ("b", .fresh ⟨10280⟩ []), ("c", started)]
    let draw := pick (some ["a", "b", "c"]) records.get? "b" Record.isStarted Record.isStarted
    ["a", "b", "c"].Nodup ∧ Fair ["a", "c"] draw ∧ (draw (.ofRolls [1])).1 = some "c" ∧
      (draw (.ofRolls [2])).1 = none ∧ (draw (.ofRolls [1])).2 = ⟨[], [2]⟩ := by
  intro started records draw
  have hnodup : ["a", "b", "c"].Nodup := by decide
  have hfair := ((pick_fair records.get? "b" Record.isStarted Record.isStarted).1 _ hnodup).2.2
  have hcandidates : candidates records.get? Record.isStarted ["a", "b", "c"] = ["a", "c"] := by decide +kernel
  rw [hcandidates] at hfair
  refine ⟨hnodup, hfair, by decide +kernel, hfair.beyond (.ofRolls []) 2 (by decide), hfair.asked (by decide) _⟩

end Arbitration

end Questline
