import Questline.Proofs.Grant
import Questline.Proofs.Items
import Questline.Proofs.Schuttgart

/-!
# What a kill changes

The death of a monster changes one number at most: how many of the dropped item the record of one player counts. What is
reported is the difference. In a party it does not matter who of them dealt the blow, since the killer takes part in the
draw as a member and in no other way.
-/

namespace Questline

/-- The sessions differ in how many of an item a player's record of a quest counts, and in nothing else. -/
structure Sessions.Recounts (player : PlayerId) (quest : QuestId) (item : ItemId) (r r' : Record) (s s' : Sessions) :
    Prop where
  before : s.record? player quest = some r
  after : s'.record? player quest = some r'
  record : r' = { r with items := r'.items }
  keys : ∀ other, r'.items.contains other = r.items.contains other
  counts : ∀ other, other ≠ item → r'.count other = r.count other
  journal : ∀ other, other ≠ quest → s'.record? player other = s.record? player other
  session : ∃ p p', s.players.get? player = some p ∧ s'.players.get? player = some p' ∧ p' = { p with journal := p'.journal }
  players : ∀ other, other ≠ player → s'.players.get? other = s.players.get? other
  parties : s'.parties = s.parties
  nextParty : s'.nextParty = s.nextParty
  log : s'.log = s.log

theorem Sessions.recounts_give {s : Sessions} {player : PlayerId} {quest : QuestId} {r : Record}
    (hr : s.record? player quest = some r) (item : ItemId) (count max : UInt32) :
    Recounts player quest item r (r.give item count max).1 s
      (s.modifyRecord player quest fun _ => (r.give item count max).1) where
  before := hr
  after := by simp [record?_modifyRecord, hr]
  record := by
    obtain ⟨items, he⟩ := Record.give_eq r item count max
    rw [he]
  keys other := Record.contains_give r item other count max
  counts other ho := Record.count_give_of_ne r ho.symm count max
  journal other ho := by simp [record?_modifyRecord, ho.symm]
  session := by
    obtain ⟨p, hp, -⟩ := Option.bind_eq_some_iff.1 hr
    refine ⟨p, { p with journal := p.journal.modify quest fun _ => (r.give item count max).1 }, hp, ?_, rfl⟩
    rw [modifyRecord, get?_modifyPlayer, if_pos rfl, hp, Option.map_some]
  players other ho := by rw [modifyRecord, get?_modifyPlayer, if_neg ho.symm]
  parties := rfl
  nextParty := rfl
  log := rfl

namespace Hunt

variable {h : Hunt} {npc : NpcId} {killer : PlayerId} {s t : Sessions} {dice : Dice} {drop : Drop} {winner : PlayerId}
  {r : Record}

/-- One player whose quest is started and who has room for the drop is given some of it: the killer, or in a party a
member who is collecting. -/
structure Awards (h : Hunt) (npc : NpcId) (killer : PlayerId) (s : Sessions) (drop : Drop) (winner : PlayerId)
    (r r' : Record) (o : Outcome) (s' : Sessions) : Prop where
  drops : h.definition.dropFor npc = some drop
  entitled : (∃ ms, s.members? killer = some ms ∧ winner ∈ ms ∧ r.cond = some collecting) ∨
    s.members? killer = none ∧ winner = killer
  started : r.phase = .started
  misses : r.count drop.item < drop.max
  recounts : Sessions.Recounts winner h.definition.id drop.item r r' s s'
  gains : r.count drop.item < r'.count drop.item
  count : (r'.count drop.item).toNat = min ((r.count drop.item).toNat + drop.count.toNat) drop.max.toNat
  outcome : o = ⟨none, [.itemGiven winner h.definition.id drop.item (r'.count drop.item - r.count drop.item),
    .playSound winner .itemGet]⟩

theorem granted_eq_some {g : Grant} : h.granted drop winner r = some g ↔
    (r.give drop.item drop.count drop.max).2 ≠ 0 ∧
      (⟨h.definition.id, winner, drop.item, (r.give drop.item drop.count drop.max).2,
        (r.give drop.item drop.count drop.max).1⟩ : Grant) = g := by
  simp [granted]

theorem awards_of_grant {g : Grant} (hg : h.grant? npc killer s dice = some g) :
    ∃ drop r, h.Awards npc killer s drop g.winner r g.record g.outcome (g.settle s) := by
  obtain ⟨-, drop, r, hd, hw, hr, hgrant⟩ := grant?_eq_some hg
  obtain ⟨quest, winner, item, count, record⟩ := g
  obtain ⟨hne, he⟩ := granted_eq_some.1 hgrant
  cases he
  obtain ⟨hentitled, hstarted, hmisses⟩ := Index.entitled_of_pick hr hw
  exact ⟨drop, r, {
    drops := hd
    entitled := hentitled
    started := hstarted
    misses := hmisses
    recounts := Sessions.recounts_give hr drop.item drop.count drop.max
    gains := Record.lt_count_give hne
    count := Record.toNat_count_give_of_contains (Record.contains_of_give hne) (UInt32.le_of_lt hmisses) drop.count
    outcome := by
      rw [← Record.give_eq_sub]
      rfl }⟩

theorem Awards.ne {r' : Record} {o : Outcome} {s' : Sessions} (ha : h.Awards npc killer s drop winner r r' o s') :
    s' ≠ s := by
  rintro rfl
  obtain rfl := Option.some.inj (ha.recounts.before.symm.trans ha.recounts.after)
  exact absurd ha.gains (UInt32.lt_irrefl _)

theorem kill_sessions_eq_iff : (h.kill npc killer s dice).2.1 = s ↔ (h.kill npc killer s dice).1 = .nothing := by
  rw [kill_eq]
  cases hg : h.grant? npc killer s dice with
  | none => simp
  | some g =>
    obtain ⟨drop, r, ha⟩ := awards_of_grant hg
    exact iff_of_false ha.ne nofun

theorem awards_of_kill (hne : (h.kill npc killer s dice).2.1 ≠ s) :
    ∃ drop winner r r', h.Awards npc killer s drop winner r r' (h.kill npc killer s dice).1
      (h.kill npc killer s dice).2.1 := by
  rw [kill_eq] at hne ⊢
  cases hg : h.grant? npc killer s dice with
  | none =>
    rw [hg] at hne
    exact absurd rfl hne
  | some g =>
    obtain ⟨drop, r, ha⟩ := awards_of_grant hg
    exact ⟨drop, g.winner, r, g.record, ha⟩

theorem kill_dice : (h.kill npc killer s dice).2.2 = dice ∨
    ∃ bound, (h.kill npc killer s dice).2.2 = (dice.roll bound).2 := by
  rw [kill_eq, bounds]
  by_cases hz : (h.candidates npc killer s).length = 0
  · simp [hz]
  · exact .inr ⟨(h.candidates npc killer s).length, by simp [hz, Dice.roll_snd]⟩

/-- Whoever of a party is the killer, and whatever the sessions hold beyond the records of its members, the same member
is given the same. -/
theorem grant?_company {ms : List PlayerId} {killer' : PlayerId} (hs : s.members? killer = some ms)
    (ht : t.members? killer' = some ms)
    (hr : ∀ m ∈ ms, t.record? m h.definition.id = s.record? m h.definition.id) (npc : NpcId) (dice : Dice) :
    h.grant? npc killer' t dice = h.grant? npc killer s dice ∧ h.bounds npc killer' t = h.bounds npc killer s := by
  have hcandidates : ∀ drop, Arbitration.candidates (t.record? · h.definition.id) (partyEligible drop) ms =
      Arbitration.candidates (s.record? · h.definition.id) (partyEligible drop) ms := fun drop =>
    List.filter_congr fun m hm => by simp only [hr m hm]
  constructor
  · unfold grant? drawn
    simp only [hs, ht, Arbitration.pick_party_fst, hcandidates]
    refine Option.bind_congr fun drop _ => Option.bind_congr fun winner hw => ?_
    have hm : winner ∈ ms := (List.mem_filter.1 (List.mem_of_getElem? hw)).1
    rw [hr winner hm]
  · unfold bounds candidates
    simp only [hs, ht, Option.elim_some, hcandidates]

/-- So the killer matters as a member at most. -/
theorem kill_company {ms : List PlayerId} {killer' : PlayerId} (hs : s.members? killer = some ms)
    (ht : t.members? killer' = some ms)
    (hr : ∀ m ∈ ms, t.record? m h.definition.id = s.record? m h.definition.id) (npc : NpcId) (dice : Dice) :
    (h.kill npc killer' t dice).1 = (h.kill npc killer s dice).1 ∧
      (h.kill npc killer' t dice).2.2 = (h.kill npc killer s dice).2.2 ∧
      ∀ m ∈ ms, (h.kill npc killer' t dice).2.1.record? m h.definition.id =
        (h.kill npc killer s dice).2.1.record? m h.definition.id := by
  obtain ⟨hgrant, hbounds⟩ := grant?_company hs ht hr npc dice
  rw [kill_eq, kill_eq, hgrant, hbounds]
  refine ⟨rfl, rfl, fun m hm => ?_⟩
  cases h.grant? npc killer s dice with
  | none => exact hr m hm
  | some g => simp [Grant.settle, Sessions.record?_modifyRecord, hr m hm]

/-- A kill that brings nothing leaves the sessions alone, and otherwise one player is awarded some of the drop: one count
of one record grows, by what is reported and up to the cap. The die is rolled once at most. A character without a drop
changes nothing at all. In a party, only the records of the members matter. -/
theorem kill_one_grant (h : Hunt) (npc : NpcId) (killer : PlayerId) (s : Sessions) (dice : Dice) :
    let k := h.kill npc killer s dice
    (k.2.1 = s ↔ k.1 = .nothing) ∧
    (k.2.1 ≠ s → ∃ drop winner r r', h.Awards npc killer s drop winner r r' k.1 k.2.1) ∧
    (k.2.2 = dice ∨ ∃ bound, k.2.2 = (dice.roll bound).2) ∧
    (h.definition.dropFor npc = none → k = (.nothing, s, dice)) ∧
    ∀ ms killer' t, s.members? killer = some ms → t.members? killer' = some ms →
      (∀ m ∈ ms, t.record? m h.definition.id = s.record? m h.definition.id) →
        (h.kill npc killer' t dice).1 = k.1 ∧ (h.kill npc killer' t dice).2.2 = k.2.2 ∧
          ∀ m ∈ ms, (h.kill npc killer' t dice).2.1.record? m h.definition.id = k.2.1.record? m h.definition.id := by
  intro k
  refine ⟨kill_sessions_eq_iff, awards_of_kill, kill_dice, fun hd => ?_, fun ms killer' t hs ht hr => ?_⟩
  · simp only [k, kill, hd]
  · exact kill_company hs ht hr npc dice

/-- Killed by one who is not on the quest, the monster drops three for a member who has room for one. It would have been
the same had that member killed it. -/
theorem kill_one_grant_capped :
    let drop : Drop := ⟨⟨18571⟩, ⟨13838⟩, 3, 5⟩
    let h : Hunt := ⟨{ Definition.schuttgart with drops := [drop, ⟨⟨18573⟩, ⟨13839⟩, 1, 1⟩] }, .default⟩
    let r : Record :=
      { Record.fresh ⟨10280⟩ [] with
        phase := .started, cond := some collecting, items := .ofList [(⟨13838⟩, 4), (⟨13839⟩, 0)] }
    let member : Session := { Session.fresh 60 with party := some ⟨1⟩ }
    let s : Sessions :=
      ⟨.ofList [("a", member), ("b", { member with journal := Journal.empty.enter r })],
        .ofList [(⟨1⟩, ["a", "b"])], ⟨2⟩, []⟩
    let k := h.kill ⟨18571⟩ "a" s (.ofRolls [0])
    Definition.ofDraft h.definition.toDraft = .ok h.definition ∧
      k.1 = ⟨none, [.itemGiven "b" ⟨10280⟩ ⟨13838⟩ 1, .playSound "b" .itemGet]⟩ ∧
      (∃ drop winner r r', h.Awards ⟨18571⟩ "a" s drop winner r r' k.1 k.2.1) ∧
      (h.kill ⟨18571⟩ "b" s (.ofRolls [0])).1 = k.1 := by
  intro drop h r member s k
  have hone := kill_one_grant h ⟨18571⟩ "a" s (.ofRolls [0])
  have hchanged : k.2.1 ≠ s := by decide +kernel
  have hcompany : s.members? "a" = some ["a", "b"] ∧ s.members? "b" = some ["a", "b"] := by decide +kernel
  refine ⟨rfl, by decide +kernel, hone.2.1 hchanged, ?_⟩
  exact (hone.2.2.2.2 ["a", "b"] "b" s hcompany.1 hcompany.2 fun _ _ => rfl).1

end Hunt

end Questline
