import Questline.Proofs.Acceptance
import Questline.Proofs.Grant
import Questline.Proofs.Served
import Questline.Proofs.Shape

/-!
# What a drawn player gets

A player is drawn for a drop whose record counts less of the item than may be held, and an item that the record does not
know counts as none. But such an item is never granted. Which items a record knows was settled when it was entered, by the
definition of its quest at that time; so a player is drawn for nothing exactly when the quest has got the item since then.
`Play.drawn_for_nothing` shows that this can happen while another member of the party could have had the drop.
-/

namespace Questline

namespace Hunt

variable {h : Hunt} {npc : NpcId} {killer winner : PlayerId} {s : Sessions} {dice : Dice} {drop : Drop} {r : Record}

theorem misses_of_drawn (hw : h.drawn killer s dice drop = some winner) (hr : s.record? winner h.definition.id = some r) :
    r.count drop.item < drop.max :=
  (Index.entitled_of_pick hr hw).2.2

/-- The winner gets some of the drop, and just that is reported. -/
structure Served (h : Hunt) (npc : NpcId) (killer : PlayerId) (s : Sessions) (dice : Dice) (drop : Drop)
    (winner : PlayerId) (r : Record) : Prop where
  granted : (r.give drop.item drop.count drop.max).2 ≠ 0
  outcome : (h.kill npc killer s dice).1 =
    ⟨none, [.itemGiven winner h.definition.id drop.item (r.give drop.item drop.count drop.max).2,
      .playSound winner .itemGet]⟩
  record : (h.kill npc killer s dice).2.1 =
    s.modifyRecord winner h.definition.id fun _ => (r.give drop.item drop.count drop.max).1

/-- A drawn player whose record knows the item is served; and otherwise nothing happens. -/
theorem served_or_nothing (hd : h.definition.dropFor npc = some drop) (hc : drop.count ≠ 0)
    (hw : h.drawn killer s dice drop = some winner) (hr : s.record? winner h.definition.id = some r) :
    if r.items.contains drop.item then h.Served npc killer s dice drop winner r
    else (h.kill npc killer s dice).1 = .nothing ∧ (h.kill npc killer s dice).2.1 = s := by
  have hgrant : h.grant? npc killer s dice = h.granted drop winner r := by
    simp only [grant?, hd, hw, hr, Option.bind_some]
  have hiff := Record.give_ne_zero_iff hc (misses_of_drawn hw hr)
  split
  · next hk =>
    have hsome := hiff.2 hk
    unfold granted at hgrant
    rw [if_neg hsome] at hgrant
    exact ⟨hsome, by rw [kill_outcome, hgrant]; rfl, by rw [kill_sessions, hgrant]; rfl⟩
  · next hk =>
    have hnone := Decidable.not_not.1 (mt hiff.1 hk)
    unfold granted at hgrant
    rw [if_pos hnone] at hgrant
    exact ⟨by rw [kill_outcome, hgrant]; rfl, by rw [kill_sessions, hgrant]; rfl⟩

/-- The quest with one other item to collect. -/
def renewed : Hunt :=
  { Hunt.schuttgart .default with
    definition :=
      { Definition.schuttgart with
        questItems := [⟨13840⟩]
        drops := [⟨⟨18571⟩, ⟨13840⟩, 1, 1⟩]
        roles := .ofList [(⟨18571⟩, .monster ⟨13840⟩), (⟨31972⟩, .turnIn), (⟨31981⟩, .giver)] } }

theorem accepted_renewed : renewed.definition.Accepted := ⟨renewed.definition.toDraft, rfl⟩

end Hunt

namespace Play

variable {start w : World} {turns : List Turn}

/-- A record knows the items that the quest had when the record was entered. -/
theorem contains_since {since before : List Turn} {m : Turn} (h : Play start (since ++ m :: before) w) {player : PlayerId}
    {quest : QuestId} {g : Hunt} {level : Int32} (hm : m.Enters player quest g level)
    (hl : ∀ t ∈ since, t.command ≠ .leave player) {r : Record} (hr : w.sessions.record? player quest = some r)
    (item : ItemId) : r.items.contains item ↔ item ∈ g.definition.questItems := by
  obtain ⟨r', hr', hitems⟩ := h.resume.contains_stays hm.entered hl
  obtain rfl := Option.some.inj (hr.symm.trans hr')
  rw [hitems, Record.contains_fresh]

theorem contains_iff_entered (h : Play start turns w) (ha : start.registry.Arises) {player : PlayerId} {quest : QuestId}
    (hs : start.sessions.record? player quest = none) {r : Record} (hr : w.sessions.record? player quest = some r) :
    ∃ since m before g level, turns = since ++ m :: before ∧ (∀ t ∈ since, t.command ≠ .leave player) ∧
      m.Enters player quest g level ∧ ∀ item, r.items.contains item ↔ item ∈ g.definition.questItems := by
  obtain ⟨since, m, before, g, level, rfl, hsince, henters⟩ := h.entered ha hs hr
  exact ⟨since, m, before, g, level, rfl, hsince, henters, h.contains_since henters hsince hr⟩

/-- Whatever is played from an empty start, a player who is drawn for a drop has a record of the quest, which was entered
at a talk of that player, who has not left since. The player is served exactly when the item of the drop was among the
items of the quest at that talk, and otherwise nothing happens. So every drawn player is served whose record is as old as
the items of the quest. -/
theorem drawn_served_iff {registry : Registry} {dice : Dice} (h : Play ⟨registry, .empty, dice⟩ turns w)
    (ha : registry.Arises) (hc : registry.index.Checked) {g : Hunt} {npc : NpcId} {drop : Drop}
    (hg : g ∈ w.registry.index.killHunts npc) (hd : g.definition.dropFor npc = some drop) {killer winner : PlayerId}
    {rolls : Dice} (hw : g.drawn killer w.sessions rolls drop = some winner) :
    ∃ r since m before g₀ level₀, w.sessions.record? winner g.definition.id = some r ∧
      turns = since ++ m :: before ∧ (∀ t ∈ since, t.command ≠ .leave winner) ∧
      m.Enters winner g.definition.id g₀ level₀ ∧
      (g.Served npc killer w.sessions rolls drop winner r ↔ drop.item ∈ g₀.definition.questItems) ∧
      (drop.item ∉ g₀.definition.questItems →
        (g.kill npc killer w.sessions rolls).1 = .nothing ∧ (g.kill npc killer w.sessions rolls).2.1 = w.sessions) ∧
      (g₀.definition.questItems = g.definition.questItems → drop.item ∈ g₀.definition.questItems) := by
  obtain ⟨quest, hquest⟩ := Index.serves_of_mem_huntsFor hg
  obtain ⟨draft, hdraft⟩ := h.checked hc quest g hquest
  have hsound := Definition.sound_of_ofDraft hdraft
  have hdrop : drop ∈ g.definition.drops := List.mem_of_find?_eq_some hd
  obtain ⟨r, hr⟩ := Hunt.record?_of_drawn hw
  obtain ⟨since, m, before, g₀, level₀, hturns, hsince, henters, hitems⟩ := h.contains_iff_entered ha rfl hr
  have hall := Hunt.served_or_nothing hd (hsound.counted drop hdrop).1 hw hr
  refine ⟨r, since, m, before, g₀, level₀, hr, hturns, hsince, henters, ?_, fun hk => ?_, fun he => ?_⟩
  · rw [← hitems]
    constructor
    · intro hserved
      exact (Record.give_ne_zero_iff (hsound.counted drop hdrop).1 (Hunt.misses_of_drawn hw hr)).1 hserved.granted
    · intro hk
      rwa [if_pos hk] at hall
  · rwa [if_neg fun hc => hk ((hitems _).1 hc)] at hall
  · rw [he]
    exact hsound.known drop hdrop

/-- A party of two at the time when their quest is renewed: the one has met the giver before, the other afterwards. -/
theorem renewed_party :
    let drop : Drop := ⟨⟨18571⟩, ⟨13840⟩, 1, 1⟩
    ∃ turns w, Play .schuttgart turns w ∧ ∃ g ∈ w.registry.index.killHunts ⟨18571⟩, g.definition.id = ⟨10280⟩ ∧
      g.definition.dropFor ⟨18571⟩ = some drop ∧
      g.drawn "a" w.sessions (.ofRolls [0]) drop = some "a" ∧ (g.kill ⟨18571⟩ "a" w.sessions (.ofRolls [0])).1 = .nothing ∧
      g.drawn "a" w.sessions (.ofRolls [1]) drop = some "b" ∧
      (g.kill ⟨18571⟩ "a" w.sessions (.ofRolls [1])).1 =
        ⟨none, [.itemGiven "b" ⟨10280⟩ ⟨13840⟩ 1, .playSound "b" .itemGet]⟩ := by
  intro drop
  obtain ⟨⟨turns, w⟩, hc, hk⟩ : ∃ q, carryOut [] .schuttgart [(.epoch, .join "a" 60), (.epoch, .join "b" 60),
      (.epoch, .talk "a" ⟨31981⟩), (.epoch, .register .renewed Hunt.accepted_renewed), (.epoch, .talk "b" ⟨31981⟩),
      (.epoch, .choose "a" ⟨10280⟩ "31981-03.htm"), (.epoch, .choose "b" ⟨10280⟩ "31981-03.htm"),
      (.epoch, .formParty ["a", "b"])] = q ∧
        ∃ g ∈ q.2.registry.index.killHunts ⟨18571⟩, g.definition.id = ⟨10280⟩ ∧
          g.definition.dropFor ⟨18571⟩ = some drop ∧ g.drawn "a" q.2.sessions (.ofRolls [0]) drop = some "a" ∧
          (g.kill ⟨18571⟩ "a" q.2.sessions (.ofRolls [0])).1 = .nothing ∧
          g.drawn "a" q.2.sessions (.ofRolls [1]) drop = some "b" ∧
          (g.kill ⟨18571⟩ "a" q.2.sessions (.ofRolls [1])).1 =
            ⟨none, [.itemGiven "b" ⟨10280⟩ ⟨13840⟩ 1, .playSound "b" .itemGet]⟩ :=
    ⟨_, rfl, by decide +kernel⟩
  exact ⟨turns, w, of_carryOut .nil hc, hk⟩

/-- The second of the two is served, so the quest had the new item when that player met the giver. -/
theorem drawn_served_iff_renewed :
    let drop : Drop := ⟨⟨18571⟩, ⟨13840⟩, 1, 1⟩
    World.schuttgart.registry.Arises ∧ World.schuttgart.registry.index.Checked ∧
    ∃ turns w, Play .schuttgart turns w ∧ ∃ g ∈ w.registry.index.killHunts ⟨18571⟩,
      g.definition.dropFor ⟨18571⟩ = some drop ∧ g.drawn "a" w.sessions (.ofRolls [1]) drop = some "b" ∧
      ∃ r, g.Served ⟨18571⟩ "a" w.sessions (.ofRolls [1]) drop "b" r ∧
        ∃ m ∈ turns, ∃ g₀ level₀, m.Enters "b" ⟨10280⟩ g₀ level₀ ∧ ⟨13840⟩ ∈ g₀.definition.questItems := by
  intro drop
  have ha : World.schuttgart.registry.Arises := .register _ (.empty _)
  refine ⟨ha, World.checked_schuttgart, ?_⟩
  obtain ⟨turns, w, hplay, g, hg, hid, hdrop, -, -, hdrawn, hkill⟩ := renewed_party
  have hall : Play ⟨World.schuttgart.registry, .empty, .ofRolls []⟩ turns w := hplay
  obtain ⟨r, since, m, before, g₀, level₀, hr, hturns, -, henters, hiff, hnothing, -⟩ :=
    drawn_served_iff hall ha World.checked_schuttgart hg hdrop hdrawn
  have hknown : drop.item ∈ g₀.definition.questItems := Decidable.byContradiction fun hn => by
    have hempty := (hnothing hn).1
    rw [hkill] at hempty
    cases hempty
  have hm : m ∈ turns := hturns ▸ List.mem_append_right since List.mem_cons_self
  exact ⟨turns, w, hplay, g, hg, hdrop, hdrawn, r, hiff.2 hknown, m, hm, g₀, level₀, hid ▸ henters, hknown⟩

/-- A member of a party is drawn for a drop and gets nothing, although the other one would get it. -/
theorem drawn_for_nothing :
    ∃ turns w, Play .schuttgart turns w ∧ ∃ g ∈ w.registry.index.killHunts ⟨18571⟩, ∃ drop,
      g.definition.dropFor ⟨18571⟩ = some drop ∧ g.drawn "a" w.sessions (.ofRolls [0]) drop = some "a" ∧
      (g.kill ⟨18571⟩ "a" w.sessions (.ofRolls [0])).1 = .nothing ∧
      (∀ r, ¬ g.Served ⟨18571⟩ "a" w.sessions (.ofRolls [0]) drop "a" r) ∧
      g.drawn "a" w.sessions (.ofRolls [1]) drop = some "b" ∧
      (g.kill ⟨18571⟩ "a" w.sessions (.ofRolls [1])).1 =
        ⟨none, [.itemGiven "b" ⟨10280⟩ ⟨13840⟩ 1, .playSound "b" .itemGet]⟩ := by
  obtain ⟨turns, w, hplay, g, hg, -, hdrop, hfirst, hnothing, hsecond, hkill⟩ := renewed_party
  refine ⟨turns, w, hplay, g, hg, _, hdrop, hfirst, hnothing, fun r hserved => ?_, hsecond, hkill⟩
  have hempty := hserved.outcome
  rw [hnothing] at hempty
  cases hempty

end Play

end Questline
