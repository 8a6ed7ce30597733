import Questline.Proofs.Checks
import Questline.Proofs.Schuttgart

/-!
# Which drafts are accepted

What the checks ask does not depend on the order in which they are made: a draft is accepted exactly when it is
`Draft.Consistent`. The definition that comes of it is the draft itself with the parts of the characters, and these say no
more than the giver, the turn-in character and the drops do.
-/

namespace Questline

/-- The giver starts the quest and both characters talk of it, drops are well-formed and do not get into each other's way,
and nobody is mentioned in two parts. -/
structure Draft.Consistent (d : Draft) : Prop where
  giver_starts : d.giver ∈ d.startNpcs
  giver_talks : d.giver ∈ d.talkNpcs
  turnIn_talks : d.turnIn ∈ d.talkNpcs
  giver_ne_turnIn : d.giver ≠ d.turnIn
  drops_ne_nil : d.drops ≠ []
  known : ∀ drop ∈ d.drops, drop.item ∈ d.questItems
  counted : ∀ drop ∈ d.drops, 1 ≤ drop.count ∧ drop.count ≤ drop.max
  nodup_items : (d.drops.map (·.item)).Nodup
  nodup_npcs : (d.drops.map (·.npc)).Nodup
  monsters : ∀ drop ∈ d.drops, drop.npc ≠ d.giver ∧ drop.npc ≠ d.turnIn

namespace Definition

variable {draft : Draft} {d : Definition} {npc : NpcId} {drop : Drop}

theorem get?_leads_eq_none_iff : (leads draft).get? npc = none ↔ npc ≠ draft.giver ∧ npc ≠ draft.turnIn := by
  rw [get?_leads]
  grind

theorem exists_ofDraft_iff : (∃ d, ofDraft draft = .ok d) ↔ draft.Consistent := by
  simp only [ofDraft_eq_ok]
  constructor
  · rintro ⟨d, ⟨hstarts, htalks, hhears, hdrops, hne⟩, roles, ha, -⟩
    have h := exists_assignMonsters_iff.1 ⟨roles, ha⟩
    exact {
      giver_starts := hstarts
      giver_talks := htalks
      turnIn_talks := hhears
      giver_ne_turnIn := hne
      drops_ne_nil := hdrops
      known := h.known
      counted := fun drop hm => ⟨UInt32.pos_iff_ne_zero.2 (h.counted drop hm).1, (h.counted drop hm).2⟩
      nodup_items := h.nodup_items
      nodup_npcs := h.nodup_npcs
      monsters := fun drop hm => get?_leads_eq_none_iff.1 (h.free drop hm) }
  · intro h
    have hdrops : Assignable draft.questItems [] (leads draft) draft.drops := {
      known := h.known
      counted := fun drop hm => ⟨UInt32.pos_iff_ne_zero.1 (h.counted drop hm).1, (h.counted drop hm).2⟩
      undropped := fun _ _ => List.not_mem_nil
      free := fun drop hm => get?_leads_eq_none_iff.2 (h.monsters drop hm)
      nodup_items := h.nodup_items
      nodup_npcs := h.nodup_npcs }
    obtain ⟨roles, ha⟩ := exists_assignMonsters_iff.2 hdrops
    exact ⟨_, ⟨h.giver_starts, h.giver_talks, h.turnIn_talks, h.drops_ne_nil, h.giver_ne_turnIn⟩, roles, ha, rfl⟩

/-- Everybody has the part for which the definition names them, and nobody is named for two. -/
structure Casts (d : Definition) : Prop where
  giver : ∀ npc, d.roleOf npc = some .giver ↔ npc = d.giver
  turnIn : ∀ npc, d.roleOf npc = some .turnIn ↔ npc = d.turnIn
  monster : ∀ npc item, d.roleOf npc = some (.monster item) ↔ ∃ drop, d.dropFor npc = some drop ∧ drop.item = item
  nobody : ∀ npc, d.roleOf npc = none ↔ npc ≠ d.giver ∧ npc ≠ d.turnIn ∧ d.dropFor npc = none
  apart : d.giver ≠ d.turnIn ∧ d.dropFor d.giver = none ∧ d.dropFor d.turnIn = none

theorem dropFor_eq_none_iff : d.dropFor npc = none ↔ ∀ drop ∈ d.drops, drop.npc ≠ npc := by
  simp [dropFor]

theorem toDraft_of_ofDraft (h : ofDraft draft = .ok d) : d.toDraft = draft := by
  obtain ⟨-, roles, -, rfl⟩ := ofDraft_eq_ok.1 h
  rfl

theorem casts_of_ofDraft (h : ofDraft draft = .ok d) : d.Casts := by
  have hc := exists_ofDraft_iff.1 ⟨d, h⟩
  obtain rfl := toDraft_of_ofDraft h
  have hgiver : d.dropFor d.giver = none := dropFor_eq_none_iff.2 fun drop hm => (hc.monsters drop hm).1
  have hturnIn : d.dropFor d.turnIn = none := dropFor_eq_none_iff.2 fun drop hm => (hc.monsters drop hm).2
  have hne := hc.giver_ne_turnIn
  refine ⟨fun npc => ?_, fun npc => ?_, fun npc item => ?_, fun npc => ?_, hne, hgiver, hturnIn⟩
  all_goals
    have hrole := (sound_of_ofDraft h).roleOf npc
    cases hd : d.dropFor npc <;> grind

/-- The order of the checks does not matter: exactly the consistent drafts are accepted. All that a draft says is carried
over as it stands, and the parts of the characters follow from it. -/
theorem ofDraft_accepts_iff (draft : Draft) :
    ((∃ d, ofDraft draft = .ok d) ↔ draft.Consistent) ∧
      ∀ d, ofDraft draft = .ok d → d.toDraft = draft ∧ d.Casts :=
  ⟨exists_ofDraft_iff, fun _ h => ⟨toDraft_of_ofDraft h, casts_of_ofDraft h⟩⟩

/-- The quest that comes with the program is accepted. It is not when the turn-in character is to drop the second item. -/
theorem ofDraft_accepts_iff_schuttgart :
    let muddled : Draft := { Draft.schuttgart with drops := [⟨⟨18571⟩, ⟨13838⟩, 1, 1⟩, ⟨⟨31972⟩, ⟨13839⟩, 1, 1⟩] }
    ofDraft .schuttgart = .ok .schuttgart ∧ Draft.schuttgart.Consistent ∧ schuttgart.toDraft = .schuttgart ∧
      schuttgart.Casts ∧ ¬ ∃ d, ofDraft muddled = .ok d := by
  intro muddled
  obtain ⟨hiff, hcarried⟩ := ofDraft_accepts_iff .schuttgart
  obtain ⟨hdraft, hcasts⟩ := hcarried _ ofDraft_schuttgart
  refine ⟨ofDraft_schuttgart, hiff.1 ⟨_, ofDraft_schuttgart⟩, hdraft, hcasts, fun hok => ?_⟩
  have hmonsters := ((ofDraft_accepts_iff muddled).1.1 hok).monsters ⟨⟨31972⟩, ⟨13839⟩, 1, 1⟩ (by simp [muddled])
  exact hmonsters.2 rfl

end Definition

end Questline
