import Questline.Proofs.Deed

/-!
# What the checks of a draft ensure

A draft becomes a definition when it passes all checks. The loop over its drops remembers which items were dropped and
which characters have a part; `Definition.Assignable` says without order what that comes to. `Definition.Sound` is what
later proofs use of an accepted definition: drops yield items of the quest, in counts that their caps allow; no two drops
yield the same item; and every character has the part that the definition names it for.
-/

namespace Questline.Definition

section Drops

variable {questItems dropped : List ItemId} {roles roles' : Table NpcId Role} {d : Drop} {drops : List Drop}

/-- The first drop passes its checks, and the others pass theirs when it is remembered. -/
theorem assignMonsters_cons_eq_ok : assignMonsters questItems dropped roles (d :: drops) = .ok roles' ↔
    d.item ∈ questItems ∧ (d.count ≠ 0 ∧ d.count ≤ d.max) ∧ d.item ∉ dropped ∧ roles.get? d.npc = none ∧
      assignMonsters questItems (d.item :: dropped) (roles.insert d.npc (.monster d.item)) drops = .ok roles' := by
  rw [assignMonsters]
  split
  · next hknown => exact iff_of_false nofun fun h => hknown h.1
  next hknown =>
  split
  · next hcount => exact iff_of_false nofun fun h => hcount.elim h.2.1.1 (UInt32.not_lt.2 h.2.1.2)
  next hcount =>
  split
  · next hnew => exact iff_of_false nofun fun h => h.2.2.1 hnew
  next hnew =>
  rw [not_or, UInt32.not_lt] at hcount
  cases hrole : roles.get? d.npc with
  | none => simp [Table.contains, hrole, Decidable.not_not.1 hknown, hcount, hnew]
  | some role => simp [Table.contains, hrole]

/-- What drops have to be after these items were dropped and these parts given. -/
structure Assignable (questItems dropped : List ItemId) (roles : Table NpcId Role) (drops : List Drop) : Prop where
  known : ∀ drop ∈ drops, drop.item ∈ questItems
  counted : ∀ drop ∈ drops, drop.count ≠ 0 ∧ drop.count ≤ drop.max
  undropped : ∀ drop ∈ drops, drop.item ∉ dropped
  free : ∀ drop ∈ drops, roles.get? drop.npc = none
  nodup_items : (drops.map (·.item)).Nodup
  nodup_npcs : (drops.map (·.npc)).Nodup

theorem assignable_nil : Assignable questItems dropped roles [] := by
  constructor <;> simp

theorem assignable_cons : Assignable questItems dropped roles (d :: drops) ↔
    d.item ∈ questItems ∧ (d.count ≠ 0 ∧ d.count ≤ d.max) ∧ d.item ∉ dropped ∧ roles.get? d.npc = none ∧
      Assignable questItems (d.item :: dropped) (roles.insert d.npc (.monster d.item)) drops := by
  constructor
  · rintro ⟨hknown, hcounted, hundropped, hfree, hitems, hnpcs⟩
    simp only [List.forall_mem_cons, List.map_cons, List.nodup_cons, List.mem_map, not_exists, not_and] at *
    refine ⟨hknown.1, hcounted.1, hundropped.1, hfree.1, hknown.2, hcounted.2, fun e he => ?_, fun e he => ?_, hitems.2,
      hnpcs.2⟩
    · simp [hundropped.2 e he, hitems.1 e he]
    · have hne : d.npc ≠ e.npc := fun heq => hnpcs.1 e he heq.symm
      rw [Table.get?_insert, if_neg hne, hfree.2 e he]
  · rintro ⟨hknown, hcount, hnew, hfree, h⟩
    have hlater : ∀ e ∈ drops, e.item ≠ d.item ∧ e.item ∉ dropped := fun e he => by
      simpa using h.undropped e he
    have hapart : ∀ e ∈ drops, d.npc ≠ e.npc ∧ roles.get? e.npc = none := by
      intro e he
      have hinsert := h.free e he
      rw [Table.get?_insert] at hinsert
      split at hinsert
      · cases hinsert
      · next hne => exact ⟨hne, hinsert⟩
    exact {
      known := List.forall_mem_cons.2 ⟨hknown, h.known⟩
      counted := List.forall_mem_cons.2 ⟨hcount, h.counted⟩
      undropped := List.forall_mem_cons.2 ⟨hnew, fun e he => (hlater e he).2⟩
      free := List.forall_mem_cons.2 ⟨hfree, fun e he => (hapart e he).2⟩
      nodup_items := by simpa [h.nodup_items] using fun e he => (hlater e he).1
      nodup_npcs := by simpa [h.nodup_npcs, eq_comm] using fun e he => (hapart e he).1 }

/-- The loop ends well exactly when the drops are fit for it, in whatever order they come. -/
theorem exists_assignMonsters_iff :
    (∃ roles', assignMonsters questItems dropped roles drops = .ok roles') ↔ Assignable questItems dropped roles drops := by
  induction drops generalizing dropped roles with
  | nil => exact iff_of_true ⟨roles, rfl⟩ assignable_nil
  | cons d rest ih => simp only [assignMonsters_cons_eq_ok, assignable_cons, exists_and_left, ih]

theorem get?_assignMonsters (h : assignMonsters questItems dropped roles drops = .ok roles') (npc : NpcId) :
    roles'.get? npc =
      (roles.get? npc).or ((drops.find? fun d => decide (d.npc = npc)).map fun d => .monster d.item) := by
  induction drops generalizing dropped roles with
  | nil =>
    cases h
    simp
  | cons d rest ih =>
    obtain ⟨-, -, -, hfree, hrest⟩ := assignMonsters_cons_eq_ok.1 h
    rw [ih hrest, Table.get?_insert]
    by_cases he : d.npc = npc
    · rw [if_pos he, ← he, hfree, List.find?_cons_of_pos (by simp)]
      rfl
    · rw [if_neg he, List.find?_cons_of_neg (by simpa using he)]

end Drops

/-- The parts that are given before the drops are looked at. -/
def leads (draft : Draft) : Table NpcId Role := (Table.empty.insert draft.giver .giver).insert draft.turnIn .turnIn

theorem get?_leads (draft : Draft) (npc : NpcId) : (leads draft).get? npc =
    if draft.turnIn = npc then some .turnIn else if draft.giver = npc then some .giver else none := by
  rw [leads, Table.get?_insert, Table.get?_insert, Table.get?_empty]

theorem ofDraft_eq_ok {draft : Draft} {d : Definition} : ofDraft draft = .ok d ↔
    (draft.giver ∈ draft.startNpcs ∧ draft.giver ∈ draft.talkNpcs ∧ draft.turnIn ∈ draft.talkNpcs ∧ draft.drops ≠ [] ∧
      draft.giver ≠ draft.turnIn) ∧
    ∃ roles, assignMonsters draft.questItems [] (leads draft) draft.drops = .ok roles ∧ { draft with roles } = d := by
  unfold ofDraft
  split
  · next hstarts => simp [hstarts]
  split
  · next htalks => simp [htalks]
  split
  · next hhears => simp [hhears]
  split
  · next hdrops => simp [hdrops]
  split
  · next hsame => simp [hsame]
  · simp_all [map_eq_ok, leads]

/-- What a definition that passed the checks is known for. -/
structure Sound (d : Definition) : Prop where
  known : ∀ drop ∈ d.drops, drop.item ∈ d.questItems
  counted : ∀ drop ∈ d.drops, drop.count ≠ 0 ∧ drop.count ≤ drop.max
  nodup_items : (d.drops.map (·.item)).Nodup
  roleOf : ∀ npc, d.roleOf npc =
    if d.turnIn = npc then some .turnIn
    else if d.giver = npc then some .giver
    else (d.dropFor npc).map fun drop => .monster drop.item

theorem sound_of_ofDraft {draft : Draft} {d : Definition} (h : ofDraft draft = .ok d) : d.Sound := by
  obtain ⟨-, roles, ha, rfl⟩ := ofDraft_eq_ok.1 h
  have hdrops := exists_assignMonsters_iff.1 ⟨roles, ha⟩
  refine ⟨hdrops.known, hdrops.counted, hdrops.nodup_items, fun npc => ?_⟩
  refine (get?_assignMonsters ha npc).trans ?_
  rw [get?_leads]
  split
  · rfl
  split <;> rfl

end Questline.Definition
