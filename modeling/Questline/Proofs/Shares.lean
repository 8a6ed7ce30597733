import Mathlib.Data.List.Nodup
import Questline.Proofs.Grant
import Questline.Proofs.Index
import Questline.Proofs.Play
import Questline.Proofs.Schuttgart

/-!
# A kill is shared out among the quests

The quests that a death concerns decide one after the other, and the effects of each are applied before the next one
decides. Yet each decides as if it were alone: it reads the party of the killer, which no grant changes, and the records
of its own quest, which no other quest changes. Only the die is shared. Each quest takes from it what it needs, so it
finds the rolls that the quests before it have left over. There is one thing that a quest can spoil for the others: when a
player has no room for what it grants, the kill is broken off.
-/

namespace Questline

namespace Index

variable {npc : NpcId} {killer : PlayerId} {s t u : Sessions} {hs : List Hunt} {dice dice' : Dice}
  {os : List (QuestId × Outcome)}

/-- Each hunt with the die as it finds it: the hunts before it have rolled for their candidates. -/
def dealt (npc : NpcId) (killer : PlayerId) (s : Sessions) : List Hunt → Dice → List (Hunt × Dice)
  | [], _ => []
  | h :: rest, dice => (h, dice) :: dealt npc killer s rest (dice.rollAll (h.bounds npc killer s))

/-- What the hunts grant, each on its own. -/
def grants (npc : NpcId) (killer : PlayerId) (s : Sessions) (hs : List Hunt) (dice : Dice) : List Grant :=
  (dealt npc killer s hs dice).filterMap fun e => e.1.grant? npc killer s e.2

theorem grants_cons (h : Hunt) (rest : List Hunt) (dice : Dice) : grants npc killer s (h :: rest) dice =
    (h.grant? npc killer s dice).toList ++ grants npc killer s rest (dice.rollAll (h.bounds npc killer s)) := by
  unfold grants
  rw [dealt, List.filterMap_cons]
  cases h.grant? npc killer s dice <;> rfl

theorem Kept.ascending_killHunts {ix : Index} (hk : ix.Kept) (npc : NpcId) :
    Ascending ((ix.killHunts npc).map (·.definition.id)) :=
  hk.ascending_huntsFor .kills npc

theorem Kept.mem_killHunts {ix : Index} (hk : ix.Kept) {npc : NpcId} {h : Hunt} :
    h ∈ ix.killHunts npc ↔ ix.get? h.definition.id = some h ∧ npc ∈ h.definition.killNpcs :=
  hk.mem_huntsFor .kills npc h

theorem map_fst_dealt (hs : List Hunt) (dice : Dice) : (dealt npc killer s hs dice).map (·.1) = hs := by
  induction hs generalizing dice with
  | nil => rfl
  | cons h rest ih => rw [dealt, List.map_cons, ih]

theorem nodup_dealt (hn : (hs.map (·.definition.id)).Nodup) (dice : Dice) :
    ((dealt npc killer s hs dice).map (·.1.definition.id)).Nodup := by
  have hids : ((dealt npc killer s hs dice).map (·.1)).map (·.definition.id) = hs.map (·.definition.id) := by
    rw [map_fst_dealt]
  rw [List.map_map] at hids
  exact hids ▸ hn

theorem exists_mem_dealt {h : Hunt} : (∃ d, (h, d) ∈ dealt npc killer s hs dice) ↔ h ∈ hs := by
  have hm : h ∈ (dealt npc killer s hs dice).map (·.1) ↔ h ∈ hs := by rw [map_fst_dealt]
  rw [← hm, List.mem_map]
  exact ⟨fun ⟨d, hd⟩ => ⟨(h, d), hd, rfl⟩, fun ⟨e, he, hh⟩ => ⟨e.2, hh ▸ he⟩⟩

theorem alike_settle {g : Grant} {quest : QuestId} {es : List Effect} (hq : g.quest ≠ quest)
    (h : s.applyAll es = .ok t) : Hunt.Alike quest killer s (g.settle t) where
  members? := by
    unfold Grant.settle
    rw [Sessions.members?_modifyRecord, Sessions.members?_applyAll h]
  record? player := by
    unfold Grant.settle
    rw [Sessions.record?_modifyRecord, if_neg fun hc => hq hc.2, Sessions.record?_applyAll h]

theorem dealt_congr (h : ∀ g ∈ hs, Hunt.Alike g.definition.id killer s t) (dice : Dice) :
    dealt npc killer t hs dice = dealt npc killer s hs dice := by
  induction hs generalizing dice with
  | nil => rfl
  | cons g rest ih =>
    obtain ⟨hg, hrest⟩ := List.forall_mem_cons.1 h
    rw [dealt, dealt, Hunt.bounds_congr hg, ih hrest]

theorem grants_congr (h : ∀ g ∈ hs, Hunt.Alike g.definition.id killer s t) (dice : Dice) :
    grants npc killer t hs dice = grants npc killer s hs dice := by
  unfold grants
  rw [dealt_congr h]
  refine List.filterMap_congr fun e he => Hunt.grant?_congr (h e.1 ?_) npc e.2
  have hm : e.1 ∈ (dealt npc killer s hs dice).map (·.1) := List.mem_map_of_mem he
  rwa [map_fst_dealt] at hm

/-- The hunts together: all effects are applied and all records are replaced, if no balance overflows. -/
theorem killInTurn_eq (hn : (hs.map (·.definition.id)).Nodup) (s : Sessions) (dice : Dice) :
    (killInTurn npc killer hs s dice).toOption =
      (s.applyAll ((grants npc killer s hs dice).flatMap Grant.effects)).toOption.map fun t =>
        ((grants npc killer s hs dice).map fun g => (g.quest, g.outcome),
          (grants npc killer s hs dice).foldl (fun t g => g.settle t) t,
          dice.rollAll (hs.flatMap (·.bounds npc killer s))) := by
  induction hs generalizing s dice with
  | nil =>
    rw [killInTurn, List.flatMap_nil, Dice.rollAll_nil]
    rfl
  | cons h rest ih =>
    obtain ⟨hfirst, hrest⟩ := List.nodup_cons.1 hn
    rw [killInTurn, Hunt.kill_eq, grants_cons, List.flatMap_cons, ← Dice.rollAll_rollAll]
    cases hg : h.grant? npc killer s dice with
    | none => exact ih hrest s _
    | some g =>
      have hquest : g.quest = h.definition.id := (Hunt.grant?_eq_some hg).1
      simp only [Option.elim_some, Option.toList_some, List.singleton_append, Grant.isNothing_outcome, if_false,
        Bool.false_eq_true, List.flatMap_cons, Sessions.applyAll_append, Grant.effects_outcome, toOption_bind,
        Attempt.toOption_within]
      unfold Grant.settle
      rw [Sessions.applyAll_modifyRecord]
      cases hu : (s.applyAll g.effects).toOption with
      | none => rfl
      | some u =>
        -- the hunts to come find what they would have found without this one
        have hsame : ∀ g' ∈ rest, Hunt.Alike g'.definition.id killer s (g.settle u) := fun g' hg' =>
          alike_settle (fun he => hfirst (List.mem_map.2 ⟨g', hg', he.symm.trans hquest⟩)) (toOption_eq_some.1 hu)
        have hbounds : rest.flatMap (·.bounds npc killer (g.settle u)) = rest.flatMap (·.bounds npc killer s) :=
          List.flatMap_congr fun g' hg' => Hunt.bounds_congr (hsame g' hg') npc
        have htail := ih hrest (g.settle u) (dice.rollAll (h.bounds npc killer s))
        rw [grants_congr hsame, hbounds] at htail
        unfold Grant.settle at htail
        rw [Sessions.applyAll_modifyRecord] at htail
        simp only [Option.map_some, Option.bind_some, htail]
        cases (u.applyAll ((grants npc killer s rest (dice.rollAll (h.bounds npc killer s))).flatMap
          Grant.effects)).toOption with
        | none => rfl
        | some v =>
          rw [← hquest]
          rfl

/-- When the hunts together come to an end, it is with all effects applied and all records replaced. -/
theorem eq_of_killInTurn (hn : (hs.map (·.definition.id)).Nodup)
    (h : killInTurn npc killer hs s dice = .ok (os, t, dice')) :
    ∃ u, s.applyAll ((grants npc killer s hs dice).flatMap Grant.effects) = .ok u ∧
      os = (grants npc killer s hs dice).map (fun g => (g.quest, g.outcome)) ∧
      t = (grants npc killer s hs dice).foldl (fun t g => g.settle t) u ∧
      dice' = dice.rollAll (hs.flatMap (·.bounds npc killer s)) := by
  have he : (killInTurn npc killer hs s dice).toOption = _ := killInTurn_eq hn s dice
  rw [h] at he
  obtain ⟨u, hu, ht⟩ := Option.map_eq_some_iff.1 he.symm
  cases ht
  exact ⟨u, toOption_eq_some.1 hu, rfl, rfl, rfl⟩

theorem quests_grants_sublist (hs : List Hunt) (dice : Dice) :
    ((grants npc killer s hs dice).map (·.quest)).Sublist (hs.map (·.definition.id)) := by
  induction hs generalizing dice with
  | nil => exact .slnil
  | cons h rest ih =>
    rw [grants_cons, List.map_append, List.map_cons]
    cases hg : h.grant? npc killer s dice with
    | none => exact (ih _).cons _
    | some g =>
      rw [← (Hunt.grant?_eq_some hg).1]
      exact (ih _).cons_cons _

theorem record?_settle (g : Grant) (s : Sessions) (player : PlayerId) (quest : QuestId) :
    (g.settle s).record? player quest =
      if g.winner = player ∧ g.quest = quest then (s.record? player quest).map fun _ => g.record
      else s.record? player quest :=
  Sessions.record?_modifyRecord ..

theorem record?_foldl_settle_of_notMem {gs : List Grant} {quest : QuestId} (hq : quest ∉ gs.map (·.quest)) (s : Sessions)
    (player : PlayerId) : (gs.foldl (fun t g => g.settle t) s).record? player quest = s.record? player quest := by
  induction gs generalizing s with
  | nil => rfl
  | cons g rest ih =>
    rw [List.map_cons, List.mem_cons, not_or] at hq
    rw [List.foldl_cons, ih hq.2, record?_settle, if_neg fun hc => hq.1 hc.2.symm]

/-- Of grants for different quests each one alone decides on the records of its quest. -/
theorem record?_foldl_settle_of_mem {gs : List Grant} (hn : (gs.map (·.quest)).Nodup) {g : Grant} (hg : g ∈ gs)
    (s : Sessions) (player : PlayerId) :
    (gs.foldl (fun t g => g.settle t) s).record? player g.quest = (g.settle s).record? player g.quest := by
  induction gs generalizing s with
  | nil => cases hg
  | cons g' rest ih =>
    obtain ⟨hfirst, hrest⟩ := List.nodup_cons.1 hn
    rw [List.foldl_cons]
    rcases List.mem_cons.1 hg with rfl | hg
    · exact record?_foldl_settle_of_notMem hfirst ..
    · have hne : g'.quest ≠ g.quest := fun he => hfirst (List.mem_map.2 ⟨g, hg, he.symm⟩)
      have hskip : (g'.settle s).record? player g.quest = s.record? player g.quest := by
        rw [record?_settle, if_neg fun hc => hne hc.2]
      rw [ih hrest hg, record?_settle, hskip, ← record?_settle]

theorem record?_of_dealt (hn : (hs.map (·.definition.id)).Nodup)
    (h : killInTurn npc killer hs s dice = .ok (os, t, dice')) {e : Hunt × Dice} (he : e ∈ dealt npc killer s hs dice)
    (player : PlayerId) :
    t.record? player e.1.definition.id = (e.1.kill npc killer s e.2).2.1.record? player e.1.definition.id := by
  obtain ⟨u, hu, -, rfl, -⟩ := eq_of_killInTurn hn h
  rw [Hunt.kill_sessions]
  cases hg : e.1.grant? npc killer s e.2 with
  | some g =>
    have hmem : g ∈ grants npc killer s hs dice := List.mem_filterMap.2 ⟨e, he, hg⟩
    rw [← (Hunt.grant?_eq_some hg).1, record?_foldl_settle_of_mem ((quests_grants_sublist hs dice).nodup hn) hmem,
      Option.elim_some, record?_settle, record?_settle, Sessions.record?_applyAll hu]
  | none =>
    rw [record?_foldl_settle_of_notMem, Sessions.record?_applyAll hu, Option.elim_none]
    intro hq
    obtain ⟨g, hmem, hquest⟩ := List.mem_map.1 hq
    obtain ⟨e', he', hg'⟩ := List.mem_filterMap.1 hmem
    have hsame : e'.1.definition.id = e.1.definition.id := (Hunt.grant?_eq_some hg').1.symm.trans hquest
    rw [List.inj_on_of_nodup_map (nodup_dealt hn dice) he' he hsame, hg] at hg'
    cases hg'

theorem record?_of_notMem (hn : (hs.map (·.definition.id)).Nodup)
    (h : killInTurn npc killer hs s dice = .ok (os, t, dice')) {quest : QuestId} (hq : quest ∉ hs.map (·.definition.id))
    (player : PlayerId) : t.record? player quest = s.record? player quest := by
  obtain ⟨u, hu, -, rfl, -⟩ := eq_of_killInTurn hn h
  rw [record?_foldl_settle_of_notMem fun hm => hq ((quests_grants_sublist hs dice).subset hm),
    Sessions.record?_applyAll hu]

def reports (npc : NpcId) (killer : PlayerId) (s : Sessions) (shares : List (Hunt × Dice)) : List (QuestId × Outcome) :=
  (shares.map fun e => (e.1.definition.id, (e.1.kill npc killer s e.2).1)).filter fun r => !r.2.isNothing

theorem reports_dealt (hs : List Hunt) (dice : Dice) : reports npc killer s (dealt npc killer s hs dice) =
    (grants npc killer s hs dice).map fun g => (g.quest, g.outcome) := by
  unfold reports grants
  induction dealt npc killer s hs dice with
  | nil => rfl
  | cons e rest ih =>
    rw [List.map_cons, List.filter_cons, List.filterMap_cons, ih, Hunt.kill_outcome]
    cases hg : e.1.grant? npc killer s e.2 with
    | none => rfl
    | some g =>
      rw [← (Hunt.grant?_eq_some hg).1]
      rfl

theorem effects_reports (hs : List Hunt) (dice : Dice) :
    (reports npc killer s (dealt npc killer s hs dice)).flatMap (·.2.effects) =
      (grants npc killer s hs dice).flatMap Grant.effects := by
  rw [reports_dealt, List.flatMap_map]
  rfl

end Index

namespace Hunt

end Hunt

namespace World

open Index

variable {w w' : World} {now : Instant} {killer : PlayerId} {npc : NpcId} {a : Answer}

/-- What a kill comes to, each quest deciding on its own. -/
def killed (w : World) (killer : PlayerId) (npc : NpcId) : List (QuestId × Outcome) :=
  reports npc killer w.sessions (dealt npc killer w.sessions (w.registry.index.killHunts npc) w.dice)

/-- What a kill answers, and whether it succeeds, is settled by what the hunts report each on its own. -/
theorem killed_answer (hw : w.registry.Arises) (killer : PlayerId) (npc : NpcId) :
    (w.registry.index.kill w.sessions killer npc w.dice).toOption.map (·.1) =
      (w.sessions.applyAll ((w.killed killer npc).flatMap (·.2.effects))).toOption.map fun _ => w.killed killer npc := by
  unfold Index.kill killed
  rw [killInTurn_eq (hw.kept.ascending_killHunts npc).nodup, effects_reports, ← reports_dealt, Option.map_map]
  rfl

end World

end Questline
