import Mathlib.Logic.Relation
import Questline.Proofs.Lifecycle

/-!
# How records change

All that is played changes a record in four ways: it is entered, it gains a drop, its quest is accepted, or its quest
ends. `Record.Change` says what each of them does to the record and which served hunt is behind it; a turn makes finitely
many changes. What every change keeps therefore holds of all records in a play.
-/

namespace Questline

def Index.Serves (ix : Index) (h : Hunt) : Prop := ∃ quest, ix.get? quest = some h

theorem Index.serves_of_mem_huntsFor {ix : Index} {m : Mentions} {npc : NpcId} {h : Hunt}
    (hm : h ∈ ix.huntsFor m npc) : ix.Serves h := by
  obtain ⟨quest, -, hq⟩ := List.mem_filterMap.1 hm
  exact ⟨quest, hq⟩

/-- One change of a player's record of a quest. -/
inductive Record.Change (ix : Index) (quest : QuestId) : Option Record → Option Record → Prop where
  | enters {h : Hunt} (served : ix.Serves h) (own : h.definition.id = quest) :
      Change ix quest none (some (.fresh quest h.definition.questItems))
  | gains {h : Hunt} {drop : Drop} {r : Record} (served : ix.Serves h) (own : h.definition.id = quest)
      (drops : drop ∈ h.definition.drops) (started : r.phase = .started) (misses : r.count drop.item < drop.max) :
      Change ix quest (some r) (some (r.give drop.item drop.count drop.max).1)
  | accepts {r : Record} {now : Instant} (created : r.phase = .created) :
      Change ix quest (some r) (some (r.start Hunt.collecting now))
  | pays {h : Hunt} {r : Record} {now : Instant} (served : ix.get? quest = some h) (started : r.phase = .started) :
      Change ix quest (some r) (some (r.clearCond.exit h.definition.reward.repeatable now).1)

open Record (Change)
open Relation (ReflTransGen)

variable {ix : Index} {s s' : Sessions} {es : List Effect}

theorem Deed.changes (h : Deed ix s es s') (player : PlayerId) (quest : QuestId) :
    ReflTransGen (Change ix quest) (s.record? player quest) (s'.record? player quest) := by
  cases h with
  | regroup hr => rw [hr.record?]
  | meet hm =>
    rcases hm.record? player quest with he | ⟨hn, h, hh, hown, he⟩
    · rw [he]
    · rw [hn, he]
      exact .single (.enters (Index.serves_of_mem_huntsFor hh) hown)
  | grant hg =>
    cases hg with
    | intro served drops entitled started misses grants advance =>
      rw [advance.record? player quest]
      split
      · next he =>
        obtain ⟨rfl, rfl⟩ := he
        rw [advance.before]
        exact .single (.gains (Index.serves_of_mem_huntsFor served) rfl (List.mem_of_find?_eq_some drops) started misses)
      · exact .refl

theorem Chain.changes (h : Chain (Deed ix) s es s') (player : PlayerId) (quest : QuestId) :
    ReflTransGen (Change ix quest) (s.record? player quest) (s'.record? player quest) := by
  induction h with
  | nil => exact .refl
  | cons hd _ ih => exact (hd.changes player quest).trans ih

theorem Hunt.Decides.changes {h : Hunt} {player : PlayerId} {now : Instant} {r r' : Record} {quest : QuestId}
    (hd : h.Decides player now r es r') (served : ix.get? quest = some h) :
    ReflTransGen (Change ix quest) (some r) (some r') := by
  cases hd with
  | idle => exact .refl
  | accepts created => exact .single (.accepts created)
  | pays started => exact .single (.pays served started)

theorem Index.Overfills.changes {npc : NpcId} (h : ix.Overfills npc s s') (player : PlayerId) (quest : QuestId) :
    ReflTransGen (Change ix quest) (s.record? player quest) (s'.record? player quest) := by
  obtain ⟨served, drops, started, misses, breaks⟩ := h
  rw [breaks.record? player quest]
  split
  · next he =>
    obtain ⟨rfl, rfl⟩ := he
    rw [breaks.before]
    exact .single (.gains (Index.serves_of_mem_huntsFor served) rfl (List.mem_of_find?_eq_some drops) started misses)
  · exact .refl

theorem Index.Lapses.changes {now : Instant} {c : Command} {fault : Fault} (h : ix.Lapses now c s fault es s')
    (player : PlayerId) (quest : QuestId) :
    ReflTransGen (Change ix quest) (s.record? player quest) (s'.record? player quest) := by
  cases h with
  | choice chosen served decides breaks =>
    rw [breaks.record?]
    split
    · next he =>
      obtain ⟨rfl, rfl⟩ := he
      rw [breaks.before]
      exact decides.changes served
    · exact .refl
  | kill kills chain overfills =>
    exact ((chain.mono fun _ _ _ hg => Deed.grant hg).changes player quest).trans (overfills.changes player quest)
  | unnumbered forms left => rw [(Sessions.regroups_of_unnumbered left).2.record?]

theorem World.record?_leave {w w' : World} {now : Instant} {player : PlayerId} {a : Answer}
    (h : w.perform now (.leave player) = .ok (a, w')) (quest : QuestId) : w'.sessions.record? player quest = none := by
  cases h
  show ((Table.erase _ player).get? player).bind _ = none
  rw [Table.get?_erase, if_pos rfl]
  rfl

namespace Turn

variable {t : Turn} {player : PlayerId}

theorem record?_leave (h : t.Performed) (hc : t.command = .leave player) (quest : QuestId) :
    t.after.sessions.record? player quest = none := by
  cases ha : t.answer with
  | ok a => exact World.record?_leave (hc ▸ h.of_ok ha) quest
  | error fault => cases hc ▸ h.of_error ha

theorem changes (h : t.Performed) (hl : t.command ≠ .leave player) (quest : QuestId) :
    ReflTransGen (Change t.before.registry.index quest) (t.before.sessions.record? player quest)
      (t.after.sessions.record? player quest) := by
  cases ha : t.answer with
  | error fault => exact (lapses h ha).2.changes player quest
  | ok a => ?_
  rcases World.perform_cases (h.of_ok ha) with ⟨player', level, -, -, hw⟩ | ⟨player', s, hc, hs, -, hw⟩ |
    ⟨player', quest', token, -, hd⟩ | ⟨-, -, hd⟩
  · rw [hw, Sessions.record?_join]
  · have hne : player' ≠ player := fun he => hl (he ▸ hc)
    rw [hw, ← hs.record?]
    unfold Sessions.record?
    rw [Table.get?_erase, if_neg hne]
  · obtain ⟨served, decides, advance⟩ := hd
    rw [advance.record?]
    split
    · next he =>
      obtain ⟨rfl, rfl⟩ := he
      rw [advance.before]
      exact decides.changes served
    · exact .refl
  · exact hd.changes player quest

end Turn

namespace Play

variable {start w : World} {turns : List Turn}

/-- What every change keeps holds of all records, whatever is played. -/
theorem forall_records {P : QuestId → Record → Prop} (h : Play start turns w)
    (hs : ∀ player quest r, start.sessions.record? player quest = some r → P quest r)
    (hkeep : ∀ t ∈ turns, ∀ quest o o', Change t.before.registry.index quest o o' →
      (∀ r ∈ o, P quest r) → ∀ r ∈ o', P quest r) :
    ∀ player quest r, w.sessions.record? player quest = some r → P quest r := by
  induction h with
  | nil => exact hs
  | @turn turns t _ ht ih =>
    have hbefore := ih fun t' ht' => hkeep t' (List.mem_cons_of_mem t ht')
    intro player quest r hr
    by_cases hl : t.command = .leave player
    · rw [Turn.record?_leave ht hl] at hr
      cases hr
    · have hall : ∀ o, ReflTransGen (Change t.before.registry.index quest) (t.before.sessions.record? player quest) o →
          ∀ r ∈ o, P quest r := by
        intro o ho
        induction ho with
        | refl => exact fun r hr => hbefore player quest r hr
        | tail _ hc ih => exact hkeep t List.mem_cons_self quest _ _ hc ih
      exact hall _ (Turn.changes ht hl quest) r hr

end Play

end Questline
