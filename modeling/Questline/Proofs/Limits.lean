import Mathlib.Data.List.Nodup
import Questline.Proofs.Change
import Questline.Proofs.Checks
import Questline.Proofs.Index
import Questline.Proofs.Items

/-!
# Limits of a record

A definition says which items its quest knows and how many of a dropped item may be held. `Record.Within` is what that
makes of a record. Each change keeps a record within the definition that its quest is registered with, because no two
drops of a definition yield the same item: a grant stops at the cap of its own drop, and there is no other cap to heed.
-/

namespace Questline

/-- The record counts what the definition lets it count. -/
structure Record.Within (r : Record) (d : Definition) : Prop where
  keys : ∀ item, r.items.contains item ↔ item ∈ d.questItems
  dropped : ∀ drop ∈ d.drops, r.count drop.item ≤ drop.max
  undropped : ∀ item, (∀ drop ∈ d.drops, drop.item ≠ item) → r.count item = 0

namespace Record

variable {r : Record} {d : Definition}

theorem Within.of_count_eq_zero (hk : ∀ item, r.items.contains item ↔ item ∈ d.questItems)
    (hc : ∀ item, r.count item = 0) : r.Within d where
  keys := hk
  dropped drop _ := by
    rw [hc]
    exact UInt32.zero_le
  undropped item _ := hc item

theorem within_fresh (quest : QuestId) (d : Definition) : (fresh quest d.questItems).Within d :=
  .of_count_eq_zero (contains_fresh quest d.questItems) (count_fresh quest d.questItems)

theorem Within.exit (h : r.Within d) (repeatable : Bool) (now : Instant) :
    (r.clearCond.exit repeatable now).1.Within d :=
  .of_count_eq_zero (fun item => by rw [contains_exit]; exact h.keys item) (count_exit _ repeatable now)

theorem Within.give (h : r.Within d) (hd : (d.drops.map (·.item)).Nodup) {drop : Drop} (hm : drop ∈ d.drops) :
    (r.give drop.item drop.count drop.max).1.Within d where
  keys item := by
    rw [contains_give]
    exact h.keys item
  dropped drop' hm' := by
    by_cases he : drop.item = drop'.item
    · obtain rfl : drop = drop' := List.inj_on_of_nodup_map hd hm hm' he
      exact count_give_le (h.dropped drop hm) drop.count
    · rw [count_give_of_ne r he]
      exact h.dropped drop' hm'
  undropped item hu := by
    rw [count_give_of_ne r (hu drop hm)]
    exact h.undropped item hu

end Record

namespace Index

/-- Each served definition passed the checks of quest files. -/
def Checked (ix : Index) : Prop := ∀ quest h, ix.get? quest = some h → h.definition.Accepted

theorem Kept.get?_of_serves {ix : Index} (hk : ix.Kept) {h : Hunt} (hs : ix.Serves h) :
    ix.get? h.definition.id = some h := by
  obtain ⟨quest, hq⟩ := hs
  rw [hk.own quest h hq]
  exact hq

theorem Checked.register {ix : Index} (hc : ix.Checked) {h : Hunt} (ha : h.definition.Accepted) :
    (ix.register h).Checked := by
  intro quest g hg
  rw [get?_register] at hg
  split at hg
  · cases hg
    exact ha
  · exact hc quest g hg

end Index

theorem World.checked_schuttgart : World.schuttgart.registry.index.Checked :=
  Index.Checked.register (fun _ _ hq => by cases hq) (h := .schuttgart .default)
    ⟨_, Definition.ofDraft_schuttgart⟩

theorem Record.Change.within {ix : Index} (hk : ix.Kept) (hc : ix.Checked) {quest : QuestId} {o o' : Option Record}
    (h : Change ix quest o o') (ho : ∀ r ∈ o, ∃ g, ix.get? quest = some g ∧ r.Within g.definition) :
    ∀ r ∈ o', ∃ g, ix.get? quest = some g ∧ r.Within g.definition := by
  intro r' hr'
  cases h with
  | @enters h served own =>
    cases hr'
    exact ⟨h, own ▸ hk.get?_of_serves served, within_fresh quest h.definition⟩
  | @gains h drop r served own drops =>
    cases hr'
    obtain ⟨g, hg, hw⟩ := ho r rfl
    have hserved : ix.get? quest = some h := own ▸ hk.get?_of_serves served
    obtain rfl : g = h := Option.some.inj (hg.symm.trans hserved)
    obtain ⟨draft, hdraft⟩ := hc quest g hg
    exact ⟨g, hg, hw.give (Definition.sound_of_ofDraft hdraft).nodup_items drops⟩
  | accepts =>
    cases hr'
    obtain ⟨g, hg, hw⟩ := ho _ rfl
    exact ⟨g, hg, hw.keys, hw.dropped, hw.undropped⟩
  | pays =>
    cases hr'
    obtain ⟨g, hg, hw⟩ := ho _ rfl
    exact ⟨g, hg, hw.exit _ _⟩

/-- The command can change what is registered. -/
def Command.redefines : Command → Bool
  | .register .. | .load _ => true
  | _ => false

theorem World.registry_perform {w w' : World} {now : Instant} {c : Command} {a : Answer}
    (h : w.perform now c = .ok (a, w')) (hc : c.redefines = false) : w'.registry = w.registry := by
  cases c with
  | join | leave | leaveParty | talk =>
    cases h
    rfl
  | formParty | choose | kill | process =>
    obtain ⟨_, -, he⟩ := map_eq_ok.1 h
    cases he
    rfl
  | register | load => cases hc

/-- No other command changes what is registered, even when it is broken off. -/
theorem Turn.registry_after {t : Turn} (h : t.Performed) (hc : t.command.redefines = false) :
    t.after.registry = t.before.registry := by
  cases ha : t.answer with
  | ok a => exact World.registry_perform (h.of_ok ha) hc
  | error fault => exact (lapses h ha).1

namespace Play

variable {start w : World} {turns : List Turn}

theorem registry_eq (h : Play start turns w) (hf : ∀ t ∈ turns, t.command.redefines = false) :
    w.registry = start.registry := by
  induction h with
  | nil => rfl
  | @turn turns t _ ht ih =>
    exact (Turn.registry_after ht (hf t List.mem_cons_self)).trans (ih fun t' ht' => hf t' (List.mem_cons_of_mem t ht'))

/-- As long as the definitions stay as they are, every record in a play from an empty start is within the definition of
its quest: it knows exactly the items of it, counts no dropped item beyond its cap, and none of an item that nobody
drops. -/
theorem record_within {registry : Registry} {dice : Dice} (h : Play ⟨registry, .empty, dice⟩ turns w)
    (hr : registry.Arises) (hc : registry.index.Checked) (hf : ∀ t ∈ turns, t.command.redefines = false) :
    ∀ player quest r, w.sessions.record? player quest = some r →
      ∃ g, registry.index.get? quest = some g ∧ r.Within g.definition := by
  refine h.forall_records (fun _ _ _ hn => by cases hn) fun t ht quest o o' hchange ho => ?_
  obtain ⟨earlier, hsub, hbefore⟩ := h.exists_before ht
  have hregistry : t.before.registry = registry := hbefore.registry_eq fun t' ht' => hf t' (hsub t' ht')
  rw [hregistry] at hchange
  exact hchange.within hr.kept hc ho

/-- Two members of a party share three kills. Each gets what is below the cap, and the third kill yields nothing. -/
theorem record_within_schuttgart :
    ∃ turns w, Play ⟨World.schuttgart.registry, .empty, .ofRolls [1, 0]⟩ turns w ∧
      (turns.map (·.command)).take 3 = List.replicate 3 (.kill "a" ⟨18571⟩) ∧
      (∃ r, w.sessions.record? "a" ⟨10280⟩ = some r ∧ r.count ⟨13838⟩ = 1 ∧ r.Within .schuttgart) ∧
      ∃ r, w.sessions.record? "b" ⟨10280⟩ = some r ∧ r.count ⟨13838⟩ = 1 ∧ r.Within .schuttgart := by
  obtain ⟨⟨turns, w⟩, hc, hk⟩ : ∃ q, carryOut [] ⟨World.schuttgart.registry, .empty, .ofRolls [1, 0]⟩ [(.epoch, .join "a" 60),
      (.epoch, .join "b" 60), (.epoch, .formParty ["a", "b"]), (.epoch, .talk "a" ⟨31981⟩), (.epoch, .talk "b" ⟨31981⟩),
      (.epoch, .choose "a" ⟨10280⟩ "31981-03.htm"), (.epoch, .choose "b" ⟨10280⟩ "31981-03.htm"),
      (.epoch, .kill "a" ⟨18571⟩), (.epoch, .kill "a" ⟨18571⟩), (.epoch, .kill "a" ⟨18571⟩)] = q ∧
        (["a", "b"].map (fun n => (q.2.sessions.record? n ⟨10280⟩).map (·.count ⟨13838⟩)) = [some 1, some 1]) :=
    ⟨_, rfl, by decide +kernel⟩
  have hplay := of_carryOut .nil hc
  have hserved : ∀ quest h, World.schuttgart.registry.index.get? quest = some h → h = .schuttgart .default := by
    intro quest h hq
    rw [World.schuttgart, Registry.register, Index.get?_register] at hq
    split at hq
    · exact (Option.some.inj hq).symm
    · cases hq
  have hfixed : ∀ t ∈ turns, t.command.redefines = false :=
    forall_commands_of_carryOut (P := (·.redefines = false)) hc (by decide)
  have hwithin := record_within hplay (.register _ (.empty _)) World.checked_schuttgart hfixed
  have hone : ∀ player, (w.sessions.record? player ⟨10280⟩).map (·.count ⟨13838⟩) = some 1 →
      ∃ r, w.sessions.record? player ⟨10280⟩ = some r ∧ r.count ⟨13838⟩ = 1 ∧ r.Within .schuttgart := by
    intro player hcount
    obtain ⟨r, hr, hcount⟩ := Option.map_eq_some_iff.1 hcount
    obtain ⟨g, hg, hw⟩ := hwithin player ⟨10280⟩ r hr
    rw [hserved _ g hg] at hw
    exact ⟨r, hr, hcount, hw⟩
  obtain ⟨ha, hb⟩ := List.cons.inj hk
  refine ⟨turns, w, hplay, ?_, hone "a" ha, hone "b" (List.cons.inj hb).1⟩
  rw [commands_of_carryOut hc]
  rfl

end Play

end Questline
