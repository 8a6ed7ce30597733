import Questline.Proofs.Shares

/-!
# Effects are reported as they are applied

`World.due` says what a choice, a kill or an event is to answer, by what the quests decide on the sessions as they are,
before anything is applied. The command answers just that, and the log gains just the effects of the answer, unless one of
the balances that they compute does not fit. Nothing is dropped on the way, for whoever is concerned is present: the
player who chooses has a record, and so has the player who is drawn for a drop.
-/

namespace Questline

namespace World

variable (w : World) (now : Instant)

/-- What a choice comes to. -/
def chosen (player : PlayerId) (quest : QuestId) (token : String) : Option Outcome :=
  (w.registry.index.get? quest).bind fun h =>
    (w.sessions.record? player quest).map fun r => (h.choose player token r now).1

/-- What is to be answered to a choice, a kill or an event. -/
def due : Command → Option Answer
  | .choose player quest token => some (.outcome (w.chosen now player quest token))
  | .kill killer npc => some (.outcomes (w.killed killer npc))
  | .process (.npcTalk player npc) =>
    some (.outcome (some (.say (w.registry.index.talk w.sessions player npc).1)))
  | .process (.dialogueChoice player quest token) =>
    some (.outcome (some ((w.chosen now player quest token).getD (.say .noQuest))))
  | .process (.npcKilled killer npc) =>
    some (.outcome (some ⟨none, (w.killed killer npc).flatMap (·.2.effects)⟩))
  | _ => none

/-- The effects of a command. -/
def reported (c : Command) : List Effect := (w.due now c).elim [] Answer.effects

/-- Whom an effect of a command may concern: with a choice the player who makes it, with a kill the killer or a member of
the killer's party, and nobody without a record of the quest that has the effect. -/
inductive Concerns (w : World) (c : Command) (e : Effect) : Prop where
  | choice {player : PlayerId} {quest : QuestId} {token : String} (chosen : c.choice? = some (player, quest, token))
      (own : e.player = player) (recorded : (w.sessions.record? player quest).isSome)
  | kill {killer : PlayerId} {npc : NpcId} {quest : QuestId} {o : Outcome} (kills : c.kill? = some (killer, npc))
      (reported : (quest, o) ∈ w.killed killer npc) (effect : e ∈ o.effects)
      (recorded : (w.sessions.record? e.player quest).isSome)
      (entitled : e.player = killer ∨ ∃ members, w.sessions.members? killer = some members ∧ e.player ∈ members)

variable {w : World} {now : Instant}

theorem chosen_eq_some {player : PlayerId} {quest : QuestId} {token : String} {o : Outcome}
    (h : w.chosen now player quest token = some o) : ∃ g r, w.registry.index.get? quest = some g ∧
      w.sessions.record? player quest = some r ∧ (g.choose player token r now).1 = o := by
  obtain ⟨g, hg, h⟩ := Option.bind_eq_some_iff.1 h
  obtain ⟨r, hr, rfl⟩ := Option.map_eq_some_iff.1 h
  exact ⟨g, r, hg, hr, rfl⟩

theorem concerned_of_chosen {player : PlayerId} {quest : QuestId} {token : String} {o : Outcome}
    (h : w.chosen now player quest token = some o) :
    ∀ e ∈ o.effects, e.player = player ∧ (w.sessions.record? player quest).isSome := by
  obtain ⟨g, r, -, hr, rfl⟩ := chosen_eq_some h
  intro e he
  exact ⟨(g.decides_choose player token r now).concerns e he, Option.isSome_iff_exists.2 ⟨r, hr⟩⟩

theorem exists_grant_of_killed {killer : PlayerId} {npc : NpcId} {report : QuestId × Outcome}
    (h : report ∈ w.killed killer npc) : ∃ g : Grant, report = (g.quest, g.outcome) ∧
      ∃ hunt dice, hunt ∈ w.registry.index.killHunts npc ∧ hunt.grant? npc killer w.sessions dice = some g := by
  unfold killed at h
  rw [Index.reports_dealt] at h
  obtain ⟨g, hg, rfl⟩ := List.mem_map.1 h
  obtain ⟨⟨hunt, dice⟩, hd, hgrant⟩ := List.mem_filterMap.1 hg
  exact ⟨g, rfl, hunt, dice, Index.exists_mem_dealt.1 ⟨dice, hd⟩, hgrant⟩

/-- A quest reports a kill for the killer or for a member of the killer's party, and for somebody with a record. -/
theorem concerned_of_killed {killer : PlayerId} {npc : NpcId} {report : QuestId × Outcome}
    (h : report ∈ w.killed killer npc) : ∀ e ∈ report.2.effects, (w.sessions.record? e.player report.1).isSome ∧
      (e.player = killer ∨ ∃ members, w.sessions.members? killer = some members ∧ e.player ∈ members) := by
  obtain ⟨g, rfl, hunt, dice, -, hgrant⟩ := exists_grant_of_killed h
  intro e he
  rw [g.effects_player e he]
  obtain ⟨hquest, drop, r, -, hdrawn, hr, -⟩ := Hunt.grant?_eq_some hgrant
  refine ⟨?_, ?_⟩
  · rw [hquest, hr]
    rfl
  · rcases Index.pick_eq_some hdrawn with ⟨members, hm, hmem, -⟩ | ⟨-, hk, -⟩
    · exact .inr ⟨members, hm, hmem⟩
    · exact .inl hk

theorem choose_answer (w : World) (now : Instant) (player : PlayerId) (quest : QuestId) (token : String) :
    (w.registry.index.choose w.sessions player quest token now).toOption.map (·.1) =
      (w.sessions.applyAll (Answer.outcome (w.chosen now player quest token)).effects).toOption.map fun _ =>
        w.chosen now player quest token := by
  unfold Index.choose chosen
  cases w.registry.index.get? quest with
  | none => rfl
  | some h =>
    cases w.sessions.record? player quest with
    | none => rfl
    | some r =>
      simp only [Option.bind_some, Option.map_some, Answer.effects, toOption_map, Sessions.applyAll_modifyRecord,
        Option.map_map]
      rfl

/-- A command gives the answer that is due, if the effects of that answer can be applied. -/
theorem perform_due (hw : w.registry.Arises) {c : Command} {a : Answer} (h : w.due now c = some a) :
    (w.perform now c).toOption.map (·.1) = (w.sessions.applyAll a.effects).toOption.map fun _ => a := by
  unfold due at h
  split at h <;> cases h
  · next player quest token =>
    have ha := congrArg (Option.map Answer.outcome) (choose_answer w now player quest token)
    unfold perform
    simp only [toOption_map, Attempt.toOption_within, Option.map_map] at ha ⊢
    exact ha
  · next killer npc =>
    have ha := congrArg (Option.map Answer.outcomes) (killed_answer hw killer npc)
    unfold perform
    simp only [toOption_map, Attempt.toOption_within, Option.map_map] at ha ⊢
    exact ha
  · rfl
  · next player quest token =>
    have ha := congrArg (Option.map fun o : Option Outcome => Answer.outcome (some (o.getD (.say .noQuest))))
      (choose_answer w now player quest token)
    have heffects : (Answer.outcome (some ((w.chosen now player quest token).getD (.say .noQuest)))).effects =
        (Answer.outcome (w.chosen now player quest token)).effects := by
      cases w.chosen now player quest token <;> rfl
    rw [heffects]
    unfold perform Index.process
    simp only [toOption_map, Attempt.toOption_within, Option.map_map] at ha ⊢
    exact ha
  · next killer npc =>
    have ha := congrArg (Option.map fun os : List (QuestId × Outcome) =>
      Answer.outcome (some ⟨none, os.flatMap (·.2.effects)⟩)) (killed_answer hw killer npc)
    unfold perform Index.process
    simp only [toOption_map, Attempt.toOption_within, Option.map_map] at ha ⊢
    exact ha

theorem exists_perform_due (hw : w.registry.Arises) {c : Command} {a : Answer} (h : w.due now c = some a) :
    (∃ w', w.perform now c = .ok (a, w')) ↔ ∀ i, w.sessions.Computes a.effects i → Session.Fits i :=
  Sessions.exists_ok_iff (perform_due hw h)

theorem answer_of_due (hw : w.registry.Arises) {c : Command} {a b : Answer} {w' : World} (h : w.due now c = some a)
    (hb : w.perform now c = .ok (b, w')) : b = a := by
  have hp := perform_due hw h
  rw [hb] at hp
  obtain ⟨-, -, he⟩ := Option.map_eq_some_iff.1 hp.symm
  exact he.symm

theorem reported_of_due {c : Command} {a : Answer} (h : w.due now c = some a) : w.reported now c = a.effects := by
  unfold reported
  rw [h]
  rfl

theorem reported_of_choice {c : Command} {player : PlayerId} {quest : QuestId} {token : String}
    (h : c.choice? = some (player, quest, token)) :
    w.reported now c = (w.chosen now player quest token).elim [] Outcome.effects := by
  unfold Command.choice? at h
  split at h <;> cases h
  all_goals
    unfold reported due
    simp only
    cases w.chosen now player quest token <;> rfl

theorem reported_of_kill {c : Command} {killer : PlayerId} {npc : NpcId} (h : c.kill? = some (killer, npc)) :
    w.reported now c = (w.killed killer npc).flatMap (·.2.effects) := by
  unfold Command.kill? at h
  split at h <;> cases h <;> rfl

theorem reported_of_neither {c : Command} (hc : c.choice? = none) (hk : c.kill? = none) : w.reported now c = [] := by
  cases c with
  | choose => cases hc
  | kill => cases hk
  | process event =>
    cases event with
    | npcTalk => rfl
    | dialogueChoice => cases hc
    | npcKilled => cases hk
  | _ => rfl

theorem concerns_of_reported {c : Command} : ∀ e ∈ w.reported now c, w.Concerns c e := by
  intro e he
  cases hc : c.choice? with
  | some choice =>
    rw [reported_of_choice hc] at he
    cases ho : w.chosen now choice.1 choice.2.1 choice.2.2 with
    | none =>
      rw [ho] at he
      cases he
    | some o =>
      rw [ho] at he
      obtain ⟨hown, hrecorded⟩ := concerned_of_chosen ho e he
      exact .choice hc hown hrecorded
  | none =>
    cases hk : c.kill? with
    | some kill =>
      rw [reported_of_kill hk] at he
      obtain ⟨report, hr, he⟩ := List.mem_flatMap.1 he
      obtain ⟨hrecorded, hentitled⟩ := concerned_of_killed hr e he
      exact .kill hk hr he hrecorded hentitled
    | none =>
      rw [reported_of_neither hc hk] at he
      cases he

/-- A choice, a kill or an event succeeds exactly when every balance that its effects compute fits. It then answers what
the quests decide on the sessions as they are, and the log gains just the effects of the answer, all of them and in that
order. The effects of a choice concern the player who makes it, those of a kill the killer or a member of the killer's
party, each of them somebody with a record of the quest; a talk has none. -/
theorem reported_as_applied {w : World} (hw : w.registry.Arises) (now : Instant) {c : Command} {a : Answer}
    (h : w.due now c = some a) :
    ((∃ w', w.perform now c = .ok (a, w')) ↔ ∀ i, w.sessions.Computes a.effects i → Session.Fits i) ∧
    (∀ b w', w.perform now c = .ok (b, w') → b = a ∧ w'.sessions.log = w.sessions.log ++ b.effects) ∧
    ∀ e ∈ a.effects, w.Concerns c e := by
  exact ⟨exists_perform_due hw h, fun b w' hb => ⟨answer_of_due hw h hb, log_perform hb⟩,
    reported_of_due h ▸ concerns_of_reported⟩

/-- Two quests share a monster and a party of two. A kill is reported with what both grant, to one member each. -/
theorem reported_as_applied_of_two :
    let first := Hunt.schuttgart .default
    let second : Hunt := { first with definition := { first.definition with id := ⟨10281⟩ } }
    let started (quest : QuestId) : Record :=
      { Record.fresh quest first.definition.questItems with phase := .started, cond := some Hunt.collecting }
    let member : Session :=
      { Session.fresh 60 with
        party := some ⟨1⟩
        journal := (Journal.empty.enter (started ⟨10280⟩)).enter (started ⟨10281⟩) }
    let w : World :=
      { registry := ((Registry.empty .default).register second).register first
        sessions := ⟨.ofList [("a", member), ("b", member)], .ofList [(⟨1⟩, ["a", "b"])], ⟨2⟩, []⟩
        dice := .ofRolls [1, 0] }
    let effects : List Effect :=
      [.itemGiven "b" ⟨10280⟩ ⟨13838⟩ 1, .playSound "b" .itemGet, .itemGiven "a" ⟨10281⟩ ⟨13838⟩ 1, .playSound "a" .itemGet]
    w.registry.Arises ∧ w.due .epoch (.process (.npcKilled "a" ⟨18571⟩)) = some (.outcome (some ⟨none, effects⟩)) ∧
      ∃ w', w.perform .epoch (.process (.npcKilled "a" ⟨18571⟩)) = .ok (.outcome (some ⟨none, effects⟩), w') ∧
        w'.sessions.log = effects := by
  intro first second started member w effects
  have hw : w.registry.Arises := .register _ (.register _ (.empty _))
  have hdue : w.due .epoch (.process (.npcKilled "a" ⟨18571⟩)) = some (.outcome (some ⟨none, effects⟩)) := by
    decide +kernel
  have happlied : (w.sessions.applyAll effects).toOption.any fun _ => true := by decide +kernel
  obtain ⟨t, ht, -⟩ := exists_ok_of_any happlied
  obtain ⟨hfits, hlog, -⟩ := reported_as_applied hw .epoch hdue
  obtain ⟨w', hp⟩ := hfits.2 (Sessions.exists_applyAll_iff.1 ⟨t, ht⟩)
  exact ⟨hw, hdue, w', hp, (hlog _ w' hp).2⟩

end World

end Questline
