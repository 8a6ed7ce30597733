import Questline.Proofs.Limits
import Questline.Proofs.Talk

/-!
# The level of those who accept

A level is asked for when a record is entered, and not again when its quest is accepted. So a player who accepts had
a sufficient level at the talk that entered the record, and has one now unless the player joined with a lower level
since then, or the quest was registered with a higher one. `Play.accepted_below_level` shows that this can happen;
`Play.starts_ripe_or_since` is the general statement.
-/

namespace Questline

theorem Sessions.Regroups.level? {s s' : Sessions} (h : s.Regroups s') (player : PlayerId) :
    s'.level? player = s.level? player := by
  have hl : ∀ t : Sessions, t.level? player = ((t.players.get? player).map Session.alone).map (·.level) := fun t => by
    unfold Sessions.level?
    cases t.players.get? player <;> rfl
  rw [hl, hl, h.alone]

theorem Sessions.Advances.level? {player : PlayerId} {quest : QuestId} {r r' : Record} {es : List Effect}
    {s s' : Sessions} (h : Advances player quest r r' es s s') (player' : PlayerId) :
    s'.level? player' = s.level? player' := by
  unfold Sessions.level?
  by_cases he : player' = player
  · subst he
    obtain ⟨p, p', hp, -, hf, hp'⟩ := h.session
    obtain ⟨inventory, sounds, rfl⟩ := Session.foldlM_receive_eq_ok hf
    rw [hp, hp']
    rfl
  · rw [h.others he]

theorem Sessions.Breaks.level? {player : PlayerId} {quest : QuestId} {r r' : Record} {done : List Effect} {e : Effect}
    {s s' : Sessions} (h : Breaks player quest r r' done e s s') (player' : PlayerId) :
    s'.level? player' = s.level? player' := by
  obtain ⟨advance, -, stops⟩ := h
  rw [← advance.level? player']
  unfold Sessions.level?
  rcases (slips_of_apply stops).2.get?_players player' with he | ⟨p, inventory, hp, hp'⟩
  · rw [he]
  · rw [hp, hp']
    rfl

theorem Deed.level? {ix : Index} {s s' : Sessions} {es : List Effect} (h : Deed ix s es s') (player : PlayerId) :
    s'.level? player = s.level? player := by
  cases h with
  | regroup hr => exact hr.level? player
  | meet hm =>
    cases hm
    exact Index.level?_enterRecord ..
  | grant hg =>
    cases hg with
    | intro served drops entitled started misses grants advance => exact advance.level? player

theorem Chain.level? {ix : Index} {s s' : Sessions} {es : List Effect} (h : Chain (Deed ix) s es s')
    (player : PlayerId) : s'.level? player = s.level? player := by
  induction h with
  | nil => rfl
  | cons hd _ ih => exact ih.trans (hd.level? player)

theorem Index.Lapses.level? {ix : Index} {now : Instant} {c : Command} {s s' : Sessions} {fault : Fault}
    {es : List Effect} (h : ix.Lapses now c s fault es s') (player : PlayerId) : s'.level? player = s.level? player := by
  cases h with
  | choice chosen served decides breaks => exact breaks.level? player
  | kill kills chain overfills =>
    obtain ⟨-, -, -, -, breaks⟩ := overfills
    exact (breaks.level? player).trans ((chain.mono fun _ _ _ hg => Deed.grant hg).level? player)
  | unnumbered forms left => exact (Sessions.regroups_of_unnumbered left).2.level? player

/-- A level changes when its player joins or leaves, and at no other time. -/
theorem Turn.level? {t : Turn} (h : t.Performed) {player : PlayerId} (hl : t.command ≠ .leave player)
    (hj : ∀ level, t.command ≠ .join player level) :
    t.after.sessions.level? player = t.before.sessions.level? player := by
  cases ha : t.answer with
  | error fault => exact (lapses h ha).2.level? player
  | ok a => ?_
  rcases World.perform_cases (h.of_ok ha) with ⟨player', level, hc, -, hw⟩ | ⟨player', s, hc, hs, -, hw⟩ | ⟨_, _, _, -, hd⟩ |
    ⟨-, -, hd⟩
  · have hne : player' ≠ player := fun he => hj level (he ▸ hc)
    rw [hw]
    unfold Sessions.level? Sessions.join
    rw [Table.get?_insert, if_neg hne]
  · have hne : player' ≠ player := fun he => hl (he ▸ hc)
    rw [hw, ← hs.level?]
    unfold Sessions.level?
    rw [Table.get?_erase, if_neg hne]
  · obtain ⟨-, -, advance⟩ := hd
    exact advance.level? player
  · exact hd.level? player

/-- The talk that a command brings, by itself or as an event. -/
def Command.talk? : Command → Option (PlayerId × NpcId)
  | .talk player npc => some (player, npc)
  | .process (.npcTalk player npc) => some (player, npc)
  | _ => none

def Sessions.Unmet (s s' : Sessions) : Prop :=
  ∀ player quest, s.record? player quest = none → s'.record? player quest = none

namespace Sessions.Unmet

theorem of_eq {s s' : Sessions} (h : ∀ player quest, s'.record? player quest = s.record? player quest) :
    Unmet s s' := fun player quest hn => (h player quest).trans hn

theorem of_advances {player : PlayerId} {quest : QuestId} {r r' : Record} {es : List Effect} {s s' : Sessions}
    (h : Advances player quest r r' es s s') : Unmet s s' := fun player' quest' hn => by
  rw [h.record?, if_neg, hn]
  rintro ⟨rfl, rfl⟩
  rw [h.before] at hn
  cases hn

theorem of_choose {ix : Index} {s s' : Sessions} {player : PlayerId} {quest : QuestId} {token : String}
    {now : Instant} {o : Option Outcome} (h : ix.choose s player quest token now = .ok (o, s')) : Unmet s s' := by
  rcases Index.choose_cases h with ⟨-, rfl⟩ | ⟨_, -, hd⟩
  · exact of_eq fun _ _ => rfl
  · obtain ⟨-, -, advance⟩ := hd
    exact of_advances advance

theorem of_grants {ix : Index} {s s' : Sessions} {killer : PlayerId} {npc : NpcId} {es : List Effect}
    (h : Chain (ix.Grants npc killer) s es s') : Unmet s s' := by
  induction h with
  | nil => exact of_eq fun _ _ => rfl
  | cons hg _ ih =>
    cases hg with
    | intro served drops entitled started misses grants advance =>
      exact fun player quest hn => ih player quest (of_advances advance player quest hn)

theorem of_breaks {player : PlayerId} {quest : QuestId} {r r' : Record} {done : List Effect} {e : Effect}
    {s s' : Sessions} (h : Breaks player quest r r' done e s s') : Unmet s s' := fun player' quest' hn => by
  rw [h.record?, if_neg, hn]
  rintro ⟨rfl, rfl⟩
  rw [h.before] at hn
  cases hn

theorem of_lapses {ix : Index} {now : Instant} {c : Command} {s s' : Sessions} {fault : Fault} {es : List Effect}
    (h : ix.Lapses now c s fault es s') : Unmet s s' := by
  cases h with
  | choice chosen served decides breaks => exact of_breaks breaks
  | kill kills chain overfills =>
    obtain ⟨-, -, -, -, breaks⟩ := overfills
    exact fun player quest hn => of_breaks breaks player quest (of_grants chain player quest hn)
  | unnumbered forms left => exact of_eq (Sessions.regroups_of_unnumbered left).2.record?

end Sessions.Unmet

/-- Only a talk enters records. -/
theorem World.perform_talk_or_unmet {w w' : World} {now : Instant} {c : Command} {a : Answer}
    (h : w.perform now c = .ok (a, w')) :
    (∃ player npc, c.talk? = some (player, npc) ∧
      w'.sessions = (w.registry.index.talk w.sessions player npc).2) ∨ w.sessions.Unmet w'.sessions := by
  cases c with
  | join player level =>
    cases h
    exact .inr (.of_eq (Sessions.record?_join w.sessions player · level ·))
  | leave player =>
    refine .inr fun player' quest hn => ?_
    by_cases he : player' = player
    · rw [he, World.record?_leave h]
    · cases h
      rw [← (Sessions.regroups_leaveParty w.sessions player).record?] at hn
      rw [← hn]
      show ((Table.erase _ player).get? player').bind _ = _
      rw [Table.get?_erase, if_neg fun hc => he hc.symm]
      rfl
  | formParty players =>
    obtain ⟨⟨s, party⟩, hf, he⟩ := Attempt.map_within_eq_ok.1 h
    cases he
    exact .inr (.of_eq (Sessions.regroups_formParty hf).record?)
  | leaveParty player =>
    cases h
    exact .inr (.of_eq (Sessions.regroups_leaveParty w.sessions player).record?)
  | talk player npc =>
    cases h
    exact .inl ⟨player, npc, rfl, rfl⟩
  | choose player quest token =>
    obtain ⟨⟨o, s⟩, hc, he⟩ := Attempt.map_within_eq_ok.1 h
    cases he
    exact .inr (.of_choose hc)
  | kill killer npc =>
    obtain ⟨⟨outcomes, s, dice⟩, hk, he⟩ := Attempt.map_within_eq_ok.1 h
    cases he
    exact .inr (.of_grants (Index.kill_chain hk))
  | process event =>
    obtain ⟨⟨o, s, dice⟩, hp, he⟩ := Attempt.map_within_eq_ok.1 h
    cases he
    cases event with
    | npcTalk player npc =>
      cases hp
      exact .inl ⟨player, npc, rfl, rfl⟩
    | dialogueChoice player quest token =>
      obtain ⟨⟨o, s⟩, hc, he⟩ := Attempt.map_within_eq_ok.1 hp
      cases he
      exact .inr (.of_choose hc)
    | npcKilled player npc =>
      obtain ⟨⟨outcomes, s, dice⟩, hk, he⟩ := map_eq_ok.1 hp
      cases he
      exact .inr (.of_grants (Index.kill_chain hk))
  | register =>
    cases h
    exact .inr (.of_eq fun _ _ => rfl)
  | load tree =>
    unfold perform at h
    simp only at h
    split at h <;> cases h <;> exact .inr (.of_eq fun _ _ => rfl)

/-- The turn is a talk by which the player gets a record of the quest. The hunt is the one that is registered then, and
the level is the player's then. -/
structure Turn.Enters (t : Turn) (player : PlayerId) (quest : QuestId) (g : Hunt) (level : Int32) : Prop where
  talk : ∃ npc, t.command.talk? = some (player, npc)
  served : t.before.registry.index.get? quest = some g
  present : t.before.sessions.level? player = some level
  unmet : t.before.sessions.record? player quest = none
  ripe : g.definition.levelRequired ≤ level
  entered : t.after.sessions.record? player quest = some (.fresh quest g.definition.questItems)

theorem Turn.enters {t : Turn} (h : t.Performed) (hk : t.before.registry.index.Kept) {player : PlayerId}
    {quest : QuestId} {r : Record} (hn : t.before.sessions.record? player quest = none)
    (hr : t.after.sessions.record? player quest = some r) : ∃ g level, t.Enters player quest g level := by
  cases ha : t.answer with
  | error fault =>
    rw [Sessions.Unmet.of_lapses (lapses h ha).2 player quest hn] at hr
    cases hr
  | ok a => ?_
  rcases World.perform_talk_or_unmet (h.of_ok ha) with ⟨player', npc, hc, hs⟩ | hu
  · cases hl : t.before.sessions.level? player' with
    | none =>
      rw [hs, Index.talk, hl, hn] at hr
      cases hr
    | some level =>
      obtain ⟨-, henters⟩ := hk.talk_eq hl npc
      rw [← hs] at henters
      obtain ⟨rfl, g, hg, rfl⟩ := henters.exists_of_record? hn hr
      obtain ⟨hheard, hnew⟩ := List.mem_filter.1 hg
      rw [Index.isNew, Bool.and_eq_true, decide_eq_true_iff] at hnew
      have hserved := (hk.mem_concerned.1 (List.mem_of_mem_take hheard)).1
      exact ⟨g, level, ⟨npc, hc⟩, hserved, hl, hn, hnew.2, henters.entered g hg⟩
  · rw [hu player quest hn] at hr
    cases hr

namespace Turn.Enters

variable {t : Turn} {player : PlayerId} {quest : QuestId} {g : Hunt} {level : Int32}

theorem level?_after (h : t.Enters player quest g level) (ht : t.Performed) :
    t.after.sessions.level? player = some level := by
  obtain ⟨npc, hc⟩ := h.talk
  rw [Turn.level? ht, h.present]
  · intro hl
    rw [hl] at hc
    cases hc
  · intro level' hj
    rw [hj] at hc
    cases hc

theorem registry_after (h : t.Enters player quest g level) (ht : t.Performed) :
    t.after.registry = t.before.registry := by
  obtain ⟨npc, hc⟩ := h.talk
  refine Turn.registry_after ht ?_
  unfold Command.redefines
  split
  · next hr => rw [hr] at hc; cases hc
  · next hr => rw [hr] at hc; cases hc
  · rfl

end Turn.Enters

theorem Index.record?_choose {ix : Index} {s s' : Sessions} {player : PlayerId} {quest : QuestId} {token : String}
    {now : Instant} {o : Option Outcome} (h : ix.choose s player quest token now = .ok (o, s')) {g : Hunt}
    {r : Record} (hg : ix.get? quest = some g) (hr : s.record? player quest = some r) :
    s'.record? player quest = some (g.choose player token r now).2 := by
  unfold choose at h
  rw [hg, hr] at h
  obtain ⟨t, ht, he⟩ := map_eq_ok.1 h
  cases he
  have hd := g.decides_choose player token r now
  have advance : s.Advances player quest r (g.choose player token r now).2
      (g.choose player token r now).1.effects s' := ⟨hr, hd.concerns, ht⟩
  rw [advance.record?, if_pos ⟨rfl, rfl⟩]

theorem World.record?_choice {w w' : World} {now : Instant} {c : Command} {a : Answer}
    (h : w.perform now c = .ok (a, w')) {player : PlayerId} {quest : QuestId} {token : String}
    (hc : c.choice? = some (player, quest, token)) {g : Hunt} {r : Record}
    (hg : w.registry.index.get? quest = some g) (hr : w.sessions.record? player quest = some r) :
    w'.sessions.record? player quest = some (g.choose player token r now).2 := by
  unfold Command.choice? at hc
  split at hc <;> cases hc
  · obtain ⟨⟨o, s⟩, ho, he⟩ := Attempt.map_within_eq_ok.1 h
    cases he
    exact Index.record?_choose ho hg hr
  · obtain ⟨⟨o, s, dice⟩, hp, he⟩ := Attempt.map_within_eq_ok.1 h
    cases he
    obtain ⟨⟨o, s⟩, ho, he⟩ := Attempt.map_within_eq_ok.1 hp
    cases he
    exact Index.record?_choose ho hg hr

theorem Hunt.token_of_choose_started {g : Hunt} {player : PlayerId} {token : String} {r : Record} {now : Instant}
    (hc : r.phase = .created) (hs : (g.choose player token r now).2.phase = .started) : token = g.acceptToken := by
  unfold choose at hs
  split at hs
  · assumption
  · split at hs
    · simp [turnIn, hc] at hs
    · rw [hc] at hs
      cases hs

theorem Turn.Starts.choice {t : Turn} {player : PlayerId} {quest : QuestId} (hs : t.Starts player quest)
    (h : t.Performed) : ∃ g, t.before.registry.index.get? quest = some g ∧
      t.command.choice? = some (player, quest, g.acceptToken) := by
  have hl : t.command ≠ .leave player := fun hc => by
    obtain ⟨-, r', -, -, hr', -⟩ := hs
    rw [Turn.record?_leave h hc] at hr'
    cases hr'
  have hmark := (Turn.accept_mem_marks_iff h hl).2 hs
  obtain ⟨r, r', hr, hp, hr', hp'⟩ := hs
  have hne : t.after.sessions.record? player quest ≠ t.before.sessions.record? player quest := fun he => by
    rw [hr, hr', Option.some.injEq] at he
    rw [he, hp] at hp'
    cases hp'
  cases ha : t.answer with
  | error fault =>
    rw [Turn.marks_eq_nil (by rw [Turn.effects_of_error ha]; nofun)] at hmark
    cases hmark
  | ok a => ?_
  rcases World.perform_cases (h.of_ok ha) with ⟨player', level, -, -, hw⟩ | ⟨player', s, hc, hd, -, hw⟩ |
    ⟨player', quest', token, hc, hd⟩ | ⟨-, -, hd⟩
  · rw [hw, Sessions.record?_join] at hne
    exact absurd rfl hne
  · have hother : player' ≠ player := fun he => hl (he ▸ hc)
    rw [hw, ← hd.record?] at hne
    unfold Sessions.record? at hne
    rw [Table.get?_erase, if_neg hother] at hne
    exact absurd rfl hne
  · obtain ⟨served, decides, advance⟩ := hd
    rw [advance.record?] at hne
    split at hne
    · next he =>
      obtain ⟨rfl, rfl⟩ := he
      rw [World.record?_choice (h.of_ok ha) hc served hr, Option.some.injEq] at hr'
      rw [← hr'] at hp'
      exact ⟨_, served, Hunt.token_of_choose_started hp hp' ▸ hc⟩
    · exact absurd rfl hne
  · have hv := hd.drifts player quest
    rw [hr, hr'] at hv
    rw [hv.started hp'] at hp
    cases hp

theorem World.arises_perform {w w' : World} {now : Instant} {c : Command} {a : Answer}
    (h : w.perform now c = .ok (a, w')) (hw : w.registry.Arises) : w'.registry.Arises := by
  by_cases hc : c.redefines = true
  · cases c with
    | register hunt =>
      cases h
      exact .register hunt hw
    | load tree =>
      unfold perform at h
      simp only at h
      split at h <;> cases h
      · next hl => exact .load hw hl
      · exact hw
    | _ => cases hc
  · rw [World.registry_perform h (by simpa using hc)]
    exact hw

namespace Play

variable {start w : World} {turns : List Turn} {player : PlayerId} {quest : QuestId}

theorem arises (h : Play start turns w) (hs : start.registry.Arises) : w.registry.Arises := by
  induction h with
  | nil => exact hs
  | @turn turns t _ ht ih =>
    cases ha : t.answer with
    | ok a => exact World.arises_perform (ht.of_ok ha) ih
    | error fault =>
      rw [(Turn.lapses ht ha).1]
      exact ih

theorem level?_eq (h : Play start turns w) (hl : ∀ t ∈ turns, t.command ≠ .leave player)
    (hj : ∀ t ∈ turns, ∀ level, t.command ≠ .join player level) :
    w.sessions.level? player = start.sessions.level? player := by
  induction h with
  | nil => rfl
  | turn _ ht ih =>
    have hlast := Turn.level? ht (hl _ List.mem_cons_self) (hj _ List.mem_cons_self)
    exact hlast.trans (ih (fun t' ht' => hl t' (List.mem_cons_of_mem _ ht'))
      fun t' ht' => hj t' (List.mem_cons_of_mem _ ht'))

/-- Whoever has a record has got it at a talk, and has not left since. -/
theorem entered (h : Play start turns w) (ha : start.registry.Arises)
    (hs : start.sessions.record? player quest = none) {r : Record} (hr : w.sessions.record? player quest = some r) :
    ∃ since m earlier g level, turns = since ++ m :: earlier ∧ (∀ t ∈ since, t.command ≠ .leave player) ∧
      m.Enters player quest g level := by
  induction h generalizing r with
  | nil =>
    rw [hs] at hr
    cases hr
  | @turn turns t hbefore ht ih =>
    cases hb : t.before.sessions.record? player quest with
    | none =>
      obtain ⟨g, level, henters⟩ := Turn.enters ht (hbefore.arises ha).kept hb hr
      exact ⟨[], t, turns, g, level, rfl, fun _ hm => absurd hm List.not_mem_nil, henters⟩
    | some r' =>
      obtain ⟨since, m, earlier, g, level, rfl, hsince, henters⟩ := ih hb
      have hl : t.command ≠ .leave player := fun hc => by
        rw [Turn.record?_leave ht hc] at hr
        cases hr
      exact ⟨t :: since, m, earlier, g, level, rfl, List.forall_mem_cons.2 ⟨hl, hsince⟩, henters⟩

/-- A level that sufficed at the talk suffices later on, unless the player joins with a lower one in the meantime, or the
definitions are changed and more is required. -/
theorem ripe_or_since {m : Turn} {since : List Turn} {g g₀ : Hunt} {level level₀ : Int32} (h : Play m.after since w)
    (hm : m.Performed) (he : m.Enters player quest g₀ level₀) (hl : ∀ t ∈ since, t.command ≠ .leave player)
    (hg : w.registry.index.get? quest = some g) (hlevel : w.sessions.level? player = some level) :
    g.definition.levelRequired ≤ level ∨
      level < level₀ ∧ (∃ t ∈ since, ∃ level', t.command = .join player level') ∨
      g₀.definition.levelRequired < g.definition.levelRequired ∧ ∃ t ∈ since, t.command.redefines := by
  by_cases hripe : g.definition.levelRequired ≤ level
  · exact .inl hripe
  refine .inr ?_
  by_cases hlower : level < level₀
  · refine .inl ⟨hlower, Classical.byContradiction fun hnone => ?_⟩
    have hkept := h.level?_eq hl fun t ht level' hj => hnone ⟨t, ht, level', hj⟩
    rw [hlevel, he.level?_after hm, Option.some.injEq] at hkept
    rw [hkept] at hlower
    exact Int32.lt_irrefl hlower
  · have hraised : g₀.definition.levelRequired < g.definition.levelRequired := by
      have hripe₀ := he.ripe
      rw [Int32.le_iff_toInt_le] at hripe hripe₀
      rw [Int32.lt_iff_toInt_lt] at hlower ⊢
      omega
    refine .inr ⟨hraised, Classical.byContradiction fun hnone => ?_⟩
    have hkept := h.registry_eq fun t ht => Bool.eq_false_iff.2 fun hr => hnone ⟨t, ht, hr⟩
    rw [hkept, he.registry_after hm, he.served, Option.some.injEq] at hg
    rw [hg] at hraised
    exact Int32.lt_irrefl hraised

/-- From an empty start, a quest is started by its player alone, with the token of acceptance, and the giver would then
offer it if the player's level suffices. The record was entered at an earlier talk of the player, who has not left
since, and at that talk the level sufficed. It suffices still, unless since then the player joined with a lower level,
or the definitions were changed and the quest requires a higher one. -/
theorem starts_ripe_or_since {registry : Registry} {dice : Dice} {later earlier : List Turn} {t : Turn}
    (ha : registry.Arises) (h : Play ⟨registry, .empty, dice⟩ (later ++ t :: earlier) w)
    (hs : t.Starts player quest) :
    ∃ g r level, t.before.registry.index.get? quest = some g ∧ t.before.sessions.record? player quest = some r ∧
      t.before.sessions.level? player = some level ∧ t.command.choice? = some (player, quest, g.acceptToken) ∧
      g.talkGiver level (some r) = g.giverPage (if g.definition.levelRequired ≤ level then .offer else .tooLow) ∧
      ∃ since m before g₀ level₀, earlier = since ++ m :: before ∧ (∀ t' ∈ since, t'.command ≠ .leave player) ∧
        m.Enters player quest g₀ level₀ ∧
        (g.definition.levelRequired ≤ level ∨
          level < level₀ ∧ (∃ t' ∈ since, ∃ level', t'.command = .join player level') ∨
          g₀.definition.levelRequired < g.definition.levelRequired ∧ ∃ t' ∈ since, t'.command.redefines) := by
  have hbefore := h.before
  obtain ⟨g, hg, hc⟩ := hs.choice (h.performed t (List.mem_append_right later List.mem_cons_self))
  obtain ⟨r, -, hr, hcreated, -⟩ := hs
  obtain ⟨p, hp, -⟩ := Option.bind_eq_some_iff.1 hr
  have hlevel : t.before.sessions.level? player = some p.level := by rw [Sessions.level?, hp, Option.map_some]
  have hpage : g.talkGiver p.level (some r) =
      g.giverPage (if g.definition.levelRequired ≤ p.level then .offer else .tooLow) := by
    simp only [Hunt.talkGiver, hcreated]
    split <;> rfl
  obtain ⟨since, m, before, g₀, level₀, rfl, hsince, henters⟩ := hbefore.entered ha rfl hr
  have hm := hbefore.performed m (List.mem_append_right since List.mem_cons_self)
  exact ⟨g, r, p.level, hg, hr, hlevel, hc, hpage, since, m, before, g₀, level₀, rfl, hsince, henters,
    hbefore.resume.ripe_or_since hm henters hsince hg hlevel⟩

/-- A player of level 60 meets the giver, comes back with level 10 and accepts. -/
theorem starts_lowered_schuttgart :
    ∃ t earlier w, Play .schuttgart (t :: earlier) w ∧
      earlier.map (·.command) = [.join "a" 10, .talk "a" ⟨31981⟩, .join "a" 60] ∧ t.Starts "a" ⟨10280⟩ ∧
      t.before.sessions.level? "a" = some 10 ∧
      t.before.registry.index.get? ⟨10280⟩ = some (.schuttgart .default) ∧
      (t.before.registry.index.talk t.before.sessions "a" ⟨31981⟩).1 = .page "31981-00.htm" := by
  obtain ⟨⟨turns, w⟩, hc, hany⟩ : ∃ q, carryOut [] .schuttgart [(.epoch, .join "a" 60), (.epoch, .talk "a" ⟨31981⟩),
      (.epoch, .join "a" 10), (.epoch, .choose "a" ⟨10280⟩ "31981-03.htm")] = q ∧ q.1.head?.any fun t =>
        decide (t.marks "a" ⟨10280⟩ = [.accept]) && decide (t.before.sessions.level? "a" = some 10) &&
        decide (t.before.registry.index.get? ⟨10280⟩ = some (.schuttgart .default)) &&
        decide ((t.before.registry.index.talk t.before.sessions "a" ⟨31981⟩).1 = .page "31981-00.htm") :=
    ⟨_, rfl, by decide +kernel⟩
  have hplay := of_carryOut .nil hc
  have hcommands := commands_of_carryOut hc
  obtain ⟨t, hhead, hk⟩ := (Option.any_eq_true _ _).1 hany
  obtain ⟨earlier, rfl⟩ := List.head?_eq_some_iff.1 hhead
  simp only [Bool.and_eq_true, decide_eq_true_eq] at hk
  obtain ⟨⟨⟨hm, hl⟩, hg⟩, hpage⟩ := hk
  have hlast : t.command = .choose "a" ⟨10280⟩ "31981-03.htm" := (List.cons.inj hcommands).1
  have hstarts := (Turn.accept_mem_marks_iff (hplay.performed t List.mem_cons_self) fun he => by
    rw [he] at hlast
    cases hlast).1 (hm ▸ List.mem_singleton_self Mark.accept)
  exact ⟨t, earlier, w, hplay, (List.cons.inj hcommands).2, hstarts, hl, hg, hpage⟩

/-- A quest can be accepted below its level, while the giver turns the player away. -/
theorem accepted_below_level :
    ∃ t earlier w, Play .schuttgart (t :: earlier) w ∧ t.Starts "a" ⟨10280⟩ ∧
      ∃ g level, t.before.registry.index.get? ⟨10280⟩ = some g ∧ t.before.sessions.level? "a" = some level ∧
        ¬ g.definition.levelRequired ≤ level ∧
        (t.before.registry.index.talk t.before.sessions "a" g.definition.giver).1 = g.giverPage .tooLow := by
  obtain ⟨t, earlier, w, hplay, -, hstarts, hl, hg, hpage⟩ := starts_lowered_schuttgart
  have htooLow : (Hunt.schuttgart .default).giverPage .tooLow = .page "31981-00.htm" := by decide +kernel
  exact ⟨t, earlier, w, hplay, hstarts, _, _, hg, hl, by decide, hpage.trans htooLow.symm⟩

/-- Of the two excuses for that acceptance it is the first that holds. -/
theorem starts_ripe_or_since_schuttgart :
    World.schuttgart.registry.Arises ∧ ∃ t earlier w, Play .schuttgart (t :: earlier) w ∧ t.Starts "a" ⟨10280⟩ ∧
      t.before.sessions.level? "a" = some 10 ∧
      ∃ since m before g₀ level₀, earlier = since ++ m :: before ∧ m.Enters "a" ⟨10280⟩ g₀ level₀ ∧ 10 < level₀ ∧
        ∃ t' ∈ since, ∃ level', t'.command = .join "a" level' := by
  have ha : World.schuttgart.registry.Arises := .register _ (.empty _)
  obtain ⟨t, earlier, w, hplay, hcommands, hstarts, hl, hserved, -⟩ := starts_lowered_schuttgart
  have hall : Play ⟨World.schuttgart.registry, .empty, .ofRolls []⟩ ([] ++ t :: earlier) w := hplay
  obtain ⟨g, r, level, hg, -, hlevel, -, -, since, m, before, g₀, level₀, rfl, -, henters, hwhy⟩ :=
    starts_ripe_or_since ha hall hstarts
  obtain rfl := Option.some.inj (hl.symm.trans hlevel)
  obtain rfl := Option.some.inj (hserved.symm.trans hg)
  refine ⟨ha, t, _, w, hplay, hstarts, hl, since, m, before, g₀, level₀, rfl, henters, ?_⟩
  rcases hwhy with hripe | hlowered | ⟨-, t', ht', hr⟩
  · exact absurd hripe (by decide)
  · exact hlowered
  · have hmem : t'.command ∈ [Command.join "a" 10, .talk "a" ⟨31981⟩, .join "a" 60] := by
      rw [← hcommands]
      exact List.mem_map_of_mem (List.mem_append_left _ ht')
    simp only [List.mem_cons, List.not_mem_nil, or_false] at hmem
    rcases hmem with he | he | he <;> rw [he] at hr <;> cases hr

end Play

end Questline
