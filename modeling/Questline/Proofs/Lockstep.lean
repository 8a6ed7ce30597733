import Questline.Proofs.Company
import Questline.Proofs.Report
import Questline.Proofs.Talk

/-!
# What quests can see

Quests ask for the level of a player, for the members of a party and for records. They see no inventory, no sounds and no
log, nor what has been in a record before. So two worlds that look the same to them stay so: whatever is done in both by
talking, choosing and killing has the same effects and the same answer. Balances are out of sight. So where the effects
compute one that does not fit, they break off a command in one of the worlds and perhaps not in the other, and only from
then on the two go different ways.
-/

namespace Questline

namespace Sessions

/-- To quests the two look the same. -/
structure Matches (s t : Sessions) : Prop where
  level? : ∀ player, t.level? player = s.level? player
  members? : ∀ player, t.members? player = s.members? player
  record? : ∀ player quest, t.record? player quest = s.record? player quest

variable {s t u : Sessions} {player : PlayerId} {quest : QuestId}

namespace Matches

theorem symm (h : s.Matches t) : t.Matches s :=
  ⟨fun p => (h.level? p).symm, fun p => (h.members? p).symm, fun p q => (h.record? p q).symm⟩

theorem trans (h : s.Matches t) (h' : t.Matches u) : s.Matches u :=
  ⟨fun p => (h'.level? p).trans (h.level? p), fun p => (h'.members? p).trans (h.members? p),
    fun p q => (h'.record? p q).trans (h.record? p q)⟩

end Matches

theorem level?_modifyRecord (s : Sessions) (player player' : PlayerId) (quest : QuestId) (f : Record → Record) :
    (s.modifyRecord player quest f).level? player' = s.level? player' := by
  unfold level? modifyRecord
  rw [get?_modifyPlayer]
  split
  · rw [Option.map_map]
    rfl
  · rfl

theorem level?_applyAll {es : List Effect} (h : s.applyAll es = .ok t) (player : PlayerId) :
    t.level? player = s.level? player := by
  refine foldlM_unchanged (v := (·.level? player)) (fun s e t h => ?_) h
  unfold level?
  rcases get?_players_apply h player with he | ⟨p, inventory, sounds, hp, ht⟩
  · rw [he]
  · rw [hp, ht]
    rfl

/-- Who is present can be seen by the level. -/
theorem record?_enterRecord_eq (s : Sessions) (player player' : PlayerId) (r : Record) (quest : QuestId) :
    (s.enterRecord player r).record? player' quest =
      if player = player' ∧ r.quest = quest then (s.level? player').map fun _ => (s.record? player' quest).getD r
      else s.record? player' quest := by
  rw [record?_enterRecord, level?, record?]
  cases s.players.get? player' <;> rfl

/-- Effects are out of sight. -/
theorem matches_applyAll {es : List Effect} (h : s.applyAll es = .ok t) : s.Matches t where
  level? := level?_applyAll h
  members? := members?_applyAll h
  record? := record?_applyAll h

namespace Matches

theorem modifyRecord (h : s.Matches t) (player : PlayerId) (quest : QuestId) (f : Record → Record) :
    (s.modifyRecord player quest f).Matches (t.modifyRecord player quest f) where
  level? player' := by rw [level?_modifyRecord, level?_modifyRecord, h.level?]
  members? player' := by rw [members?_modifyRecord, members?_modifyRecord, h.members?]
  record? player' quest' := by rw [record?_modifyRecord, record?_modifyRecord, h.record?]

theorem enterRecord (h : s.Matches t) (player : PlayerId) (r : Record) :
    (s.enterRecord player r).Matches (t.enterRecord player r) where
  level? player' := by rw [Index.level?_enterRecord, Index.level?_enterRecord, h.level?]
  members? player' := by
    rw [(sameParties_enterRecord s player r).members?, (sameParties_enterRecord t player r).members?, h.members?]
  record? player' quest' := by rw [record?_enterRecord_eq, record?_enterRecord_eq, h.level?, h.record?]

theorem applyAll (h : s.Matches t) {es : List Effect} {s' t' : Sessions} (hs : s.applyAll es = .ok s')
    (ht : t.applyAll es = .ok t') : s'.Matches t' :=
  (matches_applyAll hs).symm.trans (h.trans (matches_applyAll ht))

end Matches

end Sessions

namespace Index

open Sessions (Matches)

variable {s t : Sessions}

theorem matches_met (h : s.Matches t) (player : PlayerId) (level : Int32) (g : Hunt) :
    (met player level s g).Matches (met player level t g) := by
  unfold met isNew
  rw [h.record?]
  split
  · exact h.enterRecord ..
  · exact h

theorem talkInTurn_matches {npc : NpcId} {player : PlayerId} {level : Int32} (h : s.Matches t) (hs : List Hunt)
    (message : Dialogue) :
    (talkInTurn npc player level hs message t).1 = (talkInTurn npc player level hs message s).1 ∧
      (talkInTurn npc player level hs message s).2.Matches (talkInTurn npc player level hs message t).2 := by
  induction hs generalizing s t message with
  | nil => exact ⟨rfl, h⟩
  | cons g rest ih =>
    have hmet := matches_met h player level g
    have hasks : asks npc player t g = asks npc player s g := by rw [asks, h.record?, ← asks]
    have htells : tells npc player level t g = tells npc player level s g := by rw [tells, h.record?, ← tells]
    rw [talkInTurn, talkInTurn, talkOnce_eq, talkOnce_eq, hasks, htells]
    by_cases ha : asks npc player s g = true
    · simp only [if_pos ha]
      split
      · exact ih hmet _
      · exact ⟨rfl, hmet⟩
    · simp only [if_neg ha]
      exact ih h message

theorem talk_matches (h : s.Matches t) (ix : Index) (player : PlayerId) (npc : NpcId) :
    (ix.talk t player npc).1 = (ix.talk s player npc).1 ∧ (ix.talk s player npc).2.Matches (ix.talk t player npc).2 := by
  unfold talk
  rw [h.level?]
  cases s.level? player with
  | none => exact ⟨rfl, h⟩
  | some level => exact talkInTurn_matches h _ _

variable {ix : Index} {player killer : PlayerId} {npc : NpcId} {quest : QuestId} {token : String} {now : Instant}
  {dice ds dt : Dice} {s' t' : Sessions}

theorem choose_matches (h : s.Matches t) {o o' : Option Outcome} (hs : ix.choose s player quest token now = .ok (o, s'))
    (ht : ix.choose t player quest token now = .ok (o', t')) : o' = o ∧ s'.Matches t' := by
  unfold choose at hs ht
  rw [h.record?] at ht
  cases hg : ix.get? quest with
  | none =>
    rw [hg] at hs ht
    cases hs
    cases ht
    exact ⟨rfl, h⟩
  | some g =>
    cases hr : s.record? player quest with
    | none =>
      rw [hg, hr] at hs ht
      cases hs
      cases ht
      exact ⟨rfl, h⟩
    | some r =>
      rw [hg, hr] at hs ht
      simp only at hs ht
      obtain ⟨u, hu, he⟩ := map_eq_ok.1 hs
      obtain ⟨v, hv, he'⟩ := map_eq_ok.1 ht
      obtain ⟨rfl, rfl⟩ := Prod.mk.inj he
      obtain ⟨rfl, rfl⟩ := Prod.mk.inj he'
      exact ⟨rfl, (h.modifyRecord ..).applyAll hu hv⟩

theorem killInTurn_matches (h : s.Matches t) {hs : List Hunt} {os os' : List (QuestId × Outcome)}
    (hk : killInTurn npc killer hs s dice = .ok (os, s', ds)) (hk' : killInTurn npc killer hs t dice = .ok (os', t', dt)) :
    os' = os ∧ s'.Matches t' ∧ dt = ds := by
  induction hs generalizing s t dice os os' with
  | nil =>
    cases hk
    cases hk'
    exact ⟨rfl, h, rfl⟩
  | cons g rest ih =>
    have halike : Hunt.Alike g.definition.id killer s t := ⟨h.members? killer, fun player => h.record? player _⟩
    rw [killInTurn, Hunt.kill_eq] at hk hk'
    rw [Hunt.grant?_congr halike, Hunt.bounds_congr halike] at hk'
    cases hg : g.grant? npc killer s dice with
    | none =>
      rw [hg] at hk hk'
      exact ih h hk hk'
    | some grant =>
      rw [hg] at hk hk'
      simp only [Option.elim_some, Grant.isNothing_outcome, Bool.false_eq_true, if_false, Grant.effects_outcome] at hk hk'
      obtain ⟨s₁, hs₁, hk⟩ := bind_eq_ok.1 hk
      obtain ⟨⟨_, _, _⟩, hrest, hk⟩ := bind_eq_ok.1 hk
      obtain ⟨t₁, ht₁, hk'⟩ := bind_eq_ok.1 hk'
      obtain ⟨⟨_, _, _⟩, hrest', hk'⟩ := bind_eq_ok.1 hk'
      cases hk
      cases hk'
      have hm := (h.modifyRecord ..).applyAll (Attempt.within_eq_ok.1 hs₁) (Attempt.within_eq_ok.1 ht₁)
      obtain ⟨rfl, hafter⟩ := ih hm hrest hrest'
      exact ⟨rfl, hafter⟩

theorem process_matches (h : s.Matches t) {event : Event} {o o' : Outcome}
    (hs : ix.process s event now dice = .ok (o, s', ds)) (ht : ix.process t event now dice = .ok (o', t', dt)) :
    o' = o ∧ s'.Matches t' ∧ dt = ds := by
  cases event with
  | npcTalk player npc =>
    obtain ⟨hsaid, hm⟩ := talk_matches h ix player npc
    cases hs
    cases ht
    exact ⟨congrArg Outcome.say hsaid, hm, rfl⟩
  | dialogueChoice player quest token =>
    obtain ⟨⟨out, u⟩, hc, he⟩ := Attempt.map_within_eq_ok.1 hs
    obtain ⟨⟨out', v⟩, hc', he'⟩ := Attempt.map_within_eq_ok.1 ht
    cases he
    cases he'
    obtain ⟨rfl, hm⟩ := choose_matches h hc hc'
    exact ⟨rfl, hm, rfl⟩
  | npcKilled killer npc =>
    obtain ⟨⟨os, u, d⟩, hk, he⟩ := map_eq_ok.1 hs
    obtain ⟨⟨os', v, d'⟩, hk', he'⟩ := map_eq_ok.1 ht
    cases he
    cases he'
    obtain ⟨rfl, hafter⟩ := killInTurn_matches h hk hk'
    exact ⟨rfl, hafter⟩

end Index

/-- The player talks, makes a choice or kills, by a command or as an event. -/
def Command.isAction : Command → Bool
  | .talk .. | .choose .. | .kill .. | .process _ => true
  | _ => false

namespace World

/-- The worlds look the same to quests, and they are the same quests with the same dice. -/
structure Matches (w v : World) : Prop where
  registry : v.registry = w.registry
  dice : v.dice = w.dice
  sessions : w.sessions.Matches v.sessions

variable {w v w' v' : World} {now : Instant} {c : Command}

namespace Matches

theorem reported (h : w.Matches v) (now : Instant) (c : Command) : v.reported now c = w.reported now c := by
  have hchosen : ∀ player quest token, v.chosen now player quest token = w.chosen now player quest token := by
    intro player quest token
    unfold chosen
    rw [h.registry, h.sessions.record?]
  have hkilled : ∀ killer npc, v.killed killer npc = w.killed killer npc := by
    intro killer npc
    unfold killed
    rw [Index.reports_dealt, Index.reports_dealt, h.registry, h.dice, Index.grants_congr fun g _ =>
      ⟨h.sessions.members? killer, fun player => h.sessions.record? player _⟩]
  cases hc : c.choice? with
  | some choice => rw [reported_of_choice hc, reported_of_choice hc, hchosen]
  | none =>
    cases hk : c.kill? with
    | some kill => rw [reported_of_kill hk, reported_of_kill hk, hkilled]
    | none => rw [reported_of_neither hc hk, reported_of_neither hc hk]

/-- Where both carry out what a player does, they give the same answer and look the same afterwards. -/
theorem perform (h : w.Matches v) (hc : c.isAction) {a b : Answer} (hw : w.perform now c = .ok (a, w'))
    (hv : v.perform now c = .ok (b, v')) : b = a ∧ w'.Matches v' := by
  cases c with
  | talk player npc =>
    obtain ⟨hsaid, hm⟩ := Index.talk_matches h.sessions w.registry.index player npc
    rw [World.perform_talk] at hw hv
    rw [h.registry, hsaid] at hv
    cases hw
    cases hv
    exact ⟨rfl, rfl, h.dice, hm⟩
  | choose player quest token =>
    obtain ⟨⟨o, s⟩, hs, he⟩ := Attempt.map_within_eq_ok.1 hw
    obtain ⟨⟨o', t⟩, ht, he'⟩ := Attempt.map_within_eq_ok.1 hv
    cases he
    cases he'
    rw [h.registry] at ht
    obtain ⟨rfl, hm⟩ := Index.choose_matches h.sessions hs ht
    exact ⟨rfl, h.registry, h.dice, hm⟩
  | kill killer npc =>
    obtain ⟨⟨os, s, d⟩, hs, he⟩ := Attempt.map_within_eq_ok.1 hw
    obtain ⟨⟨os', t, d'⟩, ht, he'⟩ := Attempt.map_within_eq_ok.1 hv
    cases he
    cases he'
    rw [h.registry, h.dice] at ht
    obtain ⟨rfl, hm, hd⟩ := Index.killInTurn_matches h.sessions hs ht
    exact ⟨rfl, h.registry, hd, hm⟩
  | process event =>
    obtain ⟨⟨o, s, d⟩, hs, he⟩ := Attempt.map_within_eq_ok.1 hw
    obtain ⟨⟨o', t, d'⟩, ht, he'⟩ := Attempt.map_within_eq_ok.1 hv
    cases he
    cases he'
    rw [h.registry, h.dice] at ht
    obtain ⟨rfl, hm, hd⟩ := Index.process_matches h.sessions hs ht
    exact ⟨rfl, h.registry, hd, hm⟩
  | _ => cases hc

/-- In worlds that look the same, any sequence of actions gives the same answers, as long as none is broken off. -/
theorem carryOut (h : w.Matches v) {cs : List (Instant × Command)} (hcs : ∀ c ∈ cs, c.2.isAction)
    {ts us ts' us' : List Turn} (hw : Play.carryOut ts w cs = (ts', w')) (hv : Play.carryOut us v cs = (us', v'))
    (hts : ∀ t ∈ ts', ∃ a, t.answer = .ok a) (hus : ∀ t ∈ us', ∃ a, t.answer = .ok a)
    (ha : us.map (·.answer) = ts.map (·.answer)) : us'.map (·.answer) = ts'.map (·.answer) ∧ w'.Matches v' := by
  induction cs generalizing w v ts us with
  | nil =>
    cases hw
    cases hv
    exact ⟨ha, h⟩
  | cons c rest ih =>
    obtain ⟨hfirst, hrest⟩ := List.forall_mem_cons.1 hcs
    unfold Play.carryOut at hw hv
    split at hw
    · next a w₁ hpw =>
      split at hv
      · next b v₁ hpv =>
        obtain ⟨rfl, hm⟩ := h.perform hfirst hpw hpv
        exact ih hm hrest hw hv (by rw [List.map_cons, List.map_cons, ha])
      · obtain ⟨_, he⟩ := hus _ (Play.mem_carryOut hv List.mem_cons_self)
        cases he
    · obtain ⟨_, he⟩ := hts _ (Play.mem_carryOut hw List.mem_cons_self)
      cases he

end Matches

end World

end Questline
