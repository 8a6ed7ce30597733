import Questline.Proofs.Company
import Questline.Proofs.Shares
import Questline.Proofs.Talk

/-!
# Players do not get into each other's way

A player who talks, makes a choice, or kills outside of any party reads and writes no session but the own one. So what two
different players do gives the same in either order: the same answers, and the same sessions up to the stamps of the clock;
only the log shows which of the two came first.
-/

namespace Questline

/-- The record without its times; whether there are any is kept. -/
def Record.undated (r : Record) : Record :=
  { r with startedAt := r.startedAt.map fun _ => .epoch, completedAt := r.completedAt.map fun _ => .epoch }

def Session.undated (p : Session) : Session := { p with journal := ⟨p.journal.records.mapValues Record.undated⟩ }

theorem Record.undated_exit (r : Record) (repeatable : Bool) (now now' : Instant) :
    (r.exit repeatable now').1.undated = (r.exit repeatable now).1.undated := by
  unfold exit
  cases repeatable <;> rfl

/-- A choice depends on the clock in the stamps of the record only. -/
theorem Hunt.choose_undated (h : Hunt) (player : PlayerId) (token : String) (r : Record) (now now' : Instant) :
    (h.choose player token r now').1 = (h.choose player token r now).1 ∧
      (h.choose player token r now').2.undated = (h.choose player token r now).2.undated := by
  unfold choose
  split
  · unfold accept
    cases r.phase <;> exact ⟨rfl, rfl⟩
  · split
    · unfold turnIn
      cases r.phase with
      | created | completed => exact ⟨rfl, rfl⟩
      | started => exact ⟨rfl, Record.undated_exit ..⟩
    · exact ⟨rfl, rfl⟩

theorem Session.undated_withJournal {r r' : Record} (h : r'.undated = r.undated) (p : Session) (quest : QuestId) :
    (p.withJournal (·.modify quest fun _ => r')).undated = (p.withJournal (·.modify quest fun _ => r)).undated := by
  have hrecords : ((p.journal.modify quest fun _ => r').records.mapValues Record.undated) =
      (p.journal.modify quest fun _ => r).records.mapValues Record.undated := Table.ext_get? fun quest' => by
    simp only [Journal.modify, Table.get?_mapValues, Table.get?_modify]
    split
    · simp only [Option.map_map]
      exact congrArg (Option.map · _) (funext fun _ => h)
    · rfl
  simp only [undated, withJournal, hrecords]

namespace Sessions

/-- Nobody but the player is affected, and the effects are logged. -/
structure Acts (player : PlayerId) (es : List Effect) (s s' : Sessions) : Prop where
  others : ∀ other, other ≠ player → s'.players.get? other = s.players.get? other
  same : SameParties s s'
  log : s'.log = s.log ++ es

variable {player : PlayerId} {es fs : List Effect} {s t u : Sessions}

theorem Acts.refl (player : PlayerId) (s : Sessions) : Acts player [] s s :=
  ⟨fun _ _ => rfl, .refl s, (List.append_nil _).symm⟩

theorem Acts.trans (h : Acts player es s t) (h' : Acts player fs t u) : Acts player (es ++ fs) s u where
  others other ho := (h'.others other ho).trans (h.others other ho)
  same := h.same.trans h'.same
  log := by rw [h'.log, h.log, List.append_assoc]

theorem Acts.of_advances {quest : QuestId} {r r' : Record} (h : Advances player quest r r' es s t) : Acts player es s t where
  others _ ho := h.others ho
  same := h.sameParties
  log := h.log

theorem acts_enterRecord (s : Sessions) (player : PlayerId) (r : Record) : Acts player [] s (s.enterRecord player r) where
  others other ho := by
    unfold enterRecord
    rw [get?_modifyPlayer, if_neg fun hc => ho hc.symm]
  same := sameParties_enterRecord s player r
  log := (List.append_nil _).symm

theorem Acts.members? (h : Acts player es s t) (player' : PlayerId) : t.members? player' = s.members? player' :=
  h.same.members? player'

end Sessions

namespace Index

open Sessions (Acts)

variable {ix : Index} {npc : NpcId} {player killer : PlayerId} {quest : QuestId} {token : String} {now : Instant}
  {es : List Effect} {s s' : Sessions} {dice dice' : Dice}

theorem acts_talk (ix : Index) (s : Sessions) (player : PlayerId) (npc : NpcId) :
    Acts player [] s (ix.talk s player npc).2 := by
  have hall : ∀ {s es s'}, Chain (ix.Meets npc player) s es s' → Acts player es s s' := fun hc => by
    induction hc with
    | nil s => exact .refl player s
    | cons hm _ ih =>
      cases hm
      exact (Sessions.acts_enterRecord ..).trans ih
  exact hall (talk_chain ix s player npc)

theorem acts_choose {o : Option Outcome} (h : ix.choose s player quest token now = .ok (o, s')) :
    Acts player (Answer.outcome o).effects s s' := by
  rcases choose_cases h with ⟨rfl, rfl⟩ | ⟨_, rfl, hd⟩
  · exact .refl player _
  · obtain ⟨-, -, advance⟩ := hd
    exact .of_advances advance

theorem acts_kill {outcomes : List (QuestId × Outcome)} (h : ix.kill s killer npc dice = .ok (outcomes, s', dice'))
    (ha : s.members? killer = none) : Acts killer (Answer.outcomes outcomes).effects s s' := by
  have hall : ∀ {s es s'}, Chain (ix.Grants npc killer) s es s' → s.members? killer = none → Acts killer es s s' :=
    fun hc ha => by
      induction hc with
      | nil s => exact .refl killer s
      | cons hg _ ih =>
        cases hg with
        | intro served drops entitled started misses grants advance =>
          rcases entitled with ⟨ms, hms, -⟩ | ⟨-, rfl⟩
          · rw [ha] at hms
            cases hms
          · have hfirst := Acts.of_advances advance
            exact hfirst.trans (ih ((hfirst.members? _).trans ha))
  exact hall (kill_chain h) ha

theorem record?_own {t : Sessions} (hp : t.players.get? player = s.players.get? player) (quest : QuestId) :
    t.record? player quest = s.record? player quest := by
  unfold Sessions.record?
  rw [hp]

theorem talkInTurn_own {level : Int32} (hs : List Hunt) (message : Dialogue) {t : Sessions}
    (hp : t.players.get? player = s.players.get? player) :
    (talkInTurn npc player level hs message t).1 = (talkInTurn npc player level hs message s).1 ∧
      (talkInTurn npc player level hs message t).2.players.get? player =
        (talkInTurn npc player level hs message s).2.players.get? player := by
  induction hs generalizing s t message with
  | nil => exact ⟨rfl, hp⟩
  | cons h rest ih =>
    have hrecord := record?_own hp h.definition.id
    have hasks : asks npc player t h = asks npc player s h := by rw [asks, hrecord, ← asks]
    have htells : tells npc player level t h = tells npc player level s h := by rw [tells, hrecord, ← tells]
    have hnew : isNew player level t h = isNew player level s h := by rw [isNew, hrecord, ← isNew]
    have hmet : (met player level t h).players.get? player = (met player level s h).players.get? player := by
      unfold met Sessions.enterRecord
      rw [hnew]
      split
      · rw [Sessions.get?_modifyPlayer, Sessions.get?_modifyPlayer, hp]
      · exact hp
    rw [talkInTurn, talkInTurn, talkOnce_eq, talkOnce_eq, hasks, htells]
    by_cases ha : asks npc player s h = true
    · simp only [if_pos ha]
      split
      · exact ih _ hmet
      · exact ⟨rfl, hmet⟩
    · simp only [if_neg ha]
      exact ih message hp

theorem talk_own (ix : Index) (npc : NpcId) {t : Sessions} (hp : t.players.get? player = s.players.get? player) :
    (ix.talk t player npc).1 = (ix.talk s player npc).1 ∧
      (ix.talk t player npc).2.players.get? player = (ix.talk s player npc).2.players.get? player := by
  have hl : t.level? player = s.level? player := by
    unfold Sessions.level?
    rw [hp]
  unfold talk
  rw [hl]
  cases s.level? player with
  | none => exact ⟨rfl, hp⟩
  | some level => exact talkInTurn_own _ _ hp

theorem choose_own {o : Option Outcome} (h : ix.choose s player quest token now = .ok (o, s')) {t : Sessions}
    (hp : t.players.get? player = s.players.get? player) (now' : Instant) :
    ∃ t', ix.choose t player quest token now' = .ok (o, t') ∧
      (t'.players.get? player).map Session.undated = (s'.players.get? player).map Session.undated := by
  unfold choose at h ⊢
  rw [record?_own hp]
  cases hg : ix.get? quest with
  | none =>
    rw [hg] at h
    cases h
    exact ⟨t, rfl, congrArg _ hp⟩
  | some g =>
    cases hr : s.record? player quest with
    | none =>
      rw [hg, hr] at h
      cases h
      exact ⟨t, rfl, congrArg _ hp⟩
    | some r =>
      rw [hg, hr] at h
      obtain ⟨p, hs, -⟩ := Option.bind_eq_some_iff.1 hr
      obtain ⟨houtcome, hundated⟩ := g.choose_undated player token r now now'
      have hconcerns := (g.decides_choose player token r now).concerns
      simp only at h
      obtain ⟨u, hu, he⟩ := map_eq_ok.1 h
      obtain ⟨rfl, rfl⟩ := Prod.mk.inj he
      obtain ⟨p', hf, rfl⟩ := (Sessions.applyAll_modifyRecord_eq_ok hs hconcerns ..).1 hu
      have ht := (Sessions.applyAll_modifyRecord_eq_ok (hp.trans hs) hconcerns quest fun _ =>
        (g.choose player token r now').2).2 ⟨p', hf, rfl⟩
      simp only [houtcome]
      refine ⟨_, map_eq_ok.2 ⟨_, ht, rfl⟩, ?_⟩
      simp only [Table.get?_insert, if_true, Option.map_some, Session.undated_withJournal hundated]

theorem killInTurn_own {hs : List Hunt} {os : List (QuestId × Outcome)}
    (h : killInTurn npc killer hs s dice = .ok (os, s', dice')) (ha : s.members? killer = none) {t : Sessions}
    (hp : t.players.get? killer = s.players.get? killer) (ht : t.members? killer = none) (die : Dice) :
    ∃ t', killInTurn npc killer hs t die = .ok (os, t', die) ∧ t'.players.get? killer = s'.players.get? killer := by
  induction hs generalizing s t dice os with
  | nil =>
    cases h
    exact ⟨t, rfl, hp⟩
  | cons g rest ih =>
    have hgrant := Hunt.grant?_own ha ht (record?_own hp g.definition.id) npc dice die
    rw [killInTurn, Hunt.kill_eq] at h ⊢
    rw [Hunt.bounds_alone ha, Dice.rollAll_nil] at h
    rw [Hunt.bounds_alone ht, Dice.rollAll_nil, hgrant]
    cases hg : g.grant? npc killer s dice with
    | none =>
      rw [hg] at h
      exact ih h ha hp ht
    | some grant =>
      rw [hg] at h
      simp only [Option.elim_some, Grant.isNothing_outcome, Bool.false_eq_true, if_false, Grant.effects_outcome] at h ⊢
      obtain ⟨s₁, h₁, h⟩ := bind_eq_ok.1 h
      obtain ⟨⟨os₁, u, die₁⟩, h₂, h⟩ := bind_eq_ok.1 h
      cases h
      rw [Attempt.within_eq_ok] at h₁
      obtain rfl : grant.winner = killer := Hunt.winner_alone ha hg
      obtain ⟨-, -, r, -, -, hr, -⟩ := Hunt.grant?_eq_some hg
      obtain ⟨p, hs, -⟩ := Option.bind_eq_some_iff.1 hr
      have ha₁ : s₁.members? grant.winner = none :=
        (Sessions.members?_applyAll h₁ _).trans ((Sessions.members?_modifyRecord ..).trans ha)
      unfold Grant.settle at h₁ ⊢
      obtain ⟨p', hf, rfl⟩ := (Sessions.applyAll_modifyRecord_eq_ok hs grant.effects_player ..).1 h₁
      have ht₁ := (Sessions.applyAll_modifyRecord_eq_ok (hp.trans hs) grant.effects_player grant.quest fun _ =>
        grant.record).2 ⟨p', hf, rfl⟩
      have hat : _ = none :=
        (Sessions.members?_applyAll ht₁ grant.winner).trans ((Sessions.members?_modifyRecord ..).trans ht)
      obtain ⟨t', ht', hown⟩ := ih h₂ ha₁ (by simp only [Table.get?_insert, if_true]) hat
      exact ⟨t', bind_eq_ok.2 ⟨_, Attempt.within_eq_ok.2 ht₁, bind_eq_ok.2 ⟨_, ht', rfl⟩⟩, hown⟩

end Index

/-- The player talks, makes a choice, or kills while in no party. -/
inductive Command.Solo (s : Sessions) (player : PlayerId) : Command → Prop where
  | talk (npc : NpcId) : Solo s player (.talk player npc)
  | choose (quest : QuestId) (token : String) : Solo s player (.choose player quest token)
  | kill (npc : NpcId) (alone : s.members? player = none) : Solo s player (.kill player npc)

theorem Command.Solo.congr {s t : Sessions} {player : PlayerId} {c : Command} (h : c.Solo s player)
    (hm : t.members? player = s.members? player) : c.Solo t player := by
  cases h with
  | talk npc => exact .talk npc
  | choose quest token => exact .choose quest token
  | kill npc alone => exact .kill npc (hm.trans alone)

namespace World

open Sessions (Acts)

variable {w w' w₁ w₂ : World} {player : PlayerId} {c : Command} {a : Answer} {now : Instant}

theorem acts_perform (hc : c.Solo w.sessions player) (h : w.perform now c = .ok (a, w')) :
    w'.registry = w.registry ∧ w'.dice = w.dice ∧ Acts player a.effects w.sessions w'.sessions := by
  cases hc with
  | talk npc =>
    cases h
    exact ⟨rfl, rfl, Index.acts_talk ..⟩
  | choose quest token =>
    obtain ⟨⟨o, s⟩, ho, he⟩ := Attempt.map_within_eq_ok.1 h
    cases he
    exact ⟨rfl, rfl, Index.acts_choose ho⟩
  | kill npc alone =>
    obtain ⟨⟨os, s, dice⟩, hk, he⟩ := Attempt.map_within_eq_ok.1 h
    cases he
    obtain ⟨t, ht, -⟩ := Index.killInTurn_own hk alone rfl alone w.dice
    cases hk.symm.trans ht
    exact ⟨rfl, rfl, Index.acts_kill hk alone⟩

/-- Only the player's own session matters. -/
theorem perform_own (hc : c.Solo w.sessions player) (h : w.perform now c = .ok (a, w')) {v : World}
    (hr : v.registry = w.registry) (hv : c.Solo v.sessions player)
    (hp : v.sessions.players.get? player = w.sessions.players.get? player) (now' : Instant) :
    ∃ v', v.perform now' c = .ok (a, v') ∧
      (v'.sessions.players.get? player).map Session.undated = (w'.sessions.players.get? player).map Session.undated := by
  cases hc with
  | talk npc =>
    rw [perform_talk] at h
    obtain ⟨rfl, rfl⟩ := Prod.mk.inj (Except.ok.inj h)
    obtain ⟨hsaid, hown⟩ := Index.talk_own w.registry.index npc hp
    refine ⟨{ v with sessions := (w.registry.index.talk v.sessions player npc).2 }, ?_, congrArg _ hown⟩
    rw [perform_talk, hr, hsaid]
  | choose quest token =>
    obtain ⟨⟨o, s⟩, ho, he⟩ := Attempt.map_within_eq_ok.1 h
    cases he
    obtain ⟨t, ht, hown⟩ := Index.choose_own ho hp now'
    rw [← hr] at ht
    exact ⟨_, Attempt.map_within_eq_ok.2 ⟨_, ht, rfl⟩, hown⟩
  | kill npc alone =>
    obtain ⟨⟨os, s, dice⟩, hk, he⟩ := Attempt.map_within_eq_ok.1 h
    cases he
    cases hv with
    | kill _ alone' =>
      obtain ⟨t, ht, hown⟩ := Index.killInTurn_own hk alone hp alone' v.dice
      rw [← hr] at ht
      exact ⟨_, Attempt.map_within_eq_ok.2 ⟨_, ht, rfl⟩, congrArg _ hown⟩

/-- Two different players each talk, make a choice, or kill while in no party. If that succeeds in one order, without an
overflow, it succeeds in the other order as well, whatever the clock shows: with the same answers, the same sessions up to
the stamps of the clock, and a log in which the effects of the two have changed places. And what a player is answered, and
what becomes of the player's session, depends on nothing but the quests that are served and that session. -/
theorem solo_turns_commute {player' : PlayerId} (hne : player ≠ player') {c' : Command} {a' : Answer} {now' : Instant}
    (hc : c.Solo w.sessions player) (hc' : c'.Solo w.sessions player') (h : w.perform now c = .ok (a, w₁))
    (h' : w₁.perform now' c' = .ok (a', w₂)) :
    (∀ now₁ now₂, ∃ v₁ v₂, w.perform now₁ c' = .ok (a', v₁) ∧ v₁.perform now₂ c = .ok (a, v₂) ∧
      v₂.registry = w₂.registry ∧ v₂.dice = w₂.dice ∧
      (∀ other, (v₂.sessions.players.get? other).map Session.undated =
        (w₂.sessions.players.get? other).map Session.undated) ∧
      v₂.sessions.parties = w₂.sessions.parties ∧ v₂.sessions.nextParty = w₂.sessions.nextParty ∧
      w₂.sessions.log = w.sessions.log ++ (a.effects ++ a'.effects) ∧
      v₂.sessions.log = w.sessions.log ++ (a'.effects ++ a.effects)) ∧
    ∀ v : World, v.registry = w.registry → ∀ now₁,
      (v.sessions.players.get? player = w.sessions.players.get? player → c.Solo v.sessions player →
        ∃ v₁, v.perform now₁ c = .ok (a, v₁) ∧ (v₁.sessions.players.get? player).map Session.undated =
          (w₁.sessions.players.get? player).map Session.undated) ∧
      (v.sessions.players.get? player' = w.sessions.players.get? player' → c'.Solo v.sessions player' →
        ∃ v₁, v.perform now₁ c' = .ok (a', v₁) ∧ (v₁.sessions.players.get? player').map Session.undated =
          (w₂.sessions.players.get? player').map Session.undated) := by
  obtain ⟨hregistry, hdice, hacts⟩ := acts_perform hc h
  have hc₁ : c'.Solo w₁.sessions player' := hc'.congr (hacts.members? player')
  obtain ⟨hregistry', hdice', hacts'⟩ := acts_perform hc₁ h'
  have hfound : w₁.sessions.players.get? player' = w.sessions.players.get? player' := hacts.others player' hne.symm
  refine ⟨fun now₁ now₂ => ?_, fun v hr now₁ => ⟨fun hp hv => perform_own hc h hr hv hp now₁, fun hp hv =>
    perform_own hc₁ h' (hr.trans hregistry.symm) hv (hp.trans hfound.symm) now₁⟩⟩
  obtain ⟨v₁, hv₁, hown'⟩ := perform_own hc₁ h' hregistry.symm hc' hfound.symm now₁
  obtain ⟨hr₁, hd₁, hacts₁⟩ := acts_perform hc' hv₁
  have hc₂ : c.Solo v₁.sessions player := hc.congr (hacts₁.members? player)
  obtain ⟨v₂, hv₂, hown⟩ := perform_own hc h hr₁ hc₂ (hacts₁.others player hne) now₂
  obtain ⟨hr₂, hd₂, hacts₂⟩ := acts_perform hc₂ hv₂
  refine ⟨v₁, v₂, hv₁, hv₂, ?_, ?_, fun other => ?_, ?_, ?_, ?_, ?_⟩
  · rw [hr₂, hr₁, hregistry', hregistry]
  · rw [hd₂, hd₁, hdice', hdice]
  · by_cases ho : other = player
    · subst ho
      rw [hown, hacts'.others _ hne]
    · rw [hacts₂.others other ho]
      by_cases ho' : other = player'
      · subst ho'
        exact hown'
      · rw [hacts₁.others other ho', hacts'.others other ho', hacts.others other ho]
  · rw [hacts₂.same.parties, hacts₁.same.parties, hacts'.same.parties, hacts.same.parties]
  · rw [hacts₂.same.nextParty, hacts₁.same.nextParty, hacts'.same.nextParty, hacts.same.nextParty]
  · rw [hacts'.log, hacts.log, List.append_assoc]
  · rw [hacts₂.log, hacts₁.log, List.append_assoc]

/-- One player ends the quest while another one collects for it. -/
theorem solo_turns_commute_schuttgart :
    let started : Record := { Record.fresh ⟨10280⟩ [⟨13838⟩, ⟨13839⟩] with phase := .started, cond := some Hunt.collecting }
    let p : Session := { Session.fresh 60 with journal := Journal.empty.enter started }
    let w : World := { World.schuttgart with sessions := { Sessions.empty with players := .ofList [("a", p), ("b", p)] } }
    let ending : Command := .choose "a" ⟨10280⟩ "31972-03.htm"
    let collecting : Command := .kill "b" ⟨18571⟩
    ending.Solo w.sessions "a" ∧ collecting.Solo w.sessions "b" ∧
      ∃ a a' w₁ w₂ v₁ v₂, w.perform .epoch ending = .ok (a, w₁) ∧ w₁.perform .epoch collecting = .ok (a', w₂) ∧
        w.perform .epoch collecting = .ok (a', v₁) ∧ v₁.perform .epoch ending = .ok (a, v₂) ∧
        w₂.sessions.log = [.reward "a" ⟨57⟩ 210000, .playSound "a" .questFinish,
          .itemGiven "b" ⟨10280⟩ ⟨13838⟩ 1, .playSound "b" .itemGet] ∧
        v₂.sessions.log = [.itemGiven "b" ⟨10280⟩ ⟨13838⟩ 1, .playSound "b" .itemGet,
          .reward "a" ⟨57⟩ 210000, .playSound "a" .questFinish] := by
  intro started p w ending collecting
  have hending : ending.Solo w.sessions "a" := .choose ⟨10280⟩ "31972-03.htm"
  have hcollecting : collecting.Solo w.sessions "b" := .kill ⟨18571⟩ (by decide +kernel)
  have hall : (w.perform .epoch ending).toOption.any fun q =>
      decide (q.1.effects = [.reward "a" ⟨57⟩ 210000, .playSound "a" .questFinish]) &&
      (q.2.perform .epoch collecting).toOption.any fun q' =>
        decide (q'.1.effects = [.itemGiven "b" ⟨10280⟩ ⟨13838⟩ 1, .playSound "b" .itemGet]) := by
    decide +kernel
  obtain ⟨⟨a, w₁⟩, h, hk⟩ := exists_ok_of_any hall
  obtain ⟨ha, hk⟩ := Bool.and_eq_true_iff.1 hk
  obtain ⟨⟨a', w₂⟩, h', ha'⟩ := exists_ok_of_any hk
  obtain ⟨hswap, -⟩ := solo_turns_commute (by decide) hending hcollecting h h'
  obtain ⟨v₁, v₂, hv₁, hv₂, -, -, -, -, -, hlog, hlog'⟩ := hswap .epoch .epoch
  rw [of_decide_eq_true ha, of_decide_eq_true ha'] at hlog hlog'
  exact ⟨hending, hcollecting, a, a', w₁, w₂, v₁, v₂, h, h', hv₁, hv₂, hlog, hlog'⟩

end World

end Questline
