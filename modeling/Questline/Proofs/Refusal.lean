import Questline.Proofs.Acceptance
import Questline.Proofs.Company
import Questline.Proofs.Report

/-!
# What comes to nothing changes nothing

A choice without outcome or with a refusal for an answer, a token that no quest knows, a kill that brings nothing, a talk
with a stranger, a party of fewer than two, a player who leaves no party, and records and effects for nobody:
`World.Spares` lists them, each with the world as it was. Only the dice that a kill rolls are gone.
-/

namespace Questline

/-- The answer is that there is no quest, or that it is completed already. -/
def Outcome.Refuses (o : Outcome) : Prop := o.dialogue = some .noQuest ∨ o.dialogue = some .alreadyCompleted

namespace Hunt

variable {h : Hunt} {npc : NpcId} {killer : PlayerId} {s : Sessions} {dice : Dice} {drop : Drop}

/-- Why the death of a character brings nothing to a hunt. -/
inductive Withholds (h : Hunt) (npc : NpcId) (killer : PlayerId) (s : Sessions) (dice : Dice) : Prop where
  /-- The character drops nothing. -/
  | barren (drops : h.definition.dropFor npc = none)
  /-- The die lies outside of the candidates in the party, of which there may be none. -/
  | missed {members : List PlayerId} (company : s.members? killer = some members)
      (outside : (h.candidates npc killer s).length ≤ dice.rolls.headD 0)
  /-- The killer, who is alone, is not eligible. -/
  | unfit {drop : Drop} (drops : h.definition.dropFor npc = some drop) (alone : s.members? killer = none)
      (unfit : (s.record? killer h.definition.id).any (soloEligible drop) = false)
  /-- The record of the player who is drawn takes nothing. -/
  | refused {drop : Drop} {winner : PlayerId} {r : Record} (drops : h.definition.dropFor npc = some drop)
      (drawn : h.drawn killer s dice drop = some winner) (record : s.record? winner h.definition.id = some r)
      (nothing : (r.give drop.item drop.count drop.max).2 = 0)

theorem drawn_party {members : List PlayerId} (hd : h.definition.dropFor npc = some drop)
    (hm : s.members? killer = some members) :
    h.drawn killer s dice drop = (h.candidates npc killer s)[dice.rolls.headD 0]? := by
  simp only [drawn, hm, Arbitration.pick_party_fst, candidates, hd, Option.elim_some]

theorem Withholds.grant?_eq_none (hw : h.Withholds npc killer s dice) : h.grant? npc killer s dice = none := by
  refine Option.eq_none_iff_forall_ne_some.2 fun g hg => ?_
  obtain ⟨-, drop, r, hd, hdrawn, hr, hgrant⟩ := grant?_eq_some hg
  cases hw with
  | barren drops =>
    rw [hd] at drops
    cases drops
  | missed company outside =>
    rw [drawn_party hd company, List.getElem?_eq_none_iff.2 outside] at hdrawn
    cases hdrawn
  | unfit drops alone unfit =>
    obtain rfl := Option.some.inj (hd.symm.trans drops)
    rw [drawn_alone alone, unfit] at hdrawn
    cases hdrawn
  | refused drops drawn record nothing =>
    obtain rfl := Option.some.inj (hd.symm.trans drops)
    obtain rfl := Option.some.inj (hdrawn.symm.trans drawn)
    obtain rfl := Option.some.inj (hr.symm.trans record)
    rw [granted, if_pos nothing] at hgrant
    cases hgrant

theorem grant?_eq_none_iff : h.grant? npc killer s dice = none ↔ h.Withholds npc killer s dice := by
  refine ⟨fun hn => ?_, Withholds.grant?_eq_none⟩
  unfold grant? at hn
  cases hd : h.definition.dropFor npc with
  | none => exact .barren hd
  | some drop =>
    rw [hd, Option.bind_some] at hn
    cases hw : h.drawn killer s dice drop with
    | none =>
      cases hm : s.members? killer with
      | none =>
        rw [drawn_alone hm] at hw
        exact .unfit hd hm (by simpa using hw)
      | some members =>
        rw [drawn_party hd hm] at hw
        exact .missed hm (List.getElem?_eq_none_iff.1 hw)
    | some winner =>
      obtain ⟨r, hr⟩ := record?_of_drawn hw
      rw [hw, Option.bind_some, hr, Option.bind_some, granted] at hn
      split at hn
      · next hz => exact .refused hd hw hr hz
      · cases hn

theorem withholds_of_full (hd : h.definition.dropFor npc = some drop)
    (hf : ∀ player r, s.record? player h.definition.id = some r → drop.max ≤ r.count drop.item) (dice : Dice) :
    h.Withholds npc killer s dice := by
  refine grant?_eq_none_iff.1 ?_
  cases hg : h.grant? npc killer s dice with
  | none => rfl
  | some g =>
    obtain ⟨-, drop', r, hd', hw, hr, -⟩ := grant?_eq_some hg
    rw [hd] at hd'
    cases hd'
    obtain ⟨-, -, hmisses⟩ := Index.entitled_of_pick hr hw
    exact absurd (hf _ r hr) (UInt32.not_le.2 hmisses)

variable {player : PlayerId} {token : String} {r : Record} {now : Instant}

theorem choose_of_stray (ha : token ≠ h.acceptToken) (ht : token ≠ h.turnInToken) :
    h.choose player token r now = (.say (.page token), r) := by
  unfold choose
  rw [if_neg ha, if_neg ht]

theorem choose_of_refuses (hd : (h.choose player token r now).1.Refuses) :
    ∃ dialogue, h.choose player token r now = (.say dialogue, r) := by
  unfold Outcome.Refuses choose at hd
  unfold choose
  split at hd
  · next ha =>
    rw [if_pos ha]
    unfold accept at hd ⊢
    cases hp : r.phase <;> simp [hp, Outcome.say] at hd ⊢
  · next ha =>
    rw [if_neg ha]
    split at hd
    · next ht =>
      rw [if_pos ht]
      unfold turnIn at hd ⊢
      cases hp : r.phase <;> simp [hp, Outcome.say] at hd ⊢
    · simp [Outcome.say] at hd

end Hunt

theorem Table.modify_eq_self {κ ν : Type} [Ord κ] [Std.TransOrd κ] [Std.LawfulEqOrd κ] [DecidableEq κ] {t : Table κ ν}
    {k : κ} {f : ν → ν} (h : ∀ v, t.get? k = some v → f v = v) : t.modify k f = t :=
  ext_get? fun k' => by
    rw [get?_modify]
    split
    · next he =>
      subst he
      cases hv : t.get? k with
      | none => rfl
      | some v => rw [Option.map_some, h v hv]
    · rfl

namespace Sessions

variable {s : Sessions} {player : PlayerId} {r : Record}

theorem modifyPlayer_eq_self {f : Session → Session} (h : ∀ p, s.players.get? player = some p → f p = p) :
    s.modifyPlayer player f = s := by
  unfold modifyPlayer
  rw [Table.modify_eq_self h]

theorem modifyRecord_eq_self {quest : QuestId} (h : s.record? player quest = some r) :
    (s.modifyRecord player quest fun _ => r) = s := by
  refine modifyPlayer_eq_self fun p hp => ?_
  have hr : p.journal.get? quest = some r := by rwa [record?, hp] at h
  have hj : (p.journal.modify quest fun _ => r) = p.journal := by
    unfold Journal.modify
    rw [Table.modify_eq_self fun r' hr' => Option.some.inj (hr.symm.trans hr')]
  rw [hj]

theorem enterRecord_of_unknown (h : s.players.get? player = none) : s.enterRecord player r = s :=
  modifyPlayer_eq_self fun p hp => by rw [h] at hp; cases hp

theorem enterRecord_of_recorded (h : (s.record? player r.quest).isSome) : s.enterRecord player r = s := by
  refine modifyPlayer_eq_self fun p hp => ?_
  have hc : p.journal.records.contains r.quest := by rwa [record?, hp] at h
  have hj : p.journal.enter r = p.journal := if_pos hc
  rw [hj]

theorem apply_of_unknown {e : Effect} (h : s.players.get? e.player = none) : s.apply e = .ok s := by
  unfold apply
  rw [h]

end Sessions

namespace Index

variable {ix : Index} {s t : Sessions} {player : PlayerId} {quest : QuestId} {token : String} {now : Instant}

theorem choose_of_unmet (h : ix.get? quest = none ∨ s.record? player quest = none) :
    ix.choose s player quest token now = .ok (none, s) := by
  unfold choose
  rcases h with h | h
  · rw [h]
  · rw [h]
    cases ix.get? quest <;> rfl

/-- A quest that only says something leaves the sessions as they are. -/
theorem choose_of_say {g : Hunt} {r : Record} {dialogue : Dialogue} (hg : ix.get? quest = some g)
    (hr : s.record? player quest = some r) (hd : g.choose player token r now = (.say dialogue, r)) :
    ix.choose s player quest token now = .ok (some (.say dialogue), s) := by
  unfold choose
  rw [hg, hr]
  simp only [hd, Sessions.modifyRecord_eq_self hr]
  rfl

theorem choose_of_stray {g : Hunt} (hg : ix.get? quest = some g) (ha : token ≠ g.acceptToken)
    (ht : token ≠ g.turnInToken) : ∃ o, ix.choose s player quest token now = .ok (o, s) := by
  cases hr : s.record? player quest with
  | none => exact ⟨none, choose_of_unmet (.inr hr)⟩
  | some r => exact ⟨_, choose_of_say hg hr (Hunt.choose_of_stray ha ht)⟩

theorem choose_of_refuses {g : Hunt} {r : Record} (hg : ix.get? quest = some g) (hr : s.record? player quest = some r)
    (hd : (g.choose player token r now).1.Refuses) :
    ix.choose s player quest token now = .ok (some (g.choose player token r now).1, s) := by
  obtain ⟨dialogue, hsay⟩ := Hunt.choose_of_refuses hd
  rw [choose_of_say hg hr hsay, hsay]

/-- Without an outcome, or with one that refuses, a choice leaves the sessions as they are. -/
theorem sessions_of_refuses {o : Option Outcome} (h : ix.choose s player quest token now = .ok (o, t))
    (hd : ∀ out, o = some out → out.Refuses) : t = s := by
  cases hg : ix.get? quest with
  | none =>
    rw [choose_of_unmet (.inl hg)] at h
    cases h
    rfl
  | some g =>
    cases hr : s.record? player quest with
    | none =>
      rw [choose_of_unmet (.inr hr)] at h
      cases h
      rfl
    | some r =>
      have hout : o = some (g.choose player token r now).1 := by
        have hc := h
        unfold choose at hc
        rw [hg, hr] at hc
        obtain ⟨u, -, he⟩ := map_eq_ok.1 hc
        cases he
        rfl
      rw [choose_of_refuses hg hr (hd _ hout)] at h
      cases h
      rfl

variable {npc : NpcId} {killer : PlayerId} {hs : List Hunt} {dice dice' : Dice} {os : List (QuestId × Outcome)}

/-- Hunts report no effects exactly when none of them grants anything, and then they leave the sessions as they are. -/
theorem killInTurn_nothing_iff :
    killInTurn npc killer hs s dice = .ok (os, t, dice') ∧ os.flatMap (·.2.effects) = [] ↔
      (∀ e ∈ dealt npc killer s hs dice, e.1.Withholds npc killer s e.2) ∧ os = [] ∧ t = s ∧
        dice' = dice.rollAll (hs.flatMap (·.bounds npc killer s)) := by
  induction hs generalizing dice with
  | nil =>
    rw [killInTurn, dealt, List.flatMap_nil, Dice.rollAll_nil]
    simp only [Except.ok.injEq, Prod.mk.injEq, List.not_mem_nil, false_implies, implies_true, true_and]
    constructor
    · rintro ⟨⟨rfl, rfl, rfl⟩, -⟩
      exact ⟨rfl, rfl, rfl⟩
    · rintro ⟨rfl, rfl, rfl⟩
      exact ⟨⟨rfl, rfl, rfl⟩, rfl⟩
  | cons h rest ih =>
    rw [killInTurn, Hunt.kill_eq, dealt, List.forall_mem_cons, ← Hunt.grant?_eq_none_iff, List.flatMap_cons,
      ← Dice.rollAll_rollAll]
    cases hg : h.grant? npc killer s dice with
    | none =>
      rw [eq_self, true_and]
      exact ih
    | some g =>
      refine iff_of_false (fun hk => ?_) fun hk => by cases hk.1.1
      obtain ⟨u, -, hk₂⟩ := bind_eq_ok.1 hk.1
      obtain ⟨⟨os', u', d⟩, -, he⟩ := bind_eq_ok.1 hk₂
      cases he
      cases hk.2

end Index

namespace World

variable {w w' : World} {now : Instant} {c : Command} {a : Answer}

/-- A choice is answered with its outcome, and as an event also when there is none. -/
theorem perform_choice {player : PlayerId} {quest : QuestId} {token : String} (w : World) (now : Instant)
    (hc : c.choice? = some (player, quest, token)) :
    ∃ answer : Option Outcome → Answer, (∀ o, answer (some o) = .outcome (some o)) ∧
      w.perform now c = ((w.registry.index.choose w.sessions player quest token now).within fun sessions =>
        { w with sessions }).map fun (o, sessions) => (answer o, { w with sessions }) := by
  unfold Command.choice? at hc
  split at hc <;> cases hc
  · exact ⟨.outcome, fun _ => rfl, rfl⟩
  · refine ⟨fun o => .outcome (some (o.getD (.say .noQuest))), fun _ => rfl, ?_⟩
    change (Attempt.within _ (((w.registry.index.choose w.sessions player quest token now).within _).map _)).map _ = _
    cases w.registry.index.choose w.sessions player quest token now <;> rfl

theorem perform_kill {killer : PlayerId} {npc : NpcId} (w : World) (now : Instant) (hc : c.kill? = some (killer, npc)) :
    ∃ answer : List (QuestId × Outcome) → Answer, (∀ os, (answer os).effects = os.flatMap (·.2.effects)) ∧
      w.perform now c = ((w.registry.index.kill w.sessions killer npc w.dice).within fun (sessions, dice) =>
        { w with sessions, dice }).map fun (os, sessions, dice) => (answer os, { w with sessions, dice }) := by
  unfold Command.kill? at hc
  split at hc <;> cases hc
  · exact ⟨.outcomes, fun _ => rfl, rfl⟩
  · refine ⟨fun os => .outcome (some ⟨none, os.flatMap (·.2.effects)⟩), fun _ => rfl, ?_⟩
    change (Attempt.within _ ((w.registry.index.kill w.sessions killer npc w.dice).map _)).map _ = _
    cases w.registry.index.kill w.sessions killer npc w.dice <;> rfl

theorem perform_talk_of_stranger {player : PlayerId} {npc : NpcId} (w : World) (now : Instant)
    (hc : c.talk? = some (player, npc))
    (h : w.sessions.players.get? player = none ∨ w.registry.index.talkHunts npc = []) :
    ∃ a, w.perform now c = .ok (a, w) := by
  have ht : w.registry.index.talk w.sessions player npc = (.noQuest, w.sessions) := by
    unfold Index.talk Sessions.level?
    rcases h with h | h
    · rw [h]
      rfl
    · rw [h]
      cases w.sessions.players.get? player <;> rfl
  unfold Command.talk? at hc
  split at hc <;> cases hc
  · exact ⟨.dialogue .noQuest, by simp only [perform, ht]⟩
  · exact ⟨.outcome (some (.say .noQuest)), by simp only [perform, Index.process, ht]; rfl⟩

theorem perform_leaveParty_of_none {player : PlayerId} (w : World) (now : Instant)
    (h : w.sessions.party? player = none) : w.perform now (.leaveParty player) = .ok (.done, w) := by
  have hl : w.sessions.leaveParty player = w.sessions := by
    unfold Sessions.party? at h
    unfold Sessions.leaveParty
    rw [h]
  simp only [perform, hl]

theorem perform_formParty_of_few {names : List PlayerId} (w : World) (now : Instant)
    (h : (w.sessions.known names).length < 2) : w.perform now (.formParty names) = .ok (.party none, w) := by
  have hf : w.sessions.formParty names = .ok (w.sessions, none) := if_pos h
  simp only [perform, hf]
  rfl

/-- What comes to nothing leaves the world as it was, but for the dice that were rolled. -/
structure Spares (w : World) (now : Instant) : Prop where
  /-- The quest is not served, or the player has no record of it. -/
  unmet : ∀ c player quest token, c.choice? = some (player, quest, token) →
    w.registry.index.get? quest = none ∨ w.sessions.record? player quest = none → ∃ a, w.perform now c = .ok (a, w)
  nothing : ∀ player quest token w', w.perform now (.choose player quest token) = .ok (.outcome none, w') → w' = w
  refuses : ∀ c player quest token o, c.choice? = some (player, quest, token) →
    w.chosen now player quest token = some o → o.Refuses → w.perform now c = .ok (.outcome (some o), w)
  refused : ∀ c player quest token o w', c.choice? = some (player, quest, token) →
    w.perform now c = .ok (.outcome (some o), w') → o.Refuses → w' = w
  stray : ∀ c player quest token h, c.choice? = some (player, quest, token) → w.registry.index.get? quest = some h →
    token ≠ h.acceptToken → token ≠ h.turnInToken → ∃ a, w.perform now c = .ok (a, w)
  /-- A kill has no effects exactly when each quest finds a reason to withhold its drop. -/
  withheld : ∀ c killer npc, c.kill? = some (killer, npc) →
    ((∃ a w', w.perform now c = .ok (a, w') ∧ a.effects = []) ↔
      ∀ e ∈ Index.dealt npc killer w.sessions (w.registry.index.killHunts npc) w.dice,
        e.1.Withholds npc killer w.sessions e.2)
  /-- That every record of the quest is full is such a reason. -/
  full : ∀ (h : Hunt) npc killer (drop : Drop) dice, h.definition.dropFor npc = some drop →
    (∀ player r, w.sessions.record? player h.definition.id = some r → drop.max ≤ r.count drop.item) →
      h.Withholds npc killer w.sessions dice
  kill : ∀ c killer npc a w', c.kill? = some (killer, npc) → w.perform now c = .ok (a, w') → a.effects = [] →
    w' = { w with dice := w'.dice }
  stranger : ∀ c player npc, c.talk? = some (player, npc) →
    w.sessions.players.get? player = none ∨ w.registry.index.talkHunts npc = [] → ∃ a, w.perform now c = .ok (a, w)
  formParty : ∀ names w', w.perform now (.formParty names) = .ok (.party none, w') → w' = w
  few : ∀ names, (w.sessions.known names).length < 2 → w.perform now (.formParty names) = .ok (.party none, w)
  leaveParty : ∀ player, w.sessions.party? player = none ∨ w.sessions.Aligned ∧ w.sessions.members? player = none →
    w.perform now (.leaveParty player) = .ok (.done, w)
  enterRecord : ∀ player r, w.sessions.players.get? player = none ∨ (w.sessions.record? player r.quest).isSome →
    w.sessions.enterRecord player r = w.sessions
  apply : ∀ e, w.sessions.players.get? e.player = none → w.sessions.apply e = .ok w.sessions

/-- In every world, whatever is served and whoever is present. -/
theorem spares (w : World) (now : Instant) : w.Spares now where
  unmet c player quest token hc h := by
    obtain ⟨answer, -, hp⟩ := perform_choice w now hc
    rw [hp, Index.choose_of_unmet h]
    exact ⟨answer none, rfl⟩
  nothing player quest token w' h := by
    obtain ⟨⟨o, s⟩, ho, he⟩ := Attempt.map_within_eq_ok.1 h
    cases he
    rw [Index.sessions_of_refuses ho nofun]
  refuses c player quest token o hc h hd := by
    obtain ⟨answer, hsome, hp⟩ := perform_choice w now hc
    obtain ⟨g, r, hg, hr, rfl⟩ := chosen_eq_some h
    rw [hp, Index.choose_of_refuses hg hr hd, ← hsome]
    rfl
  refused c player quest token o w' hc h hd := by
    obtain ⟨answer, hsome, hp⟩ := perform_choice w now hc
    rw [hp] at h
    obtain ⟨⟨o', s⟩, ho, he⟩ := Attempt.map_within_eq_ok.1 h
    obtain ⟨ha, rfl⟩ := Prod.mk.inj he
    have hs := Index.sessions_of_refuses ho fun out hout => by
      rw [hout, hsome, Answer.outcome.injEq, Option.some.injEq] at ha
      rwa [ha]
    rw [hs]
  stray c player quest token h hc hg ha ht := by
    obtain ⟨answer, -, hp⟩ := perform_choice w now hc
    have hstray : ∃ o, w.registry.index.choose w.sessions player quest token now = .ok (o, w.sessions) :=
      Index.choose_of_stray hg ha ht
    obtain ⟨o, ho⟩ := hstray
    rw [hp, ho]
    exact ⟨answer o, rfl⟩
  withheld c killer npc hc := by
    obtain ⟨answer, heffects, hp⟩ := perform_kill w now hc
    rw [hp]
    constructor
    · rintro ⟨a, w', h, ha⟩
      obtain ⟨⟨os, s, dice⟩, hk, he⟩ := Attempt.map_within_eq_ok.1 h
      cases he
      rw [heffects] at ha
      exact (Index.killInTurn_nothing_iff.1 ⟨hk, ha⟩).1
    · intro h
      obtain ⟨hk, -⟩ := Index.killInTurn_nothing_iff.2 ⟨h, rfl, rfl, rfl⟩
      exact ⟨answer [], _, Attempt.map_within_eq_ok.2 ⟨_, hk, rfl⟩, heffects []⟩
  full h npc killer drop dice hd hf := Hunt.withholds_of_full hd hf dice
  kill c killer npc a w' hc h ha := by
    obtain ⟨answer, heffects, hp⟩ := perform_kill w now hc
    rw [hp] at h
    obtain ⟨⟨os, s, dice⟩, hk, he⟩ := Attempt.map_within_eq_ok.1 h
    cases he
    rw [heffects] at ha
    obtain ⟨-, -, hs, -⟩ := Index.killInTurn_nothing_iff.1 ⟨hk, ha⟩
    rw [hs]
  stranger c player npc hc h := perform_talk_of_stranger w now hc h
  formParty names w' h := by
    by_cases hf : (w.sessions.known names).length < 2
    · rw [perform_formParty_of_few w now hf] at h
      cases h
      rfl
    · obtain ⟨⟨s, party⟩, hp, he⟩ := Attempt.map_within_eq_ok.1 h
      cases he
      rw [Sessions.formParty_eq, if_neg hf] at hp
      split at hp <;> cases hp
  few names h := perform_formParty_of_few w now h
  leaveParty player h := by
    refine perform_leaveParty_of_none w now ?_
    rcases h with h | ⟨ha, hm⟩
    · exact h
    · cases hp : w.sessions.party? player with
      | none => rfl
      | some k =>
        obtain ⟨members, hk, -⟩ := (ha.listed player k).1 hp
        rw [Sessions.members?_eq, hp, Option.bind_some, hk] at hm
        cases hm
  enterRecord player r h := h.elim Sessions.enterRecord_of_unknown Sessions.enterRecord_of_recorded
  apply e h := Sessions.apply_of_unknown h

end World

end Questline
