import Questline.Proofs.Balance
import Questline.World

/-!
# What a fault leaves behind

A fault strikes late. When a balance does not fit, the quest has decided, its record has changed, and the effects before the
one that fails have been applied; when there is no number for a new party, its members have left their old ones. All of that
stays. `World.lapses_of_perform` says so for every command that is broken off.
-/

namespace Questline

namespace Session

variable {p p' : Session} {fault : Fault}

theorem receive_eq_error {e : Effect} (h : p.receive e = .error (fault, p')) :
    fault = .balance ∧ ∃ inventory, p' = { p with inventory } := by
  cases e with
  | playSound => cases h
  | itemGiven | reward =>
    obtain ⟨hf, rfl, -⟩ := credit_eq_error_iff.1 h
    exact ⟨hf, _, rfl⟩
  | itemsRemoved player quest items =>
    obtain ⟨done, e, rest, p₁, -, hdone, he⟩ := foldlM_eq_error_iff.1 h
    obtain ⟨inventory, rfl⟩ := foldlM_debit_eq_ok hdone
    obtain ⟨hf, rfl, -⟩ := debit_eq_error_iff.1 he
    exact ⟨hf, inventory, rfl⟩

end Session

namespace Sessions

variable {player : PlayerId} {quest : QuestId} {r r' : Record} {done : List Effect} {e : Effect} {s s' : Sessions}

/-- Of all there is, at most one player's inventory differs. -/
inductive Slips (player : PlayerId) (s : Sessions) : Sessions → Prop where
  | intro {p : Session} {inventory : Table ItemId Int64} (present : s.players.get? player = some p) :
    Slips player s { s with players := s.players.insert player { p with inventory } }

theorem slips_of_apply {fault : Fault} (h : s.apply e = .error (fault, s')) :
    fault = .balance ∧ Slips e.player s s' := by
  unfold apply at h
  cases hp : s.players.get? e.player with
  | none =>
    rw [hp] at h
    cases h
  | some p =>
    rw [hp] at h
    obtain ⟨p', hr, rfl⟩ := Attempt.map_within_eq_error.1 h
    obtain ⟨hf, inventory, rfl⟩ := Session.receive_eq_error hr
    exact ⟨hf, .intro hp⟩

namespace Slips

theorem log (h : Slips player s s') : s'.log = s.log := by
  cases h
  rfl

theorem get?_players (h : Slips player s s') (other : PlayerId) : s'.players.get? other = s.players.get? other ∨
    ∃ p inventory, s.players.get? other = some p ∧ s'.players.get? other = some { p with inventory } := by
  obtain ⟨present⟩ := h
  simp only [Table.get?_insert]
  split
  · next he => exact .inr ⟨_, _, he ▸ present, rfl⟩
  · exact .inl rfl

theorem others (h : Slips player s s') {other : PlayerId} (ho : other ≠ player) :
    s'.players.get? other = s.players.get? other := by
  obtain ⟨-⟩ := h
  rw [Table.get?_insert, if_neg fun he => ho he.symm]

theorem record? (h : Slips player s s') (other : PlayerId) (quest : QuestId) :
    s'.record? other quest = s.record? other quest := by
  unfold Sessions.record?
  rcases h.get?_players other with he | ⟨p, inventory, hp, hp'⟩
  · rw [he]
  · rw [hp, hp']
    rfl

end Slips

/-- One player's record of a quest gives way to another, and the first effects on that player are applied, up to one that
can not be. -/
inductive Breaks (player : PlayerId) (quest : QuestId) (r r' : Record) (done : List Effect) (e : Effect) (s : Sessions) :
    Sessions → Prop where
  | intro {t s' : Sessions} (advance : Advances player quest r r' done s t) (own : e.player = player)
      (stops : t.apply e = .error (.balance, s')) : Breaks player quest r r' done e s s'

theorem exists_breaks {es : List Effect} {fault : Fault} (before : s.record? player quest = some r)
    (concerns : ∀ e ∈ es, e.player = player)
    (h : (s.modifyRecord player quest fun _ => r').applyAll es = .error (fault, s')) :
    fault = .balance ∧ ∃ done e rest, es = done ++ e :: rest ∧ Breaks player quest r r' done e s s' := by
  obtain ⟨done, e, rest, t, rfl, hdone, he⟩ := foldlM_eq_error_iff.1 h
  obtain ⟨rfl, -⟩ := slips_of_apply he
  exact ⟨rfl, done, e, rest, rfl, .intro ⟨before, fun e' he' => concerns e' (List.mem_append_left _ he'), hdone⟩
    (concerns e (by simp)) he⟩

namespace Breaks

theorem before (h : Breaks player quest r r' done e s s') : s.record? player quest = some r := by
  obtain ⟨advance, -, -⟩ := h
  exact advance.before

theorem log (h : Breaks player quest r r' done e s s') : s'.log = s.log ++ done := by
  obtain ⟨advance, -, stops⟩ := h
  rw [(slips_of_apply stops).2.log, advance.log]

theorem others (h : Breaks player quest r r' done e s s') {other : PlayerId} (ho : other ≠ player) :
    s'.players.get? other = s.players.get? other := by
  obtain ⟨advance, rfl, stops⟩ := h
  rw [(slips_of_apply stops).2.others ho, advance.others ho]

theorem record? (h : Breaks player quest r r' done e s s') (player' : PlayerId) (quest' : QuestId) :
    s'.record? player' quest' =
      if player = player' ∧ quest = quest' then some r' else s.record? player' quest' := by
  obtain ⟨advance, -, stops⟩ := h
  rw [(slips_of_apply stops).2.record?, advance.record?]

/-- A sound is always heard. -/
theorem not_playSound {sound : Sound} : ¬ Breaks player quest r r' done (.playSound player sound) s s' := by
  rintro ⟨-, -, stops⟩
  unfold apply at stops
  split at stops <;> cases stops

end Breaks

theorem regroups_of_unnumbered {names : List PlayerId} {fault : Fault} (h : s.formParty names = .error (fault, s')) :
    fault = .partyNumber ∧ Regroups s s' := by
  unfold formParty at h
  simp only at h
  split at h
  · cases h
  · split at h
    · cases h
    · cases h
      exact ⟨rfl, regroups_foldl regroups_leaveParty _ s⟩

end Sessions

/-- Of the decisions on a choice, only the one that pays can be broken off. -/
theorem Hunt.Decides.pays_of_breaks {h : Hunt} {player : PlayerId} {quest : QuestId} {now : Instant} {r r' : Record}
    {done rest : List Effect} {e : Effect} {s s' : Sessions} (hd : h.Decides player now r (done ++ e :: rest) r')
    (hb : s.Breaks player quest r r' done e s') :
    r.phase = .started ∧ r' = (r.clearCond.exit h.definition.reward.repeatable now).1 := by
  generalize hes : done ++ e :: rest = es at hd
  cases hd with
  | idle => simp at hes
  | accepts =>
    obtain ⟨-, he⟩ | ⟨-, he⟩ := List.append_eq_singleton_iff.1 hes
    · obtain ⟨rfl, -⟩ := List.cons.inj he
      exact absurd hb Sessions.Breaks.not_playSound
    · cases he
  | pays started => exact ⟨started, rfl⟩

/-- The choice in a dialogue that a command brings, by itself or as an event. -/
def Command.choice? : Command → Option (PlayerId × QuestId × String)
  | .choose player quest token => some (player, quest, token)
  | .process (.dialogueChoice player quest token) => some (player, quest, token)
  | _ => none

/-- The kill that a command brings, by itself or as an event. -/
def Command.kill? : Command → Option (PlayerId × NpcId)
  | .kill killer npc => some (killer, npc)
  | .process (.npcKilled killer npc) => some (killer, npc)
  | _ => none

namespace Index

variable {ix : Index} {s s' : Sessions} {fault : Fault}

/-- A quest grants a drop, and the winner has no room for it. -/
inductive Overfills (ix : Index) (npc : NpcId) (s : Sessions) : Sessions → Prop where
  | intro {h : Hunt} {drop : Drop} {winner : PlayerId} {r : Record} {s' : Sessions} (served : h ∈ ix.killHunts npc)
      (drops : h.definition.dropFor npc = some drop) (started : r.phase = .started) (misses : r.count drop.item < drop.max)
      (breaks : s.Breaks winner h.definition.id r (r.give drop.item drop.count drop.max).1 []
        (.itemGiven winner h.definition.id drop.item (r.give drop.item drop.count drop.max).2) s') :
      Overfills ix npc s s'

/-- How far a command has come when a fault breaks it off, and which effects have been applied: a choice is decided but
not all of its effects are applied, some quests have granted a drop until one of them finds no room for its own, or
players have left their parties for one that gets no number. -/
inductive Lapses (ix : Index) (now : Instant) (c : Command) (s : Sessions) :
    Fault → List Effect → Sessions → Prop where
  | choice {player : PlayerId} {quest : QuestId} {token : String} {h : Hunt} {r r' : Record} {done rest : List Effect}
      {e : Effect} {s' : Sessions} (chosen : c.choice? = some (player, quest, token)) (served : ix.get? quest = some h)
      (decides : h.Decides player now r (done ++ e :: rest) r') (breaks : s.Breaks player quest r r' done e s') :
      Lapses ix now c s .balance done s'
  | kill {killer : PlayerId} {npc : NpcId} {es : List Effect} {t s' : Sessions} (kills : c.kill? = some (killer, npc))
      (chain : Chain (ix.Grants npc killer) s es t) (overfills : ix.Overfills npc t s') : Lapses ix now c s .balance es s'
  | unnumbered {names : List PlayerId} {s' : Sessions} (forms : c = .formParty names)
      (left : s.formParty names = .error (.partyNumber, s')) : Lapses ix now c s .partyNumber [] s'

theorem log_of_grants {npc : NpcId} {killer : PlayerId} {es : List Effect} (h : Chain (ix.Grants npc killer) s es s') :
    s'.log = s.log ++ es := by
  induction h with
  | nil => exact (List.append_nil _).symm
  | cons hg _ ih =>
    obtain ⟨-, -, -, -, -, -, advance⟩ := hg
    rw [ih, advance.log, List.append_assoc]

theorem Lapses.log {now : Instant} {c : Command} {es : List Effect} (h : ix.Lapses now c s fault es s') :
    s'.log = s.log ++ es := by
  cases h with
  | choice chosen served decides breaks => exact breaks.log
  | kill kills chain overfills =>
    obtain ⟨-, -, -, -, breaks⟩ := overfills
    rw [breaks.log, log_of_grants chain, List.append_nil]
  | unnumbered forms left => rw [(Sessions.regroups_of_unnumbered left).2.log, List.append_nil]

theorem lapses_of_choose {player : PlayerId} {quest : QuestId} {token : String} {now : Instant} {c : Command}
    (hc : c.choice? = some (player, quest, token)) (h : ix.choose s player quest token now = .error (fault, s')) :
    ∃ es, ix.Lapses now c s fault es s' := by
  unfold choose at h
  split at h
  · next g r hg hr =>
    have hd := g.decides_choose player token r now
    obtain ⟨rfl, done, e, rest, he, breaks⟩ := Sessions.exists_breaks hr hd.concerns (map_eq_error_iff.1 h)
    exact ⟨done, .choice hc hg (he ▸ hd) breaks⟩
  · cases h

theorem overfills_of_kill {h : Hunt} {npc : NpcId} (hh : h ∈ ix.killHunts npc) {killer : PlayerId} {dice : Dice}
    (hk : (h.kill npc killer s dice).2.1.applyAll (h.kill npc killer s dice).1.effects = .error (fault, s')) :
    fault = .balance ∧ ix.Overfills npc s s' := by
  rcases kill_cases h npc killer s dice with ⟨ho, -⟩ | ⟨drop, winner, r, hd, hr, ⟨-, hs, hm⟩, -, ho, hsessions⟩
  · rw [ho] at hk
    cases hk
  · rw [ho, hsessions] at hk
    have hconcerns : ∀ e ∈ [Effect.itemGiven winner h.definition.id drop.item (r.give drop.item drop.count drop.max).2,
        .playSound winner .itemGet], e.player = winner := by simp [Effect.player]
    obtain ⟨hf, done, e, rest, he, breaks⟩ := Sessions.exists_breaks hr hconcerns hk
    refine ⟨hf, ?_⟩
    cases done with
    | nil =>
      obtain ⟨rfl, -⟩ := List.cons.inj he
      exact .intro hh hd hs hm breaks
    | cons e' done =>
      obtain ⟨-, he⟩ := List.cons.inj he
      cases done with
      | nil =>
        obtain ⟨rfl, -⟩ := List.cons.inj he
        exact absurd breaks Sessions.Breaks.not_playSound
      | cons => simp at he

theorem lapses_of_killInTurn {npc : NpcId} {killer : PlayerId} {hs : List Hunt} {dice dice' : Dice}
    (hsub : ∀ h ∈ hs, h ∈ ix.killHunts npc) (h : killInTurn npc killer hs s dice = .error (fault, s', dice')) :
    fault = .balance ∧ ∃ es t, Chain (ix.Grants npc killer) s es t ∧ ix.Overfills npc t s' := by
  induction hs generalizing s dice with
  | nil => cases h
  | cons g rest ih =>
    have hrest : ∀ h ∈ rest, h ∈ ix.killHunts npc := fun h hh => hsub h (List.mem_cons_of_mem g hh)
    rw [killInTurn] at h
    simp only at h
    rcases grants_of_kill (hsub g List.mem_cons_self) killer s dice with ⟨ho, hs⟩ | ⟨ho, hg⟩
    · rw [ho, hs] at h
      exact ih hrest h
    · rw [ho] at h
      obtain hw | ⟨t, ha, h⟩ := bind_eq_error.1 h
      · obtain ⟨_, ha, he⟩ := mapError_eq_error.1 hw
        cases he
        obtain ⟨hf, ho⟩ := overfills_of_kill (hsub g List.mem_cons_self) ha
        exact ⟨hf, [], s, .nil s, ho⟩
      · obtain hk | ⟨_, -, hk⟩ := bind_eq_error.1 h
        · obtain ⟨hf, es, u, hchain, ho⟩ := ih hrest hk
          exact ⟨hf, _, u, .cons (hg t (Attempt.within_eq_ok.1 ha)) hchain, ho⟩
        · cases hk

theorem lapses_of_kill {npc : NpcId} {killer : PlayerId} {dice dice' : Dice} {now : Instant} {c : Command}
    (hc : c.kill? = some (killer, npc)) (h : ix.kill s killer npc dice = .error (fault, s', dice')) :
    ∃ es, ix.Lapses now c s fault es s' := by
  obtain ⟨rfl, es, t, hchain, ho⟩ := lapses_of_killInTurn (fun _ hh => hh) h
  exact ⟨es, .kill hc hchain ho⟩

end Index

namespace World

variable {w w' : World} {now : Instant} {c : Command} {fault : Fault}

/-- A command that is broken off leaves a world with the same quests. -/
theorem lapses_of_perform (h : w.perform now c = .error (fault, w')) :
    w'.registry = w.registry ∧ ∃ es, w.registry.index.Lapses now c w.sessions fault es w'.sessions := by
  cases c with
  | join | leave | leaveParty | talk | register => cases h
  | formParty names =>
    obtain ⟨s, hf, rfl⟩ := Attempt.map_within_eq_error.1 h
    obtain ⟨rfl, -⟩ := Sessions.regroups_of_unnumbered hf
    exact ⟨rfl, [], .unnumbered rfl hf⟩
  | choose player quest token =>
    obtain ⟨s, hs, rfl⟩ := Attempt.map_within_eq_error.1 h
    exact ⟨rfl, Index.lapses_of_choose rfl hs⟩
  | kill killer npc =>
    obtain ⟨⟨s, dice⟩, hs, rfl⟩ := Attempt.map_within_eq_error.1 h
    exact ⟨rfl, Index.lapses_of_kill rfl hs⟩
  | process event =>
    obtain ⟨⟨s, dice⟩, hs, rfl⟩ := Attempt.map_within_eq_error.1 h
    cases event with
    | npcTalk => cases hs
    | dialogueChoice player quest token =>
      obtain ⟨s', hc, he⟩ := Attempt.map_within_eq_error.1 hs
      cases he
      exact ⟨rfl, Index.lapses_of_choose rfl hc⟩
    | npcKilled killer npc => exact ⟨rfl, Index.lapses_of_kill rfl (map_eq_error_iff.1 hs)⟩
  | load tree =>
    unfold perform at h
    simp only at h
    split at h <;> cases h

end World

end Questline
