import Questline.Proofs.Membership
import Questline.Proofs.Play
import Questline.Proofs.Schuttgart

/-!
# Players and parties agree in every play

Only leaving and forming touch parties. So whatever is played from an empty start, a player has the number of a party
exactly when the party lists the player, and a change of parties concerns nobody but those named and the members of a
party that is dissolved. Parties are numbered in the order in which they are formed, so no number is used twice.
-/

namespace Questline

namespace Sessions

theorem Advances.sameParties {player : PlayerId} {quest : QuestId} {r r' : Record} {es : List Effect}
    {s s' : Sessions} (h : Advances player quest r r' es s s') : SameParties s s' where
  party? player' := by
    unfold Sessions.party?
    by_cases he : player' = player
    · subst he
      obtain ⟨p, p', hp, -, hf, hp'⟩ := h.session
      obtain ⟨inventory, sounds, rfl⟩ := Session.foldlM_receive_eq_ok hf
      rw [hp, hp']
      rfl
    · rw [h.others he]
  parties := h.receives.parties
  nextParty := h.receives.nextParty

theorem Breaks.sameParties {player : PlayerId} {quest : QuestId} {r r' : Record} {done : List Effect} {e : Effect}
    {s s' : Sessions} (h : Breaks player quest r r' done e s s') : SameParties s s' := by
  obtain ⟨advance, -, stops⟩ := h
  refine advance.sameParties.trans ⟨fun player' => ?_, ?_, ?_⟩
  · unfold Sessions.party?
    rcases (slips_of_apply stops).2.get?_players player' with he | ⟨p, inventory, hp, hp'⟩
    · rw [he]
    · rw [hp, hp']
      rfl
  · cases (slips_of_apply stops).2
    rfl
  · cases (slips_of_apply stops).2
    rfl

theorem sameParties_enterRecord (s : Sessions) (player : PlayerId) (r : Record) :
    SameParties s (s.enterRecord player r) where
  party? player' := by
    unfold enterRecord
    rw [party?_modifyPlayer]
    split <;> rfl
  parties := rfl
  nextParty := rfl

theorem sameParties_join (s : Sessions) (player : PlayerId) (level : Int32) :
    SameParties s (s.join player level) where
  party? player' := by
    unfold join Sessions.party?
    rw [Table.get?_insert]
    split
    · next he =>
      rw [← he]
      cases s.players.get? player <;> rfl
    · rfl
  parties := rfl
  nextParty := rfl

end Sessions

namespace Index

open Sessions (SameParties)

variable {ix : Index} {s s' : Sessions}

theorem sameParties_talk (ix : Index) (s : Sessions) (player : PlayerId) (npc : NpcId) :
    SameParties s (ix.talk s player npc).2 :=
  .of_chain (fun _ _ _ hm => by cases hm; exact Sessions.sameParties_enterRecord ..) (talk_chain ix s player npc)

theorem sameParties_choose {player : PlayerId} {quest : QuestId} {token : String} {now : Instant}
    {o : Option Outcome} (h : ix.choose s player quest token now = .ok (o, s')) : SameParties s s' := by
  rcases choose_cases h with ⟨-, rfl⟩ | ⟨out, -, hd⟩
  · exact .refl _
  · obtain ⟨-, -, advance⟩ := hd
    exact advance.sameParties

theorem sameParties_grants {killer : PlayerId} {npc : NpcId} {es : List Effect}
    (h : Chain (ix.Grants npc killer) s es s') : SameParties s s' := by
  refine .of_chain (fun _ _ _ hg => ?_) h
  obtain ⟨-, -, -, -, -, -, advance⟩ := hg
  exact advance.sameParties

theorem sameParties_kill {killer : PlayerId} {npc : NpcId} {dice dice' : Dice} {os : List (QuestId × Outcome)}
    (h : ix.kill s killer npc dice = .ok (os, s', dice')) : SameParties s s' :=
  sameParties_grants (kill_chain h)

theorem sameParties_process {event : Event} {now : Instant} {dice dice' : Dice} {o : Outcome}
    (h : ix.process s event now dice = .ok (o, s', dice')) : SameParties s s' := by
  cases event with
  | npcTalk player npc =>
    cases h
    exact sameParties_talk ..
  | dialogueChoice player quest token =>
    obtain ⟨⟨out, t⟩, hc, he⟩ := Attempt.map_within_eq_ok.1 h
    cases he
    exact sameParties_choose hc
  | npcKilled player npc =>
    obtain ⟨⟨outcomes, t, dice₁⟩, hk, he⟩ := map_eq_ok.1 h
    cases he
    exact sameParties_kill hk

end Index

/-- The players whom a command names to leave or to form a party. -/
def Command.regroups? : Command → Option (List PlayerId)
  | .leave player => some [player]
  | .formParty players => some players
  | .leaveParty player => some [player]
  | _ => none

theorem Index.Lapses.party_cases {ix : Index} {now : Instant} {c : Command} {s s' : Sessions} {fault : Fault}
    {es : List Effect} (h : ix.Lapses now c s fault es s') (ha : s.Aligned) :
    (∃ names, c = .formParty names ∧ s.Regroups s' ∧ s.Leaves (s.known names) s') ∨
      c.regroups? = none ∧ s.SameParties s' := by
  cases h with
  | choice chosen served decides breaks =>
    refine .inr ⟨?_, breaks.sameParties⟩
    cases c <;> first | rfl | cases chosen
  | kill kills chain overfills =>
    obtain ⟨-, -, -, -, breaks⟩ := overfills
    refine .inr ⟨?_, (Index.sameParties_grants chain).trans breaks.sameParties⟩
    cases c <;> first | rfl | cases kills
  | unnumbered forms left =>
    exact .inl ⟨_, forms, (Sessions.regroups_of_unnumbered left).2, ha.leaves_of_unnumbered left⟩

namespace World

variable {w w' : World} {now : Instant} {c : Command} {a : Answer}

/-- A player leaves a party, a party is formed or refused, or parties stay as they are. -/
theorem party_cases (h : w.perform now c = .ok (a, w')) (ha : w.sessions.Aligned) :
    (∃ player, (c = .leave player ∨ c = .leaveParty player) ∧ (∀ party, a ≠ .party party) ∧
      w.sessions.Leaves [player] w'.sessions) ∨
    (∃ names party, c = .formParty names ∧ a = .party party ∧
      w.sessions.formParty names = .ok (w'.sessions, party)) ∨
    c.regroups? = none ∧ (∀ party, a ≠ .party party) ∧ w.sessions.SameParties w'.sessions := by
  cases c with
  | join player level =>
    cases h
    exact .inr (.inr ⟨rfl, nofun, Sessions.sameParties_join ..⟩)
  | leave player =>
    cases h
    exact .inl ⟨player, .inl rfl, nofun, ha.leaves_leave player⟩
  | formParty names =>
    obtain ⟨⟨s, party⟩, hf, he⟩ := Attempt.map_within_eq_ok.1 h
    cases he
    exact .inr (.inl ⟨names, party, rfl, rfl, hf⟩)
  | leaveParty player =>
    cases h
    exact .inl ⟨player, .inr rfl, nofun, ha.leaves_leaveParty player⟩
  | talk player npc =>
    cases h
    exact .inr (.inr ⟨rfl, nofun, Index.sameParties_talk ..⟩)
  | choose player quest token =>
    obtain ⟨⟨o, s⟩, hc, he⟩ := Attempt.map_within_eq_ok.1 h
    cases he
    exact .inr (.inr ⟨rfl, nofun, Index.sameParties_choose hc⟩)
  | kill killer npc =>
    obtain ⟨⟨outcomes, s, dice⟩, hk, he⟩ := Attempt.map_within_eq_ok.1 h
    cases he
    exact .inr (.inr ⟨rfl, nofun, Index.sameParties_kill hk⟩)
  | process event =>
    obtain ⟨⟨o, s, dice⟩, hp, he⟩ := Attempt.map_within_eq_ok.1 h
    cases he
    exact .inr (.inr ⟨rfl, nofun, Index.sameParties_process hp⟩)
  | register =>
    cases h
    exact .inr (.inr ⟨rfl, nofun, .refl _⟩)
  | load tree =>
    unfold perform at h
    simp only at h
    split at h <;> cases h <;> exact .inr (.inr ⟨rfl, nofun, .refl _⟩)

/-- But for parties nothing of any session changes when players are named to leave or form one, except that who leaves
the game is gone. -/
theorem alone_of_regroups (h : w.perform now c = .ok (a, w')) {named : List PlayerId} (hc : c.regroups? = some named)
    {player : PlayerId} (hl : c ≠ .leave player) : (w'.sessions.players.get? player).map Session.alone =
      (w.sessions.players.get? player).map Session.alone := by
  cases c with
  | leave player' =>
    cases h
    have hne : player' ≠ player := fun he => hl (congrArg Command.leave he)
    show ((Table.erase _ player').get? player).map Session.alone = _
    rw [Table.get?_erase, if_neg hne]
    exact (Sessions.regroups_leaveParty w.sessions player').alone player
  | formParty names =>
    obtain ⟨⟨s, party⟩, hf, he⟩ := Attempt.map_within_eq_ok.1 h
    cases he
    exact (Sessions.regroups_formParty hf).alone player
  | leaveParty player' =>
    cases h
    exact (Sessions.regroups_leaveParty w.sessions player').alone player
  | _ => cases hc

end World

namespace Turn

variable {t : Turn}

/-- The party that a turn forms. -/
def formed? (t : Turn) : Option PartyId :=
  match t.answer with
  | .ok (.party party) => party
  | _ => none

theorem formed?_eq_none (h : ∀ party, t.answer ≠ .ok (.party party)) : t.formed? = none := by
  unfold formed?
  split
  · next he => exact absurd he (h _)
  · rfl

/-- A player leaves a party, a party is formed or refused, or its members have left theirs when there is no number for it,
or parties stay as they are. -/
theorem party_cases (h : t.Performed) (ha : t.before.sessions.Aligned) :
    (∃ player, (t.command = .leave player ∨ t.command = .leaveParty player) ∧ t.formed? = none ∧
      t.before.sessions.Leaves [player] t.after.sessions) ∨
    (∃ names party, t.command = .formParty names ∧ t.formed? = party ∧
      t.before.sessions.formParty names = .ok (t.after.sessions, party)) ∨
    (∃ names, t.command = .formParty names ∧ t.formed? = none ∧
      t.before.sessions.Leaves (t.before.sessions.known names) t.after.sessions) ∨
    t.command.regroups? = none ∧ t.formed? = none ∧ t.before.sessions.SameParties t.after.sessions := by
  cases hanswer : t.answer with
  | ok a =>
    have hnone : (∀ party, a ≠ .party party) → t.formed? = none := fun hn => formed?_eq_none fun party he =>
      hn party (Except.ok.inj (hanswer.symm.trans he))
    rcases World.party_cases (h.of_ok hanswer) ha with ⟨player, hc, hn, hl⟩ | ⟨names, party, hc, rfl, hf⟩ | ⟨hc, hn, hs⟩
    · exact .inl ⟨player, hc, hnone hn, hl⟩
    · exact .inr (.inl ⟨names, party, hc, by unfold formed?; rw [hanswer], hf⟩)
    · exact .inr (.inr (.inr ⟨hc, hnone hn, hs⟩))
  | error fault =>
    have hnone : t.formed? = none := formed?_eq_none fun party he => by
      rw [hanswer] at he
      cases he
    rcases (lapses h hanswer).2.party_cases ha with ⟨names, hc, -, hl⟩ | ⟨hc, hs⟩
    · exact .inr (.inr (.inl ⟨names, hc, hnone, hl⟩))
    · exact .inr (.inr (.inr ⟨hc, hnone, hs⟩))

/-- But for parties nothing of any session changes when players are named to leave or form one, except that who leaves
the game is gone. -/
theorem alone_of_regroups (h : t.Performed) (ha : t.before.sessions.Aligned) {named : List PlayerId}
    (hc : t.command.regroups? = some named) {player : PlayerId} (hl : t.command ≠ .leave player) :
    (t.after.sessions.players.get? player).map Session.alone =
      (t.before.sessions.players.get? player).map Session.alone := by
  cases hanswer : t.answer with
  | ok a => exact World.alone_of_regroups (h.of_ok hanswer) hc hl
  | error fault =>
    rcases (lapses h hanswer).2.party_cases ha with ⟨names, -, hr, -⟩ | ⟨hn, -⟩
    · exact hr.alone player
    · rw [hn] at hc
      cases hc

theorem aligned (h : t.Performed) (ha : t.before.sessions.Aligned) : t.after.sessions.Aligned := by
  rcases party_cases h ha with ⟨_, -, -, hl⟩ | ⟨names, party, -, -, hf⟩ | ⟨_, -, -, hl⟩ | ⟨-, -, hs⟩
  · exact ha.of_leaves hl
  · rcases ha.formParty_cases hf with ⟨-, -, he⟩ | ⟨-, hf⟩
    · rwa [he]
    · exact hf.aligned ha
  · exact ha.of_leaves hl
  · exact ha.of_same hs

theorem confined (h : t.Performed) (ha : t.before.sessions.Aligned) {named : List PlayerId}
    (hc : t.command.regroups? = some named) : t.before.sessions.Confined named t.after.sessions := by
  rcases party_cases h ha with ⟨player, hp, -, hl⟩ | ⟨names, party, he, -, hf⟩ | ⟨names, he, -, hl⟩ | ⟨hn, -, -⟩
  · obtain rfl : named = [player] := by rcases hp with hp | hp <;> rw [hp] at hc <;> exact (Option.some.inj hc).symm
    exact ha.confined_of_leaves hl
  · obtain rfl : named = names := by rw [he] at hc; exact (Option.some.inj hc).symm
    rcases ha.formParty_cases hf with ⟨-, -, he⟩ | ⟨-, hf⟩
    · rw [he]
      exact .refl ..
    · exact ha.confined_of_forms hf
  · obtain rfl : named = names := by rw [he] at hc; exact (Option.some.inj hc).symm
    exact (ha.confined_of_leaves hl).mono fun player hm => (List.mem_filter.1 hm).1
  · rw [hn] at hc
    cases hc

/-- The number of a new party is the one that was next, and the next one is one more. -/
theorem nextParty (h : t.Performed) (ha : t.before.sessions.Aligned) :
    (∀ k, t.formed? = some k → k = t.before.sessions.nextParty) ∧
      t.after.sessions.nextParty.number.toNat =
        t.before.sessions.nextParty.number.toNat + t.formed?.toList.length := by
  rcases party_cases h ha with ⟨_, -, hn, hl⟩ | ⟨names, party, -, hformed, hf⟩ | ⟨_, -, hn, hl⟩ | ⟨-, hn, hs⟩
  · rw [hn, hl.nextParty]
    exact ⟨nofun, rfl⟩
  · rw [hformed]
    rcases ha.formParty_cases hf with ⟨-, rfl, he⟩ | ⟨rfl, hforms⟩
    · rw [he]
      exact ⟨nofun, rfl⟩
    · exact ⟨fun k hk => (Option.some.inj hk).symm, hforms.nextParty⟩
  · rw [hn, hl.nextParty]
    exact ⟨nofun, rfl⟩
  · rw [hn, hs.nextParty]
    exact ⟨nofun, rfl⟩

end Turn

namespace Play

variable {start w : World} {turns : List Turn}

theorem aligned (h : Play start turns w) (hs : start.sessions.Aligned) : w.sessions.Aligned := by
  induction h with
  | nil => exact hs
  | turn _ ht ih => exact Turn.aligned ht ih

def formed (turns : List Turn) : List Nat := (turns.filterMap Turn.formed?).map (·.number.toNat)

theorem formed_cons (t : Turn) (turns : List Turn) :
    formed (t :: turns) = t.formed?.toList.map (·.number.toNat) ++ formed turns := by
  unfold formed
  rw [List.filterMap_cons]
  cases t.formed? <;> rfl

theorem nextParty (h : Play start turns w) (hs : start.sessions = .empty) :
    w.sessions.nextParty.number.toNat = (formed turns).length + 1 := by
  induction h with
  | nil => rw [hs]; rfl
  | @turn turns t hplay ht ih =>
    have ha := hplay.aligned (hs ▸ Sessions.aligned_empty)
    rw [(Turn.nextParty ht ha).2, ih, formed_cons, List.length_append, List.length_map]
    omega

/-- Parties are numbered from one on, without gaps. -/
theorem formed_eq (h : Play start turns w) (hs : start.sessions = .empty) :
    formed turns = (List.range' 1 (formed turns).length).reverse := by
  induction h with
  | nil => rfl
  | @turn turns t hplay ht ih =>
    have ha := hplay.aligned (hs ▸ Sessions.aligned_empty)
    have hnumber := (Turn.nextParty ht ha).1
    rw [formed_cons]
    cases hk : t.formed? with
    | none => exact ih
    | some k =>
      have hnext := hplay.nextParty hs
      rw [← hnumber k hk] at hnext
      simp only [Option.toList_some, List.map_cons, List.map_nil, List.cons_append, List.nil_append,
        List.length_cons, List.range'_1_concat, List.reverse_append, List.reverse_cons, List.reverse_nil]
      rw [← ih, hnext, Nat.add_comm]

/-- Whatever is played from an empty start: a player has the number of a party exactly when the party is there and
lists the player, a party lists only players who are present, and every number in use is below the next one. Parties
are numbered from one on in the order in which they are formed, and a new one is refused only when the numbers are used
up. Leaving or forming a party is confined to the players named and to the members of a party that is dissolved, and
changes nothing but parties. -/
theorem parties_agree {registry : Registry} {dice : Dice} (h : Play ⟨registry, .empty, dice⟩ turns w) :
    (∀ player k, w.sessions.party? player = some k ↔ ∃ ms, w.sessions.parties.get? k = some ms ∧ player ∈ ms) ∧
    (∀ k ms, w.sessions.parties.get? k = some ms → ∀ player ∈ ms, w.sessions.players.contains player) ∧
    (∀ k, w.sessions.parties.contains k ∨ (∃ player, w.sessions.party? player = some k) →
      k.number < w.sessions.nextParty.number) ∧
    (formed turns = (List.range' 1 (formed turns).length).reverse ∧
      w.sessions.nextParty.number.toNat = (formed turns).length + 1 ∧
      ∀ names, (formed turns).length + 1 < UInt32.size - 1 →
        ∃ s party, w.sessions.formParty names = .ok (s, party)) ∧
    ∀ t ∈ turns, ∀ named, t.command.regroups? = some named →
      t.before.sessions.Confined named t.after.sessions ∧
      ∀ player, t.command ≠ .leave player → (t.after.sessions.players.get? player).map Session.alone =
        (t.before.sessions.players.get? player).map Session.alone := by
  have ha := h.aligned Sessions.aligned_empty
  have hnext := h.nextParty rfl
  refine ⟨ha.listed, fun k ms hk player hm => ?_, fun k hk => ?_, ⟨h.formed_eq rfl, hnext, fun names hn => ?_⟩,
    fun t ht named hc => ?_⟩
  · obtain ⟨p, hp, -⟩ := Option.bind_eq_some_iff.1 ((ha.listed player k).2 ⟨ms, hk, hm⟩)
    exact Option.isSome_iff_exists.2 ⟨p, hp⟩
  · rcases hk with hk | ⟨player, hp⟩
    · obtain ⟨ms, hms⟩ := Option.isSome_iff_exists.1 hk
      exact ha.below k ms hms
    · exact ha.below_of_party? hp
  · refine ha.exists_formParty names ?_
    rw [hnext]
    omega
  · obtain ⟨earlier, -, hbefore⟩ := h.exists_before ht
    have hperformed := h.performed t ht
    have haligned := hbefore.aligned Sessions.aligned_empty
    exact ⟨Turn.confined hperformed haligned hc, fun player hl => Turn.alone_of_regroups hperformed haligned hc hl⟩

/-- Two of a party of three are grouped anew. Their old party is dissolved, and the third is left without one. -/
theorem parties_agree_schuttgart :
    ∃ t earlier w, Play .schuttgart (t :: earlier) w ∧ t.command.regroups? = some ["c", "a"] ∧
      t.before.sessions.party? "b" = some ⟨1⟩ ∧ w.sessions.parties.get? ⟨2⟩ = some ["c", "a"] ∧
      formed (t :: earlier) = [2, 1] ∧ w.sessions.party? "a" = some ⟨2⟩ ∧
      t.before.sessions.Confined ["c", "a"] t.after.sessions ∧ t.after.sessions.party? "b" = none := by
  obtain ⟨⟨turns, w⟩, hc, hk⟩ : ∃ q, carryOut [] .schuttgart [(.epoch, .join "a" 60), (.epoch, .join "b" 1),
      (.epoch, .join "c" 60), (.epoch, .formParty ["a", "b", "c"]), (.epoch, .formParty ["c", "a"])] = q ∧
        q.1.map (·.before.sessions.party? "b") = [some ⟨1⟩, none, none, none, none] ∧
        q.1.map (·.after.sessions.parties.contains ⟨1⟩) = [false, true, false, false, false] ∧
        (formed q.1).length = 2 ∧ q.2.sessions.parties.get? ⟨2⟩ = some ["c", "a"] :=
    ⟨_, rfl, by decide +kernel⟩
  have hplay := of_carryOut .nil hc
  have hcommands := commands_of_carryOut hc
  obtain ⟨hbefore, hgone, htwo, hnew⟩ := hk
  obtain ⟨t, earlier, rfl, hcommand, -⟩ := List.map_eq_cons_iff.1 hcommands
  have hdissolved : t.after.sessions.parties.contains ⟨1⟩ = false := (List.cons.inj hgone).1
  have hb : t.before.sessions.party? "b" = some ⟨1⟩ := (List.cons.inj hbefore).1
  have hnamed : t.command.regroups? = some ["c", "a"] := by rw [hcommand]; rfl
  obtain ⟨hlisted, -, -, ⟨hformed, -, -⟩, hconfined⟩ := parties_agree hplay
  obtain ⟨hthis, -⟩ := hconfined t List.mem_cons_self _ hnamed
  refine ⟨t, earlier, w, hplay, hnamed, hb, hnew, ?_, (hlisted "a" ⟨2⟩).2 ⟨_, hnew, by decide⟩, hthis, ?_⟩
  · rw [hformed, htwo]
    rfl
  · obtain rfl : w = t.after := by cases hplay; rfl
    rcases hthis.party? "b" (by decide) with he | ⟨hnone, -⟩
    · -- the old party can not be the party of anybody, since it is gone
      obtain ⟨ms, hms, -⟩ := (hlisted "b" ⟨1⟩).1 (he.trans hb)
      rw [Table.contains, hms] at hdissolved
      cases hdissolved
    · exact hnone

end Play

end Questline
