import Questline.Proofs.Drafts
import Questline.Proofs.Pages
import Questline.Proofs.Shape

/-!
# Giver and turn-in character tell the same story

The two characters ask different things of a record, in different orders, and the one who takes the items never asks whether
the quest was accepted. For the records that occur in play it comes to the same: both tell of `Record.standing`. Before a
quest is accepted nothing is held, and a started quest is at its only step.
-/

namespace Questline

/-- How a quest stands. -/
inductive Standing where
  | unaccepted
  /-- Accepted, with items missing. -/
  | collecting
  | ready
  | done
  deriving DecidableEq, Repr

def Record.standing (r : Record) : Standing :=
  match r.phase with
  | .created => .unaccepted
  | .started => if r.hasAll then .ready else .collecting
  | .completed => .done

namespace Hunt

variable (h : Hunt) (level : Int32)

def giverTells : Standing → Dialogue
  | .unaccepted => h.giverPage (if h.definition.levelRequired ≤ level then .offer else .tooLow)
  | .collecting => h.giverPage .inProgress
  | .ready => h.giverPage .ready
  | .done => h.giverPage .done

def turnInTells : Standing → Dialogue
  | .unaccepted | .collecting => h.turnInPage .notYet
  | .ready => h.turnInPage .deliver
  | .done => .alreadyCompleted

/-- The two characters tell the same of a record, and what they tell is what the choice to hand in comes to. -/
structure Accord (r : Record) : Prop where
  ready : h.talk h.definition.giver level (some r) = h.giverPage .ready ↔
    h.talk h.definition.turnIn level (some r) = h.turnInPage .deliver
  unready : (h.talk h.definition.giver level (some r) = h.giverPage .inProgress ∨
      h.talk h.definition.giver level (some r) = h.giverPage .offer ∨
      h.talk h.definition.giver level (some r) = h.giverPage .tooLow) ↔
    h.talk h.definition.turnIn level (some r) = h.turnInPage .notYet
  done : h.talk h.definition.giver level (some r) = h.giverPage .done ↔
    h.talk h.definition.turnIn level (some r) = .alreadyCompleted
  answered : h.talk h.definition.giver level (some r) ≠ .noQuest
  pays : ∀ player now,
    (∃ item amount, .reward player item amount ∈ (h.choose player h.turnInToken r now).1.effects) ↔
      h.talk h.definition.giver level (some r) = h.giverPage .inProgress ∨
        h.talk h.definition.giver level (some r) = h.giverPage .ready

variable {h level} {r : Record}

theorem talk_giver (hd : h.definition.Casts) (hs : r.Shaped) :
    h.talk h.definition.giver level (some r) = h.giverTells level r.standing := by
  have hrole : h.definition.roleOf h.definition.giver = some .giver := (hd.giver _).2 rfl
  unfold talk talkGiver Record.standing
  rw [hrole]
  cases hp : r.phase with
  | created => simp only [hp, giverTells, apply_ite h.giverPage]
  | started =>
    have hcond : r.cond = some collecting := (hs.of_started hp).1
    cases hall : r.hasAll <;> simp [hp, hall, hcond, giverTells]
  | completed => simp only [hp, giverTells]

theorem talk_turnIn (hd : h.definition.Casts) (hs : r.Shaped) :
    h.talk h.definition.turnIn level (some r) = h.turnInTells r.standing := by
  have hrole : h.definition.roleOf h.definition.turnIn = some .turnIn := (hd.turnIn _).2 rfl
  unfold talk talkTurnIn Record.standing Record.isCompleted
  rw [hrole]
  cases hp : r.phase with
  | created =>
    have hnone : r.hasAll = false := Record.hasAll_of_count_eq_zero (hs.of_created hp).2.1
    simp [hp, hnone, turnInTells]
  | started => cases hall : r.hasAll <;> simp [hp, hall, turnInTells]
  | completed => simp [hp, turnInTells]

/-- A quest pays whenever it is accepted and not done, ready or not. -/
theorem pays_iff (hd : h.definition.Casts) (r : Record) (player : PlayerId) (now : Instant) :
    (∃ item amount, .reward player item amount ∈ (h.choose player h.turnInToken r now).1.effects) ↔
      r.standing = .collecting ∨ r.standing = .ready := by
  rw [choose_turnInToken hd.apart.1]
  unfold turnIn Record.standing
  cases hp : r.phase with
  | created | completed => simp [Outcome.say]
  | started =>
    refine iff_of_true ⟨_, _, List.mem_cons_self⟩ ?_
    cases r.hasAll <;> simp

theorem accord_of_shaped (hd : h.definition.Casts) (hs : r.Shaped) : h.Accord level r := by
  have hasked : ∀ page, h.giverPage page ≠ .noQuest := fun _ => nofun
  have hheard : ∀ page, h.turnInPage page ≠ .alreadyCompleted := fun _ => nofun
  have hover : ∀ page, .alreadyCompleted ≠ h.turnInPage page := fun _ => nofun
  constructor
  all_goals simp only [talk_giver hd hs, talk_turnIn hd hs, pays_iff hd]
  all_goals
    cases r.standing with
    | unaccepted =>
      by_cases hl : h.definition.levelRequired ≤ level <;>
        simp [giverTells, turnInTells, giverPage_inj, turnInPage_inj, hasked, hheard, hl]
    | collecting | ready | done =>
      simp [giverTells, turnInTells, giverPage_inj, turnInPage_inj, hasked, hheard, hover]

end Hunt

namespace Play

variable {start w : World} {turns : List Turn}

/-- Whatever is played from an empty start, and whatever has become of the definition since, giver and turn-in character
tell the same of every record: the one has the items complete when the other asks for them, shows a page of a quest that is
not so far when the other waits, and says that it is done when the other says so. The giver never has nothing to say, and
the choice to hand in pays exactly when the giver shows that the quest is accepted and not done. -/
theorem characters_agree {registry : Registry} {dice : Dice} (h : Play ⟨registry, .empty, dice⟩ turns w)
    {player : PlayerId} {quest : QuestId} {r : Record} (hr : w.sessions.record? player quest = some r) {draft : Draft}
    {g : Hunt} (hd : Definition.ofDraft draft = .ok g.definition) (level : Int32) : g.Accord level r :=
  Hunt.accord_of_shaped (Definition.casts_of_ofDraft hd) (h.record_shaped rfl hr).2

/-- A player with the one item and not the other hands in all the same: the giver shows the page of a quest in progress, and
the quest pays. -/
theorem characters_agree_schuttgart :
    Definition.ofDraft .schuttgart = .ok (Hunt.schuttgart .default).definition ∧
    ∃ turns w r, Play .schuttgart turns w ∧ w.sessions.record? "a" ⟨10280⟩ = some r ∧ r.count ⟨13838⟩ = 1 ∧
      (Hunt.schuttgart .default).Accord 60 r ∧
      (Hunt.schuttgart .default).talk ⟨31981⟩ 60 (some r) = .page "31981-04.htm" ∧
      (Hunt.schuttgart .default).talk ⟨31972⟩ 60 (some r) = .page "31972-01.htm" ∧
      ∃ item amount, .reward "a" item amount ∈
        ((Hunt.schuttgart .default).choose "a" (Hunt.schuttgart .default).turnInToken r .epoch).1.effects := by
  obtain ⟨⟨turns, w⟩, hc, hk⟩ : ∃ q, carryOut [] .schuttgart [(.epoch, .join "a" 60), (.epoch, .talk "a" ⟨31981⟩),
      (.epoch, .choose "a" ⟨10280⟩ "31981-03.htm"), (.epoch, .kill "a" ⟨18571⟩)] = q ∧
        ∃ r ∈ q.2.sessions.record? "a" ⟨10280⟩, r.count ⟨13838⟩ = 1 ∧
          (Hunt.schuttgart .default).talk ⟨31981⟩ 60 (some r) = .page "31981-04.htm" :=
    ⟨_, rfl, by decide +kernel⟩
  obtain ⟨r, hr, hcount, hgiver⟩ := hk
  have hplay := of_carryOut .nil hc
  have hall : Play ⟨World.schuttgart.registry, .empty, .ofRolls []⟩ turns w := hplay
  have haccord := characters_agree hall hr Definition.ofDraft_schuttgart (g := .schuttgart .default) 60
  have hpage : (Hunt.schuttgart .default).giverPage .inProgress = .page "31981-04.htm" := by decide +kernel
  have hpage' : (Hunt.schuttgart .default).turnInPage .notYet = .page "31972-01.htm" := by decide +kernel
  refine ⟨Definition.ofDraft_schuttgart, turns, w, r, hplay, hr, hcount, haccord, hgiver, ?_, ?_⟩
  · exact hpage' ▸ haccord.unready.1 (.inl (hpage ▸ hgiver))
  · exact (haccord.pays "a" .epoch).2 (.inl (hpage ▸ hgiver))

end Play

end Questline
