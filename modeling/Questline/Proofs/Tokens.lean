import Questline.Proofs.Drafts
import Questline.Proofs.Pages

/-!
# Tokens of a quest are told apart

Choices are known by the names of pages, and so is what a character shows. Of an accepted definition the two tokens differ,
and neither is the name of a page that anybody shows when talked to: the page of acceptance and the page of the reward are
only ever reached by choosing. The name of a page that is shown tells whose it is.
-/

namespace Questline

namespace Hunt

/-- Whatever a player chooses or is shown cannot be taken for anything else. -/
structure TellsApart (h : Hunt) : Prop where
  tokens : h.acceptToken ≠ h.turnInToken
  /-- It does not matter which of the two tokens is looked for first. -/
  order : ∀ player token r now, h.choose player token r now =
    if token = h.turnInToken then h.turnIn player token r now
    else if token = h.acceptToken then accept player token r now
    else (.say (.page token), r)
  speaker : ∀ {npc level record token}, h.talk npc level record = .page token →
    (npc = h.definition.giver ∨ npc = h.definition.turnIn) ∧ ∃ number, token = pageName npc number
  owner : ∀ {npc level record token}, h.talk npc level record = .page token →
    ∀ npc' number, token = pageName npc' number → npc' = npc
  untokened : ∀ {npc level record token}, h.talk npc level record = .page token →
    token ≠ h.acceptToken ∧ token ≠ h.turnInToken
  /-- To choose a page that was shown does nothing but show it again. -/
  idle : ∀ {npc level record token}, h.talk npc level record = .page token →
    ∀ player r now, h.choose player token r now = (.say (.page token), r)

variable {h : Hunt} {npc : NpcId} {level : Int32} {record : Option Record} {token : String}

/-- The giver keeps the page of acceptance for those who choose it. -/
theorem talkGiver_eq_page (hs : h.talkGiver level record = .page token) :
    ∃ page, page ≠ .accept ∧ token = pageName h.definition.giver (GiverPage.number page) := by
  have hpage : ∀ page, h.giverPage page = .page token → token = pageName h.definition.giver page.number :=
    fun _ he => (Dialogue.page.inj he).symm
  have hopening :
      (if h.definition.levelRequired ≤ level then h.giverPage .offer else h.giverPage .tooLow) = .page token →
        ∃ page, page ≠ .accept ∧ token = pageName h.definition.giver (GiverPage.number page) := fun he => by
    split at he
    · exact ⟨.offer, nofun, hpage _ he⟩
    · exact ⟨.tooLow, nofun, hpage _ he⟩
  cases record with
  | none => exact hopening hs
  | some r =>
    unfold talkGiver at hs
    cases hp : r.phase with
    | created =>
      simp only [hp] at hs
      exact hopening hs
    | started =>
      simp only [hp] at hs
      split at hs
      · exact ⟨.ready, nofun, hpage _ hs⟩
      · split at hs
        · exact ⟨.inProgress, nofun, hpage _ hs⟩
        · cases hs
    | completed =>
      simp only [hp] at hs
      exact ⟨.done, nofun, hpage _ hs⟩

/-- The turn-in character keeps the page of the reward for those who hand in. -/
theorem talkTurnIn_eq_page (hs : h.talkTurnIn record = .page token) :
    ∃ page, page ≠ .reward ∧ token = pageName h.definition.turnIn (TurnInPage.number page) := by
  have hpage : ∀ page, h.turnInPage page = .page token → token = pageName h.definition.turnIn page.number :=
    fun _ he => (Dialogue.page.inj he).symm
  unfold talkTurnIn at hs
  split at hs
  · cases hs
  · split at hs
    · cases hs
    · split at hs
      · exact ⟨.deliver, nofun, hpage _ hs⟩
      · exact ⟨.notYet, nofun, hpage _ hs⟩

theorem talk_eq_page (hd : h.definition.Casts) (hs : h.talk npc level record = .page token) :
    (npc = h.definition.giver ∧ ∃ page, page ≠ .accept ∧ token = pageName npc (GiverPage.number page)) ∨
      (npc = h.definition.turnIn ∧ ∃ page, page ≠ .reward ∧ token = pageName npc (TurnInPage.number page)) := by
  unfold talk at hs
  split at hs
  · next hrole =>
    obtain rfl := (hd.giver npc).1 hrole
    exact .inl ⟨rfl, talkGiver_eq_page hs⟩
  · next hrole =>
    obtain rfl := (hd.turnIn npc).1 hrole
    exact .inr ⟨rfl, talkTurnIn_eq_page hs⟩
  · cases hs
  · cases hs

/-- A shown page of the one character differs from their token in its number and from the other's in its owner. -/
theorem ne_tokens_of_talk (hd : h.definition.Casts) (hs : h.talk npc level record = .page token) :
    token ≠ h.acceptToken ∧ token ≠ h.turnInToken := by
  have hne := hd.apart.1
  rw [acceptToken, turnInToken]
  obtain ⟨rfl, page, hpage, rfl⟩ | ⟨rfl, page, hpage, rfl⟩ := talk_eq_page hd hs
  · exact ⟨fun he => hpage (GiverPage.number_inj.1 (pageName_inj.1 he).2), fun he => hne (pageName_inj.1 he).1⟩
  · exact ⟨fun he => hne (pageName_inj.1 he).1.symm, fun he => hpage (TurnInPage.number_inj.1 (pageName_inj.1 he).2)⟩

theorem tellsApart_of_casts (hd : h.definition.Casts) : h.TellsApart := by
  have htokens : h.acceptToken ≠ h.turnInToken := fun he =>
    hd.apart.1 (h.turnInToken_eq_acceptToken_iff.1 he.symm).symm
  refine ⟨htokens, fun player token r now => ?_, fun hs => ?_, fun hs npc' number he => ?_, ne_tokens_of_talk hd,
    fun hs player r now => ?_⟩
  · unfold choose
    by_cases haccept : token = h.acceptToken
    · rw [if_pos haccept, if_neg fun hturnIn => htokens (haccept.symm.trans hturnIn), if_pos haccept]
    · rw [if_neg haccept, if_neg haccept]
  · obtain ⟨hgiver, page, -, he⟩ | ⟨hturnIn, page, -, he⟩ := talk_eq_page hd hs
    · exact ⟨.inl hgiver, _, he⟩
    · exact ⟨.inr hturnIn, _, he⟩
  · obtain ⟨-, page, -, hname⟩ | ⟨-, page, -, hname⟩ := talk_eq_page hd hs
    all_goals exact (pageName_inj.1 (he.symm.trans hname)).1
  · obtain ⟨haccept, hturnIn⟩ := ne_tokens_of_talk hd hs
    rw [choose, if_neg haccept, if_neg hturnIn]

/-- Pages of different characters or of different numbers have different names. So in every quest whose definition is
accepted the two tokens differ, whichever is looked for first, and no page that anybody shows when talked to, at whatever
level and with whatever record, is taken for a page of somebody else or for one of the tokens. -/
theorem tokens_tell_apart :
    (∀ (npc npc' : NpcId) (number number' : UInt8), pageName npc number = pageName npc' number' →
      npc = npc' ∧ number = number') ∧
    ∀ (draft : Draft) (h : Hunt), Definition.ofDraft draft = .ok h.definition → h.TellsApart :=
  ⟨fun _ _ _ _ => pageName_inj.1, fun _ _ hd => tellsApart_of_casts (Definition.casts_of_ofDraft hd)⟩

/-- The giver of the quest that comes with the program shows the offer, and to choose that page does not accept the quest. -/
theorem tokens_tell_apart_schuttgart :
    let h := Hunt.schuttgart .default
    Definition.ofDraft .schuttgart = .ok h.definition ∧ pageName ⟨31981⟩ 3 = h.acceptToken ∧
      (⟨31981⟩ = h.definition.giver ∧ 3 = GiverPage.accept.number) ∧ h.acceptToken ≠ h.turnInToken ∧
      h.talk ⟨31981⟩ 60 none = .page "31981-01.htm" ∧ "31981-01.htm" ≠ h.acceptToken ∧
      h.choose "a" "31981-01.htm" (.fresh ⟨10280⟩ [⟨13838⟩]) .epoch =
        (.say (.page "31981-01.htm"), .fresh ⟨10280⟩ [⟨13838⟩]) := by
  intro h
  obtain ⟨hnames, happly⟩ := tokens_tell_apart
  have hd : Definition.ofDraft .schuttgart = .ok h.definition := Definition.ofDraft_schuttgart
  have hapart := happly .schuttgart h hd
  have hs : h.talk ⟨31981⟩ 60 none = .page "31981-01.htm" := by decide +kernel
  exact ⟨hd, rfl, hnames _ _ _ _ rfl, hapart.tokens, hs, (hapart.untokened hs).1, hapart.idle hs _ _ _⟩

end Hunt

end Questline
