import Questline.Proofs.Limits
import Questline.Proofs.Talk

/-!
# Talking once more

Who talks to the same character again is asked by the same quests, but meanwhile has the records that the first talk has
entered. That changes nothing any more: no record is entered twice. A giver says with a fresh record what it says without
one. The character who takes the items does not: it has nothing to say without a record, and a page with a fresh one. So
the answer is the same unless such a character starts quests, too. `World.talk_again_changed` shows that this can happen.
-/

namespace Questline

theorem Record.hasAll_fresh (quest : QuestId) (items : List ItemId) : (fresh quest items).hasAll = false :=
  hasAll_of_count_eq_zero (count_fresh quest items)

theorem Definition.Sound.roleOf_eq_turnIn_iff {d : Definition} (hd : d.Sound) {npc : NpcId} :
    d.roleOf npc = some .turnIn ↔ d.turnIn = npc := by
  rw [hd.roleOf]
  split
  · next he => simp [he]
  · next hne =>
    split
    · simp [hne]
    · cases d.dropFor npc <;> simp [hne]

namespace Hunt

theorem talk_none_of_turnIn {h : Hunt} {npc : NpcId} (hr : h.definition.roleOf npc = some .turnIn) (level : Int32) :
    h.talk npc level none = .noQuest := by
  unfold talk
  rw [hr]
  rfl

/-- Only the character who takes the items tells a fresh record from none. -/
theorem talk_fresh (h : Hunt) (npc : NpcId) (level : Int32) :
    h.talk npc level (some (.fresh h.definition.id h.definition.questItems)) =
      if h.definition.roleOf npc = some .turnIn then h.turnInPage .notYet else h.talk npc level none := by
  unfold talk
  cases h.definition.roleOf npc with
  | none => rfl
  | some role =>
    cases role with
    | giver => rfl
    | monster => rfl
    | turnIn =>
      simp only [talkTurnIn, Record.hasAll_fresh, if_true]
      rfl

end Hunt

theorem reply_cons_of_not_isDefault {d : Dialogue} (h : d.isDefault = false) (said : List Dialogue) :
    reply (d :: said) = d := by
  simp [reply, h]

theorem reply_cons_of_isDefault {d : Dialogue} (h : d.isDefault) {said : List Dialogue}
    (hr : (reply said).isDefault = false) : reply (d :: said) = reply said := by
  unfold reply at hr ⊢
  rw [List.find?_cons_of_neg (by simp [h])]
  cases hf : said.find? fun d => !d.isDefault with
  | some page => rfl
  | none =>
    rw [hf] at hr
    simp only at hr
    split at hr <;> cases hr

/-- Where a hunt is heard that shows the page now and had nothing to show before, the page is the first one now. -/
theorem reply_eq_of_shown {page : Dialogue} (hp : page.isDefault = false) {tells tells' : Hunt → Dialogue} {hs : List Hunt}
    (hall : ∀ g ∈ hs, tells' g = tells g ∨ (tells g).isDefault ∧ tells' g = page)
    (hex : ∃ g ∈ heard tells hs, tells' g ≠ tells g) : reply (hs.map tells') = page := by
  induction hs with
  | nil =>
    obtain ⟨g, hg, -⟩ := hex
    cases hg
  | cons h rest ih =>
    obtain ⟨hfirst, hrest⟩ := List.forall_mem_cons.1 hall
    rw [List.map_cons]
    rcases hfirst with hsame | ⟨-, hshown⟩
    · obtain ⟨g, hg, hne⟩ := hex
      rw [heard_cons] at hg
      rcases List.mem_cons.1 hg with rfl | hg
      · exact absurd hsame hne
      · split at hg
        · next hd =>
          have htail := ih hrest ⟨g, hg, hne⟩
          rw [reply_cons_of_isDefault (hsame ▸ hd) (htail ▸ hp), htail]
        · cases hg
    · rw [hshown, reply_cons_of_not_isDefault hp]

/-- If pages stay pages, no more hunts are heard than before. -/
theorem heard_subset {tells tells' : Hunt → Dialogue} {hs : List Hunt}
    (h : ∀ g ∈ hs, (tells g).isDefault = false → (tells' g).isDefault = false) : heard tells' hs ⊆ heard tells hs := by
  induction hs with
  | nil => exact fun g hg => hg
  | cons g rest ih =>
    obtain ⟨hfirst, hrest⟩ := List.forall_mem_cons.1 h
    rw [heard_cons, heard_cons]
    refine List.cons_subset_cons g ?_
    cases hd : (tells g).isDefault with
    | false => simp [hfirst hd]
    | true =>
      simp only [if_true]
      split
      · exact ih hrest
      · exact List.nil_subset _

theorem Sessions.Enters.eq_of_nil {player : PlayerId} {s s' : Sessions} (h : Enters player [] s s') {level : Int32}
    (hl : s.level? player = some level) : s' = s := by
  obtain ⟨p, hp, -⟩ := Option.map_eq_some_iff.1 hl
  obtain ⟨journal, hp'⟩ := h.session p hp
  have hjournal : journal = p.journal := by
    have hrecords : journal.records = p.journal.records := Table.ext_get? fun quest => by
      have hkept := h.kept quest fun g hg => absurd hg List.not_mem_nil
      unfold Sessions.record? at hkept
      rw [hp, hp'] at hkept
      exact hkept
    cases journal
    exact congrArg Journal.mk hrecords
  have hplayers : s'.players = s.players := Table.ext_get? fun other => by
    by_cases ho : other = player
    · rw [ho, hp, hp', hjournal]
    · exact h.others other ho
  cases s'
  cases s
  simp only [Sessions.mk.injEq]
  exact ⟨hplayers, h.parties, h.nextParty, h.log⟩

namespace Index

open Sessions (Enters)

variable {ix : Index} {npc : NpcId} {player : PlayerId} {level : Int32} {s s' : Sessions}

/-- The quests whose records a talk enters. -/
def entering (ix : Index) (npc : NpcId) (player : PlayerId) (level : Int32) (s : Sessions) : List Hunt :=
  (heard (tells npc player level s) (ix.concerned npc player s)).filter (isNew player level s)

theorem mem_entering {h : Hunt} (hm : h ∈ ix.entering npc player level s) :
    h ∈ ix.concerned npc player s ∧ s.record? player h.definition.id = none ∧ h.definition.levelRequired ≤ level := by
  obtain ⟨hheard, hnew⟩ := List.mem_filter.1 hm
  rw [isNew, Bool.and_eq_true, Option.isNone_iff_eq_none, decide_eq_true_iff] at hnew
  exact ⟨List.mem_of_mem_take hheard, hnew⟩

section

variable (hk : ix.Kept) (he : Enters player (ix.entering npc player level s) s s')

include hk he

theorem Kept.record?_enters {h : Hunt} (hs : ix.get? h.definition.id = some h) :
    s'.record? player h.definition.id =
      if h ∈ ix.entering npc player level s then some (.fresh h.definition.id h.definition.questItems)
      else s.record? player h.definition.id := by
  split
  · next hm => exact he.entered h hm
  · next hm =>
    refine he.kept _ fun g hg hid => hm ?_
    have hserved := (hk.mem_concerned.1 (mem_entering hg).1).1
    rw [hid, hs, Option.some.injEq] at hserved
    exact hserved ▸ hg

theorem Kept.concerned_enters : ix.concerned npc player s' = ix.concerned npc player s := by
  refine List.filter_congr fun h hh => ?_
  have hserved := ((hk.mem_huntsFor .talks npc h).1 hh).1
  unfold asks
  rw [hk.record?_enters he hserved]
  split
  · next hm =>
    have hask := (List.mem_filter.1 (mem_entering hm).1).2
    exact hask.symm
  · rfl

theorem Kept.tells_enters {h : Hunt} (hh : h ∈ ix.concerned npc player s) :
    tells npc player level s' h =
      if h ∈ ix.entering npc player level s ∧ h.definition.roleOf npc = some .turnIn then h.turnInPage .notYet
      else tells npc player level s h := by
  unfold tells
  rw [hk.record?_enters he (hk.mem_concerned.1 hh).1]
  by_cases hm : h ∈ ix.entering npc player level s
  · rw [if_pos hm, Hunt.talk_fresh, (mem_entering hm).2.1]
    simp only [hm, true_and]
  · rw [if_neg hm, if_neg fun hc => hm hc.1]

/-- The records of the quests for which the character takes the items are as they were, exactly when the first talk has
entered none of them. -/
theorem Kept.record?_enters_iff : (∀ h, ix.get? h.definition.id = some h → h.definition.turnIn = npc →
      s'.record? player h.definition.id = s.record? player h.definition.id) ↔
    ¬ ∃ h ∈ ix.entering npc player level s, h.definition.turnIn = npc := by
  constructor
  · rintro hall ⟨h, hm, ht⟩
    have hserved := (hk.mem_concerned.1 (mem_entering hm).1).1
    have heq := hall h hserved ht
    rw [hk.record?_enters he hserved, if_pos hm, (mem_entering hm).2.1] at heq
    cases heq
  · intro hn h hserved ht
    rw [hk.record?_enters he hserved, if_neg fun hm => hn ⟨h, hm, ht⟩]

theorem Kept.entering_enters : ix.entering npc player level s' = [] := by
  refine List.filter_eq_nil_iff.2 fun g hg hnew => ?_
  rw [hk.concerned_enters he] at hg
  have hg := heard_subset (fun g hg hpage => by
    rw [hk.tells_enters he hg]
    split
    · rfl
    · exact hpage) hg
  have hserved := (hk.mem_concerned.1 (List.mem_of_mem_take hg)).1
  rw [isNew, Bool.and_eq_true, Option.isNone_iff_eq_none, hk.record?_enters he hserved] at hnew
  split at hnew
  · cases hnew.1
  · next hm =>
    refine hm (List.mem_filter.2 ⟨hg, ?_⟩)
    rw [isNew, hnew.1, hnew.2]
    rfl

/-- What is said the second time: the page of the character who takes the items, if the first talk has entered a record of
one of its quests, and otherwise the same as before. -/
theorem Kept.reply_enters (hs : ∀ quest h, ix.get? quest = some h → h.definition.Sound) :
    reply ((ix.concerned npc player s).map (tells npc player level s')) =
      if ∃ h ∈ ix.entering npc player level s, h.definition.turnIn = npc
      then .ofPage npc Hunt.TurnInPage.notYet.number
      else reply ((ix.concerned npc player s).map (tells npc player level s)) := by
  have hturnIn : ∀ h ∈ ix.concerned npc player s, h.definition.roleOf npc = some .turnIn ↔ h.definition.turnIn = npc :=
    fun h hh => (hs _ h (hk.mem_concerned.1 hh).1).roleOf_eq_turnIn_iff
  have hshown : ∀ h ∈ ix.entering npc player level s, h.definition.turnIn = npc →
      tells npc player level s h = .noQuest ∧
        tells npc player level s' h = .ofPage npc Hunt.TurnInPage.notYet.number := by
    intro h hm ht
    have hh := (mem_entering hm).1
    have hr := (hturnIn h hh).2 ht
    rw [hk.tells_enters he hh, if_pos ⟨hm, hr⟩, Hunt.turnInPage, ht, tells, (mem_entering hm).2.1]
    exact ⟨Hunt.talk_none_of_turnIn hr level, rfl⟩
  have hkept : ∀ h ∈ ix.concerned npc player s, ¬ (h ∈ ix.entering npc player level s ∧ h.definition.turnIn = npc) →
      tells npc player level s' h = tells npc player level s h := fun h hh hn => by
    rw [hk.tells_enters he hh, if_neg fun hc => hn ⟨hc.1, (hturnIn h hh).1 hc.2⟩]
  split
  · next hex =>
    obtain ⟨h, hm, ht⟩ := hex
    refine reply_eq_of_shown rfl (fun g hg => ?_) ⟨h, (List.mem_filter.1 hm).1, ?_⟩
    · by_cases hc : g ∈ ix.entering npc player level s ∧ g.definition.turnIn = npc
      · obtain ⟨hbefore, hafter⟩ := hshown g hc.1 hc.2
        exact .inr ⟨by rw [hbefore]; rfl, hafter⟩
      · exact .inl (hkept g hg hc)
    · obtain ⟨hbefore, hafter⟩ := hshown h hm ht
      rw [hbefore, hafter]
      intro hd
      cases hd
  · next hnone =>
    exact congrArg reply (List.map_congr_left fun h hh => hkept h hh fun hc => hnone ⟨h, hc⟩)

end

end Index

namespace World

open Index

/-- After a talk, the same player talks to the same character once more: the sessions stay as they are from then on. The
answer is the same exactly when it was the page on which the character who takes the items has them collected, or when the
first talk has entered no record of a quest for which that character takes the items; otherwise it is that page. For just
those quests a fresh record makes a difference to what is said. -/
theorem talk_again_eq_iff {w : World} (hw : w.registry.Arises) (hc : w.registry.index.Checked) (now now' : Instant)
    (player : PlayerId) (npc : NpcId) :
    (∃ d d' s, w.perform now (.talk player npc) = .ok (.dialogue d, { w with sessions := s }) ∧
      { w with sessions := s }.perform now' (.talk player npc) = .ok (.dialogue d', { w with sessions := s }) ∧
      (d' = d ↔ d = .ofPage npc Hunt.TurnInPage.notYet.number ∨
        ∀ h, w.registry.index.get? h.definition.id = some h → h.definition.turnIn = npc →
          s.record? player h.definition.id = w.sessions.record? player h.definition.id) ∧
      (d' ≠ d → d' = .ofPage npc Hunt.TurnInPage.notYet.number)) ∧
    ∀ quest h, w.registry.index.get? quest = some h → ∀ level,
      (h.talk npc level (some (.fresh h.definition.id h.definition.questItems)) = h.talk npc level none ↔
        h.definition.turnIn ≠ npc) := by
  have hk := hw.kept
  have hs : ∀ quest h, w.registry.index.get? quest = some h → h.definition.Sound := fun quest h hq => by
    obtain ⟨draft, hdraft⟩ := hc quest h hq
    exact Definition.sound_of_ofDraft hdraft
  refine ⟨?_, fun quest h hq level => ?_⟩
  · cases hl : w.sessions.level? player with
    | none =>
      have htalk : w.registry.index.talk w.sessions player npc = (.noQuest, w.sessions) := by rw [talk, hl]
      have hperform : ∀ now, w.perform now (.talk player npc) = .ok (.dialogue .noQuest, { w with sessions := w.sessions }) :=
        fun now => by rw [perform_talk, htalk]
      exact ⟨.noQuest, .noQuest, w.sessions, hperform now, hperform now', by simp, by simp⟩
    | some level =>
      obtain ⟨hfirst, henters⟩ := hk.talk_eq hl npc
      rw [← entering] at henters
      obtain ⟨hagain, hnothing⟩ := hk.talk_eq (henters.level? hl) npc
      rw [← entering, hk.entering_enters henters] at hnothing
      rw [hk.concerned_enters henters, hk.reply_enters henters hs, ← hfirst] at hagain
      have hsame := hnothing.eq_of_nil (henters.level? hl)
      refine ⟨_, _, _, perform_talk w now player npc,
        (perform_talk { w with sessions := _ } now' player npc).trans (by rw [hsame]), ?_⟩
      rw [hk.record?_enters_iff henters]
      by_cases hex : ∃ h ∈ w.registry.index.entering npc player level w.sessions, h.definition.turnIn = npc
      · rw [if_pos hex] at hagain
        rw [hagain]
        exact ⟨⟨fun hd => .inl hd.symm, fun hd => (hd.resolve_right fun hn => hn hex).symm⟩, fun _ => rfl⟩
      · rw [if_neg hex] at hagain
        rw [hagain]
        exact ⟨⟨fun _ => .inr hex, fun _ => rfl⟩, fun hd => absurd rfl hd⟩
  · rw [Hunt.talk_fresh]
    have hturnIn : h.definition.roleOf npc = some .turnIn ↔ h.definition.turnIn = npc :=
      (hs quest h hq).roleOf_eq_turnIn_iff
    split
    · next hr =>
      rw [Hunt.talk_none_of_turnIn hr]
      exact iff_of_false nofun fun hne => hne (hturnIn.1 hr)
    · next hr => exact iff_of_true rfl fun ht => hr (hturnIn.2 ht)

/-- The giver offers the quest both times. -/
theorem talk_again_eq_iff_giver :
    let w : World := { World.schuttgart with sessions := Sessions.empty.join "a" 60 }
    w.registry.Arises ∧ w.registry.index.Checked ∧
      ∃ d s, w.perform .epoch (.talk "a" ⟨31981⟩) = .ok (.dialogue d, { w with sessions := s }) ∧
        { w with sessions := s }.perform .epoch (.talk "a" ⟨31981⟩) = .ok (.dialogue d, { w with sessions := s }) := by
  intro w
  have hw : w.registry.Arises := .register _ (.empty _)
  obtain ⟨⟨d, d', s, hfirst, hagain, hiff, -⟩, -⟩ :=
    talk_again_eq_iff hw checked_schuttgart .epoch .epoch "a" ⟨31981⟩
  have hsame : d' = d := hiff.2 (.inr fun h hq ht => by
    have hserved : w.registry.index.get? h.definition.id =
        if (Hunt.schuttgart .default).definition.id = h.definition.id then some (.schuttgart .default) else none :=
      Index.get?_register ..
    rw [hserved] at hq
    split at hq
    · cases hq
      exact absurd ht (by decide)
    · cases hq)
  exact ⟨hw, checked_schuttgart, d, s, hfirst, hsame ▸ hagain⟩

/-- The character who takes the items may start quests. Who talks to it has no quest at first, and is shown a page when
talking once more. -/
theorem talk_again_changed :
    let d : Definition := { Definition.schuttgart with startNpcs := [⟨31981⟩, ⟨31972⟩] }
    let w : World := ⟨(Registry.empty .default).register ⟨d, .default⟩, Sessions.empty.join "a" 60, .ofRolls []⟩
    Definition.ofDraft d.toDraft = .ok d ∧
      ∃ s, w.perform .epoch (.talk "a" ⟨31972⟩) = .ok (.dialogue .noQuest, { w with sessions := s }) ∧
        { w with sessions := s }.perform .epoch (.talk "a" ⟨31972⟩) =
          .ok (.dialogue (.page "31972-01.htm"), { w with sessions := s }) := by
  intro d w
  refine ⟨rfl, (w.registry.index.talk w.sessions "a" ⟨31972⟩).2, ?_, ?_⟩
  · rw [perform_talk]
    have hsaid : (w.registry.index.talk w.sessions "a" ⟨31972⟩).1 = .noQuest := by decide +kernel
    rw [hsaid]
  · rw [perform_talk]
    have hagain : w.registry.index.talk (w.registry.index.talk w.sessions "a" ⟨31972⟩).2 "a" ⟨31972⟩ =
        (.page "31972-01.htm", (w.registry.index.talk w.sessions "a" ⟨31972⟩).2) := by decide +kernel
    rw [hagain]

end World

end Questline
