import Questline.Proofs.Index
import Questline.World

/-!
# What a talk says and does

A talk asks quests one after the other and enters records on the way, until a quest shows a page. Here it is described
without the order of its steps: what each quest says is settled by the records before the talk, because no quest is
asked twice; `reply` puts together what is said, `heard` are the quests up to the first page, and the player gets a
record of those among them that are new to a player of that level.
-/

namespace Questline

/-- The first page; and when nobody shows one, that a quest is completed, if somebody says so. -/
def reply (said : List Dialogue) : Dialogue :=
  match said.find? fun d => !d.isDefault with
  | some page => page
  | none => if .alreadyCompleted ∈ said then .alreadyCompleted else .noQuest

theorem reply_noQuest_cons (said : List Dialogue) : reply (.noQuest :: said) = reply said := by
  simp [reply, Dialogue.isDefault]

theorem reply_of_isDefault {message : Dialogue} (h : message.isDefault) : reply [message] = message := by
  cases message with
  | page => cases h
  | noQuest | alreadyCompleted => rfl

theorem reply_cons_cons {message : Dialogue} (hm : message.isDefault) (d : Dialogue) (said : List Dialogue) :
    reply (message :: d :: said) =
      if d.isDefault then reply ((if message = .noQuest then d else message) :: said) else d := by
  cases message with
  | page => cases hm
  | noQuest =>
    cases d with
    | page | noQuest | alreadyCompleted => simp [reply, Dialogue.isDefault]
  | alreadyCompleted =>
    cases d with
    | page | noQuest | alreadyCompleted => simp [reply, Dialogue.isDefault]

/-- The hunts that are asked until one of them shows a page, together with that one. -/
def heard (tells : Hunt → Dialogue) (hs : List Hunt) : List Hunt :=
  hs.take (hs.findIdx (fun h => !(tells h).isDefault) + 1)

theorem heard_cons (tells : Hunt → Dialogue) (h : Hunt) (hs : List Hunt) :
    heard tells (h :: hs) = h :: if (tells h).isDefault then heard tells hs else [] := by
  unfold heard
  rw [List.findIdx_cons]
  cases (tells h).isDefault <;> simp

theorem heard_congr {tells tells' : Hunt → Dialogue} {hs : List Hunt} (h : ∀ g ∈ hs, tells g = tells' g) :
    heard tells hs = heard tells' hs := by
  induction hs with
  | nil => rfl
  | cons g hs ih =>
    obtain ⟨hg, hrest⟩ := List.forall_mem_cons.1 h
    rw [heard_cons, heard_cons, hg, ih hrest]

/-- The player gets a fresh record of each of the given quests. Nothing else changes, for this player or another. -/
structure Sessions.Enters (player : PlayerId) (new : List Hunt) (s s' : Sessions) : Prop where
  entered : ∀ h ∈ new, s'.record? player h.definition.id = some (.fresh h.definition.id h.definition.questItems)
  kept : ∀ quest, (∀ h ∈ new, h.definition.id ≠ quest) → s'.record? player quest = s.record? player quest
  session : ∀ p, s.players.get? player = some p → ∃ journal, s'.players.get? player = some { p with journal }
  others : ∀ other, other ≠ player → s'.players.get? other = s.players.get? other
  parties : s'.parties = s.parties
  nextParty : s'.nextParty = s.nextParty
  log : s'.log = s.log

namespace Sessions.Enters

variable {player : PlayerId} {new new' : List Hunt} {s s' s'' : Sessions}

theorem refl (player : PlayerId) (s : Sessions) : Enters player [] s s where
  entered _ hh := absurd hh List.not_mem_nil
  kept _ _ := rfl
  session p hp := ⟨p.journal, hp⟩
  others _ _ := rfl
  parties := rfl
  nextParty := rfl
  log := rfl

/-- Records that were entered first are not touched by those that are entered later. -/
theorem trans (h : Enters player new s s') (h' : Enters player new' s' s'')
    (hd : ∀ g ∈ new, ∀ g' ∈ new', g'.definition.id ≠ g.definition.id) : Enters player (new ++ new') s s'' where
  entered g hg := by
    rcases List.mem_append.1 hg with hg | hg
    · rw [h'.kept _ (hd g hg), h.entered g hg]
    · exact h'.entered g hg
  kept quest hq := by
    rw [h'.kept quest fun g hg => hq g (List.mem_append_right new hg),
      h.kept quest fun g hg => hq g (List.mem_append_left new' hg)]
  session p hp := by
    obtain ⟨journal, hp'⟩ := h.session p hp
    obtain ⟨journal', hp''⟩ := h'.session _ hp'
    exact ⟨journal', hp''⟩
  others other ho := (h'.others other ho).trans (h.others other ho)
  parties := h'.parties.trans h.parties
  nextParty := h'.nextParty.trans h.nextParty
  log := h'.log.trans h.log

theorem single {h : Hunt} {level : Int32} (hl : s.level? player = some level)
    (hn : s.record? player h.definition.id = none) :
    Enters player [h] s (s.enterRecord player (.fresh h.definition.id h.definition.questItems)) := by
  obtain ⟨p, hp, -⟩ := Option.map_eq_some_iff.1 hl
  have hjournal : p.journal.get? h.definition.id = none := by rwa [Sessions.record?, hp] at hn
  refine ⟨fun g hg => ?_, fun quest hq => ?_, fun q hq => ?_, fun other ho => ?_, rfl, rfl, rfl⟩
  · rw [List.mem_singleton.1 hg, record?_enterRecord, if_pos ⟨rfl, rfl⟩, hp, Option.map_some]
    rw [hjournal]
    rfl
  · rw [record?_enterRecord, if_neg]
    exact fun hc => hq h (List.mem_singleton_self h) hc.2
  · unfold enterRecord
    rw [get?_modifyPlayer, if_pos rfl, hq]
    exact ⟨_, rfl⟩
  · unfold enterRecord
    rw [get?_modifyPlayer, if_neg fun hc => ho hc.symm]

theorem level? (h : Enters player new s s') {level : Int32} (hl : s.level? player = some level) :
    s'.level? player = some level := by
  obtain ⟨p, hp, rfl⟩ := Option.map_eq_some_iff.1 hl
  obtain ⟨journal, hp'⟩ := h.session p hp
  rw [Sessions.level?, hp', Option.map_some]

theorem exists_of_record? (h : Enters player new s s') {player' : PlayerId} {quest : QuestId} {r : Record}
    (hn : s.record? player' quest = none) (hr : s'.record? player' quest = some r) :
    player' = player ∧ ∃ g ∈ new, g.definition.id = quest := by
  by_cases hp : player' = player
  · subst hp
    refine ⟨rfl, Classical.byContradiction fun hq => ?_⟩
    rw [h.kept quest fun g hg he => hq ⟨g, hg, he⟩, hn] at hr
    cases hr
  · rw [Sessions.record?, h.others player' hp, ← Sessions.record?, hn] at hr
    cases hr

end Sessions.Enters

namespace Index

open Sessions (Enters)

variable (npc : NpcId) (player : PlayerId) (level : Int32)

/-- The quest has something to say to the player: there is a record, or the character starts the quest. -/
def asks (s : Sessions) (h : Hunt) : Bool :=
  (s.record? player h.definition.id).isSome || h.definition.isStartNpc npc

/-- What the quest says, by the record that there is. -/
def tells (s : Sessions) (h : Hunt) : Dialogue := h.talk npc level (s.record? player h.definition.id)

/-- The quest is new to the player, and the player's level suffices for it. -/
def isNew (s : Sessions) (h : Hunt) : Bool :=
  (s.record? player h.definition.id).isNone && decide (h.definition.levelRequired ≤ level)

def met (s : Sessions) (h : Hunt) : Sessions :=
  if isNew player level s h then s.enterRecord player (.fresh h.definition.id h.definition.questItems) else s

theorem talkOnce_eq (s : Sessions) (h : Hunt) :
    talkOnce h npc player level s =
      if asks npc player s h then some (tells npc player level s h, met player level s h) else none := by
  unfold talkOnce asks tells met isNew
  cases hr : s.record? player h.definition.id <;> simp [hr]

variable {player level} in
theorem enters_met {s : Sessions} (hl : s.level? player = some level) (h : Hunt) :
    Enters player ([h].filter (isNew player level s)) s (met player level s h) := by
  unfold met
  by_cases hnew : isNew player level s h = true
  · rw [if_pos hnew, List.filter_cons_of_pos hnew, List.filter_nil]
    rw [isNew, Bool.and_eq_true, Option.isNone_iff_eq_none] at hnew
    exact .single hl hnew.1
  · rw [if_neg hnew, List.filter_cons_of_neg hnew, List.filter_nil]
    exact .refl player s

variable {player}

/-- Hunts that find the same records as before ask, say and enter the same. -/
theorem heard_filter_congr {s s' : Sessions} {hs : List Hunt}
    (h : ∀ g ∈ hs, s'.record? player g.definition.id = s.record? player g.definition.id) :
    hs.filter (asks npc player s') = hs.filter (asks npc player s) ∧
      (hs.filter (asks npc player s)).map (tells npc player level s') =
        (hs.filter (asks npc player s)).map (tells npc player level s) ∧
      (heard (tells npc player level s') (hs.filter (asks npc player s))).filter (isNew player level s') =
        (heard (tells npc player level s) (hs.filter (asks npc player s))).filter (isNew player level s) := by
  have hasked : ∀ g ∈ hs.filter (asks npc player s), tells npc player level s' g = tells npc player level s g :=
    fun g hg => by rw [tells, h g (List.mem_filter.1 hg).1, ← tells]
  refine ⟨List.filter_congr fun g hg => ?_, List.map_congr_left hasked, ?_⟩
  · rw [asks, h g hg, ← asks]
  · rw [heard_congr hasked]
    refine List.filter_congr fun g hg => ?_
    rw [isNew, h g (List.mem_filter.1 (List.mem_of_mem_take hg)).1, ← isNew]

variable {npc level}

theorem talkInTurn_eq {hs : List Hunt} (hn : (hs.map (·.definition.id)).Nodup) {s : Sessions} {message : Dialogue}
    (hm : message.isDefault) (hl : s.level? player = some level) :
    (talkInTurn npc player level hs message s).1 =
        reply (message :: (hs.filter (asks npc player s)).map (tells npc player level s)) ∧
      Enters player ((heard (tells npc player level s) (hs.filter (asks npc player s))).filter (isNew player level s)) s
        (talkInTurn npc player level hs message s).2 := by
  induction hs generalizing s message with
  | nil => exact ⟨(reply_of_isDefault hm).symm, .refl player s⟩
  | cons h hs ih =>
    obtain ⟨hfirst, hrest⟩ := List.nodup_cons.1 hn
    have hne : ∀ g ∈ hs, g.definition.id ≠ h.definition.id := fun g hg he => by
      have hm : g.definition.id ∈ hs.map (·.definition.id) := List.mem_map.2 ⟨g, hg, rfl⟩
      rw [he] at hm
      exact hfirst hm
    rw [talkInTurn, talkOnce_eq]
    by_cases hask : asks npc player s h = true
    · have hstep := enters_met hl h
      have hsame : ∀ g ∈ hs, (met player level s h).record? player g.definition.id =
          s.record? player g.definition.id := fun g hg =>
        hstep.kept _ fun g' hg' => by
          rw [List.mem_singleton.1 (List.mem_filter.1 hg').1]
          exact (hne g hg).symm
      obtain ⟨hasks, htells, hnews⟩ := heard_filter_congr npc level hsame
      rw [if_pos hask, List.filter_cons_of_pos hask, List.map_cons, reply_cons_cons hm, heard_cons]
      simp only
      by_cases hd : (tells npc player level s h).isDefault = true
      · have hm' : (if message = .noQuest then tells npc player level s h else message).isDefault := by
          split <;> assumption
        obtain ⟨hreply, henters⟩ := ih hrest hm' (hstep.level? hl)
        rw [hasks, htells] at hreply
        rw [hasks, hnews] at henters
        rw [if_pos hd, if_pos hd, if_pos hd]
        have hsplit := List.filter_append (p := isNew player level s) [h]
          (heard (tells npc player level s) (hs.filter (asks npc player s)))
        rw [List.singleton_append] at hsplit
        rw [hsplit]
        refine ⟨hreply, hstep.trans henters fun g hg g' hg' => ?_⟩
        rw [List.mem_singleton.1 (List.mem_filter.1 hg).1]
        have hm' := List.mem_of_mem_take (List.mem_filter.1 hg').1
        exact hne g' (List.mem_filter.1 hm').1
      · rw [if_neg hd, if_neg hd, if_neg hd]
        exact ⟨rfl, hstep⟩
    · rw [if_neg hask, List.filter_cons_of_neg hask]
      exact ih hrest hm hl

/-- The quests that have something to say to the player, in ascending order. -/
def concerned (ix : Index) (npc : NpcId) (player : PlayerId) (s : Sessions) : List Hunt :=
  (ix.talkHunts npc).filter (asks npc player s)

theorem Kept.ascending_talkHunts {ix : Index} (hk : ix.Kept) (npc : NpcId) :
    Ascending ((ix.talkHunts npc).map (·.definition.id)) :=
  hk.ascending_huntsFor .talks npc

theorem Kept.ascending_concerned {ix : Index} (hk : ix.Kept) (npc : NpcId) (player : PlayerId) (s : Sessions) :
    Ascending ((ix.concerned npc player s).map (·.definition.id)) :=
  (hk.ascending_talkHunts npc).sublist (List.filter_sublist.map _)

theorem Kept.mem_concerned {ix : Index} (hk : ix.Kept) {npc : NpcId} {player : PlayerId} {s : Sessions} {h : Hunt} :
    h ∈ ix.concerned npc player s ↔
      ix.get? h.definition.id = some h ∧ npc ∈ h.definition.talkNpcs ∧
        ((s.record? player h.definition.id).isSome ∨ npc ∈ h.definition.startNpcs) := by
  have hmem := hk.mem_huntsFor .talks npc h
  unfold concerned talkHunts
  rw [List.mem_filter, ← table, hmem, asks, Bool.or_eq_true, Definition.isStartNpc, decide_eq_true_iff, and_assoc]
  rfl

theorem Kept.talk_eq {ix : Index} (hk : ix.Kept) {s : Sessions} (hl : s.level? player = some level) (npc : NpcId) :
    (ix.talk s player npc).1 = reply ((ix.concerned npc player s).map (tells npc player level s)) ∧
      Enters player ((heard (tells npc player level s) (ix.concerned npc player s)).filter (isNew player level s)) s
        (ix.talk s player npc).2 := by
  unfold talk
  rw [hl]
  have hm : Dialogue.noQuest.isDefault = true := rfl
  obtain ⟨hreply, henters⟩ := talkInTurn_eq (hk.ascending_talkHunts npc).nodup hm hl
  exact ⟨hreply.trans (reply_noQuest_cons _), henters⟩

end Index

namespace World

open Index

theorem perform_talk (w : World) (now : Instant) (player : PlayerId) (npc : NpcId) :
    w.perform now (.talk player npc) = .ok (.dialogue (w.registry.index.talk w.sessions player npc).1,
      { w with sessions := (w.registry.index.talk w.sessions player npc).2 }) := rfl

/-- A player who is present talks to a character. The quests that have something to say are those about the character
of which the player has a record, and those that the character starts; they are asked in ascending order. What each
says is settled by the player's record before the talk. The first page is the answer; without a page, that a quest
is completed, if one says so. The player gets a fresh record of each quest that was asked until the page came, if
there was none and the level suffices. Nothing else changes, and no die is drawn. -/
theorem talk_first_page {w : World} (hw : w.registry.Arises) {player : PlayerId} {level : Int32}
    (hl : w.sessions.level? player = some level) (now : Instant) (npc : NpcId) :
    let asked := w.registry.index.concerned npc player w.sessions
    let said := fun h : Hunt => h.talk npc level (w.sessions.record? player h.definition.id)
    Ascending (asked.map (·.definition.id)) ∧
    (∀ h, h ∈ asked ↔
      w.registry.index.get? h.definition.id = some h ∧ npc ∈ h.definition.talkNpcs ∧
        ((w.sessions.record? player h.definition.id).isSome ∨ npc ∈ h.definition.startNpcs)) ∧
    ∃ s, w.perform now (.talk player npc) = .ok (.dialogue (reply (asked.map said)), { w with sessions := s }) ∧
      w.sessions.Enters player
        ((heard said asked).filter fun h =>
          (w.sessions.record? player h.definition.id).isNone && decide (h.definition.levelRequired ≤ level)) s := by
  intro asked said
  have hk := hw.kept
  obtain ⟨hreply, henters⟩ := hk.talk_eq hl npc
  have hperform := perform_talk w now player npc
  rw [hreply] at hperform
  exact ⟨hk.ascending_concerned npc player w.sessions, fun h => hk.mem_concerned, _, hperform, henters⟩

/-- Three quests at one character: the first is completed, which is kept for the case that no page comes; the second
shows a page, and its record is entered; the third, though also new to the player, is not asked. -/
theorem talk_first_page_of_three :
    let first := Hunt.schuttgart .default
    let giving (number : UInt32) : Hunt :=
      { first with definition := { first.definition with
          id := ⟨number⟩
          startNpcs := [⟨31972⟩]
          giver := ⟨31972⟩
          turnIn := ⟨31981⟩
          roles := .ofList [(⟨31972⟩, .giver), (⟨31981⟩, .turnIn)] } }
    let completed : Record := { Record.fresh ⟨10280⟩ [] with phase := .completed }
    let w : World :=
      { registry := ((Registry.empty .default |>.register (giving 10282)).register first).register (giving 10281)
        sessions := (Sessions.empty.join "a" 60).enterRecord "a" completed
        dice := .ofRolls [] }
    w.registry.Arises ∧ w.sessions.level? "a" = some 60 ∧
      w.registry.index.concerned ⟨31972⟩ "a" w.sessions = [first, giving 10281, giving 10282] ∧
      ∃ s, w.perform .epoch (.talk "a" ⟨31972⟩) =
          .ok (.dialogue (.page (pageName ⟨31972⟩ 1)), { w with sessions := s }) ∧
        s.record? "a" ⟨10280⟩ = some completed ∧
        s.record? "a" ⟨10281⟩ = some (.fresh ⟨10281⟩ first.definition.questItems) ∧ s.record? "a" ⟨10282⟩ = none := by
  intro first giving completed w
  have hw : w.registry.Arises := .register _ (.register _ (.register _ (.empty _)))
  have hl : w.sessions.level? "a" = some 60 := by decide +kernel
  have hasked : w.registry.index.concerned ⟨31972⟩ "a" w.sessions = [first, giving 10281, giving 10282] := by
    decide +kernel
  obtain ⟨-, -, s, hperform, henters⟩ := talk_first_page hw hl .epoch ⟨31972⟩
  rw [hasked] at hperform henters
  have hfirst : w.sessions.record? "a" ⟨10280⟩ = some completed := by decide +kernel
  have hthird : w.sessions.record? "a" ⟨10282⟩ = none := by decide +kernel
  have hreply : reply ([first, giving 10281, giving 10282].map fun h =>
      h.talk ⟨31972⟩ 60 (w.sessions.record? "a" h.definition.id)) = .page (pageName ⟨31972⟩ 1) := by decide +kernel
  rw [hreply] at hperform
  refine ⟨hw, hl, hasked, s, hperform, ?_, ?_, ?_⟩
  · exact (henters.kept ⟨10280⟩ (by decide +kernel)).trans hfirst
  · exact henters.entered (giving 10281) (by decide +kernel)
  · exact (henters.kept ⟨10282⟩ (by decide +kernel)).trans hthird

end World

end Questline
