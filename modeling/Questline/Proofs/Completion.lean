import Questline.Proofs.Accord
import Questline.Proofs.Recount
import Questline.Proofs.Refusal
import Questline.Proofs.Winners

/-!
# Which quests can be completed

A quest is ready when all its items are held, but the checks of a draft look only at the items that drops yield. Kills take
nothing away from a started record and add nothing but drops. So a lone player who has killed each monster holds each drop,
and the quest can become ready exactly when drops yield all its items; otherwise no kill ever makes up for what is missing.
-/

namespace Questline

/-- Drops yield all items of the quest. -/
def Definition.AllDropped (d : Definition) : Prop := ∀ item ∈ d.questItems, ∃ drop ∈ d.drops, drop.item = item

theorem Definition.dropFor_npc {draft : Draft} {d : Definition} (h : ofDraft draft = .ok d) {drop : Drop}
    (hm : drop ∈ d.drops) : d.dropFor drop.npc = some drop := by
  have hc := exists_ofDraft_iff.1 ⟨d, h⟩
  obtain rfl := toDraft_of_ofDraft h
  cases hd : d.dropFor drop.npc with
  | none => exact absurd rfl (dropFor_eq_none_iff.1 hd drop hm)
  | some other =>
    have hother : other.npc = drop.npc := by simpa using List.find?_some hd
    rw [List.inj_on_of_nodup_map hc.nodup_npcs (List.mem_of_find?_eq_some hd) hm hother]

/-- The record has gained drops of the quest, and is the same otherwise. -/
structure Record.Gathers (d : Definition) (r r' : Record) : Prop where
  record : r' = { r with items := r'.items }
  keys : ∀ item, r'.items.contains item = r.items.contains item
  grows : ∀ item, r.count item ≤ r'.count item
  undropped : ∀ item, (∀ drop ∈ d.drops, drop.item ≠ item) → r'.count item = r.count item

namespace Record.Gathers

variable {d : Definition} {r r' r'' : Record}

theorem refl (d : Definition) (r : Record) : r.Gathers d r where
  record := rfl
  keys _ := rfl
  grows _ := UInt32.le_refl _
  undropped _ _ := rfl

theorem trans (h : r.Gathers d r') (h' : r'.Gathers d r'') : r.Gathers d r'' where
  record := by
    have hlast := h'.record
    rw [h.record] at hlast
    exact hlast
  keys item := (h'.keys item).trans (h.keys item)
  grows item := UInt32.le_trans (h.grows item) (h'.grows item)
  undropped item hu := (h'.undropped item hu).trans (h.undropped item hu)

theorem phase (h : r.Gathers d r') : r'.phase = r.phase := by rw [h.record]

theorem shaped (h : r.Gathers d r') (hp : r.phase = .started) (hs : r.Shaped) : r'.Shaped := by
  have hstarted := hs.of_started hp
  rw [h.record, Shaped, hp]
  exact hstarted

end Record.Gathers

namespace Hunt

variable {h : Hunt} {npc : NpcId} {killer player : PlayerId} {kills : List (PlayerId × NpcId)} {s t : Sessions}
  {now : Instant}

/-- A kill, alone or among other quests: the records of this quest are those that the hunt leaves, with some die, and
nobody's company changes. -/
structure Strikes (h : Hunt) (killer : PlayerId) (npc : NpcId) (s t : Sessions) : Prop where
  records : ∃ dice, ∀ player,
    t.record? player h.definition.id = (h.kill npc killer s dice).2.1.record? player h.definition.id
  company : ∀ player, t.members? player = s.members? player

theorem strikes_kill (h : Hunt) (npc : NpcId) (killer : PlayerId) (s : Sessions) (dice : Dice) :
    h.Strikes killer npc s (h.kill npc killer s dice).2.1 where
  records := ⟨dice, fun _ => rfl⟩
  company player := by
    rw [kill_sessions]
    cases h.grant? npc killer s dice with
    | none => rfl
    | some g => exact Sessions.members?_modifyRecord ..

theorem Awards.gathers {drop : Drop} {winner : PlayerId} {r r' : Record} {o : Outcome}
    (ha : h.Awards npc killer s drop winner r r' o t) : r.Gathers h.definition r' where
  record := ha.recounts.record
  keys := ha.recounts.keys
  grows item := by
    by_cases he : item = drop.item
    · exact he ▸ UInt32.le_of_lt ha.gains
    · exact ha.recounts.counts item he ▸ UInt32.le_refl _
  undropped item hu := ha.recounts.counts item (hu drop (List.mem_of_find?_eq_some ha.drops)).symm

theorem gathers_kill {r : Record} (hr : s.record? player h.definition.id = some r) (npc : NpcId) (killer : PlayerId)
    (dice : Dice) :
    ∃ r', (h.kill npc killer s dice).2.1.record? player h.definition.id = some r' ∧ r.Gathers h.definition r' := by
  rw [kill_sessions]
  cases hg : h.grant? npc killer s dice with
  | none => exact ⟨r, hr, .refl h.definition r⟩
  | some g =>
    obtain ⟨drop, rw, ha⟩ := awards_of_grant hg
    by_cases hw : player = g.winner
    · subst hw
      obtain rfl := Option.some.inj (hr.symm.trans ha.recounts.before)
      exact ⟨g.record, ha.recounts.after, ha.gathers⟩
    · refine ⟨r, ?_, .refl h.definition r⟩
      rw [← hr, Option.elim_some, Sessions.record?, ha.recounts.players player hw, Sessions.record?]

/-- A lone killer on the quest gets some of the drop, or has enough already. -/
theorem holds_kill {drop : Drop} (hd : h.definition.dropFor npc = some drop) (hc : drop.count ≠ 0 ∧ drop.count ≤ drop.max)
    (alone : s.members? killer = none) {r : Record} (hr : s.record? killer h.definition.id = some r)
    (hp : r.phase = .started) (hk : r.items.contains drop.item) (dice : Dice) :
    ∃ r', (h.kill npc killer s dice).2.1.record? killer h.definition.id = some r' ∧ 0 < r'.count drop.item := by
  by_cases hmiss : r.count drop.item < drop.max
  · have heligible : (s.record? killer h.definition.id).any (soloEligible drop) := by
      simp [hr, soloEligible, misses, Record.isStarted, hp, hmiss]
    have hdrawn : h.drawn killer s dice drop = some killer := by rw [drawn_alone alone, if_pos heligible]
    have hserved := served_or_nothing hd hc.1 hdrawn hr
    rw [if_pos hk] at hserved
    refine ⟨(r.give drop.item drop.count drop.max).1, ?_, ?_⟩
    · rw [hserved.record, Sessions.record?_modifyRecord, if_pos ⟨rfl, rfl⟩, hr, Option.map_some]
    · exact UInt32.lt_of_le_of_lt UInt32.zero_le (Record.lt_count_give hserved.granted)
  · obtain ⟨r', hr', hgathers⟩ := gathers_kill hr npc killer dice
    have hmax : 0 < drop.max := UInt32.lt_of_lt_of_le (UInt32.pos_iff_ne_zero.2 hc.1) hc.2
    exact ⟨r', hr', UInt32.lt_of_lt_of_le hmax (UInt32.le_trans (UInt32.not_lt.1 hmiss) (hgathers.grows drop.item))⟩

/-- Kills one after another, the newest first. -/
inductive Campaign (h : Hunt) (s : Sessions) : List (PlayerId × NpcId) → Sessions → Prop where
  | nil : Campaign h s [] s
  | kill {killer : PlayerId} {npc : NpcId} {kills : List (PlayerId × NpcId)} {t u : Sessions} :
    Campaign h s kills t → h.Strikes killer npc t u → Campaign h s ((killer, npc) :: kills) u

/-- What is left after all of these kills, the newest of which stands first. -/
def killAll (h : Hunt) (kills : List (PlayerId × NpcId)) (s : Sessions) (dice : Dice) : Sessions × Dice :=
  kills.foldr (fun k p => (h.kill k.2 k.1 p.1 p.2).2) (s, dice)

theorem campaign_killAll (h : Hunt) (kills : List (PlayerId × NpcId)) (s : Sessions) (dice : Dice) :
    h.Campaign s kills (h.killAll kills s dice).1 := by
  induction kills with
  | nil => exact .nil
  | cons k earlier ih => exact .kill ih (strikes_kill ..)

def accepted (h : Hunt) (now : Instant) : Record :=
  (Record.fresh h.definition.id h.definition.questItems).start collecting now

theorem contains_accepted (item : ItemId) : (h.accepted now).items.contains item ↔ item ∈ h.definition.questItems :=
  Record.contains_fresh h.definition.id h.definition.questItems item

theorem shaped_accepted (h : Hunt) (now : Instant) : (h.accepted now).Shaped :=
  (Record.shaped_fresh h.definition.id h.definition.questItems).start rfl now

/-- A lone player is on the quest since then: the record has gained drops, among them all whose monsters the player has
killed. -/
structure Collects (h : Hunt) (player : PlayerId) (now : Instant) (kills : List (PlayerId × NpcId)) (s : Sessions) :
    Prop where
  alone : s.members? player = none
  record : ∃ r, s.record? player h.definition.id = some r ∧ (h.accepted now).Gathers h.definition r ∧
    ∀ drop ∈ h.definition.drops, (player, drop.npc) ∈ kills → 0 < r.count drop.item

theorem Collects.strikes {draft : Draft} (hd : Definition.ofDraft draft = .ok h.definition)
    (hc : h.Collects player now kills s) (hk : h.Strikes killer npc s t) :
    h.Collects player now ((killer, npc) :: kills) t := by
  obtain ⟨r, hr, hgathers, hheld⟩ := hc.record
  obtain ⟨dice, hrecords⟩ := hk.records
  obtain ⟨r', hr', hgains⟩ := gathers_kill hr npc killer dice
  refine ⟨(hk.company player).trans hc.alone, r', (hrecords player).trans hr', hgathers.trans hgains, fun drop hm hin => ?_⟩
  rcases List.mem_cons.1 hin with he | hearlier
  · cases he
    have hsound := Definition.sound_of_ofDraft hd
    have hknown : r.items.contains drop.item :=
      (hgathers.keys drop.item).trans ((contains_accepted _).2 (hsound.known drop hm))
    obtain ⟨r₁, hr₁, hpos⟩ :=
      holds_kill (Definition.dropFor_npc hd hm) (hsound.counted drop hm) hc.alone hr hgathers.phase hknown dice
    obtain rfl := Option.some.inj (hr'.symm.trans hr₁)
    exact hpos
  · exact UInt32.lt_of_lt_of_le (hheld drop hm hearlier) (hgains.grows drop.item)

theorem Campaign.collects {draft : Draft} (hd : Definition.ofDraft draft = .ok h.definition) (hc : h.Campaign s kills t)
    (alone : s.members? player = none) (hr : s.record? player h.definition.id = some (h.accepted now)) :
    h.Collects player now kills t := by
  induction hc with
  | nil => exact ⟨alone, _, hr, .refl .., fun _ _ hin => absurd hin List.not_mem_nil⟩
  | kill _ hk ih => exact ih.strikes hd hk

/-- The giver sees that all is there, and the turn-in character asks for it. -/
def Completes (h : Hunt) (level : Int32) (r : Record) : Prop :=
  h.talk h.definition.giver level (some r) = h.giverPage .ready ∧
    h.talk h.definition.turnIn level (some r) = h.turnInPage .deliver

theorem completes_iff {draft : Draft} (hd : Definition.ofDraft draft = .ok h.definition) {r : Record} (hs : r.Shaped)
    (hp : r.phase = .started) {level : Int32} : h.Completes level r ↔ r.hasAll := by
  have hcasts := Definition.casts_of_ofDraft hd
  unfold Completes
  rw [talk_giver hcasts hs, talk_turnIn hcasts hs, Record.standing, hp]
  cases r.hasAll <;> simp [giverTells, turnInTells, giverPage_inj, turnInPage_inj]

/-- What kills come to for a player on the quest. -/
structure Spoils (h : Hunt) (player : PlayerId) (kills : List (PlayerId × NpcId)) (r : Record) : Prop where
  /-- Some is held of each drop whose monster the player has killed. -/
  held : ∀ drop ∈ h.definition.drops, (player, drop.npc) ∈ kills → 1 ≤ r.count drop.item
  /-- It is all there when drops yield all items and the player has killed every monster. -/
  ready : h.definition.AllDropped → (∀ npc ∈ h.definition.killNpcs, (player, npc) ∈ kills) →
    ∀ level, h.Completes level r
  /-- An item that is not dropped is never there. -/
  stuck : ∀ level, h.Completes level r → h.definition.AllDropped

theorem Collects.spoils {draft : Draft} (hd : Definition.ofDraft draft = .ok h.definition)
    (hc : h.Collects player now kills s) : ∃ r, s.record? player h.definition.id = some r ∧ h.Spoils player kills r := by
  obtain ⟨r, hr, hgathers, hheld⟩ := hc.record
  have hknown : ∀ item, r.items.contains item ↔ item ∈ h.definition.questItems := fun item => by
    rw [hgathers.keys, contains_accepted]
  have hcompletes : ∀ level, h.Completes level r ↔ r.hasAll := fun level =>
    completes_iff hd (hgathers.shaped rfl (shaped_accepted h now)) hgathers.phase
  refine ⟨r, hr, hheld, fun hall hkilled level => ?_, fun level hready item hi => ?_⟩
  · obtain ⟨drop, hm⟩ := List.exists_mem_of_ne_nil _ (Definition.toDraft_of_ofDraft hd ▸
      (Definition.exists_ofDraft_iff.1 ⟨_, hd⟩).drops_ne_nil)
    rw [hcompletes, Record.hasAll_iff]
    refine ⟨⟨drop.item, (hknown _).2 ((Definition.sound_of_ofDraft hd).known drop hm)⟩, fun item hk => ?_⟩
    obtain ⟨drop, hm, rfl⟩ := hall item ((hknown item).1 hk)
    exact hheld drop hm (hkilled drop.npc (List.mem_map_of_mem hm))
  · by_contra hnone
    have hzero : r.count item = 0 :=
      (hgathers.undropped item fun drop hm he => hnone ⟨drop, hm, he⟩).trans
        (Record.count_fresh h.definition.id h.definition.questItems item)
    have hpos := (r.hasAll_iff.1 ((hcompletes level).1 hready)).2 item ((hknown item).2 hi)
    rw [hzero] at hpos
    exact UInt32.lt_irrefl 0 hpos

end Hunt

namespace World

theorem strikes_of_perform {w w' : World} {now : Instant} {c : Command} {a : Answer} (hw : w.registry.Arises) {g : Hunt}
    (hg : w.registry.index.get? g.definition.id = some g) {killer : PlayerId} {npc : NpcId}
    (hc : c.kill? = some (killer, npc)) (h : w.perform now c = .ok (a, w')) :
    g.Strikes killer npc w.sessions w'.sessions := by
  obtain ⟨answer, -, hp⟩ := perform_kill w now hc
  rw [hp] at h
  obtain ⟨⟨os, t, dice⟩, hk, he⟩ := Attempt.map_within_eq_ok.1 h
  cases he
  have hn : ((w.registry.index.killHunts npc).map (·.definition.id)).Nodup := (hw.kept.ascending_killHunts npc).nodup
  refine ⟨?_, fun player => ?_⟩
  · by_cases hm : g ∈ w.registry.index.killHunts npc
    · obtain ⟨d, hd⟩ := Index.exists_mem_dealt.2 hm
      exact ⟨d, Index.record?_of_dealt hn hk hd⟩
    · -- the quest is not asked, and has no drop for this monster, so it would not have changed anything either
      have hnone : g.definition.id ∉ (w.registry.index.killHunts npc).map (·.definition.id) := fun hq => by
        obtain ⟨g', hm', hid⟩ := List.mem_map.1 hq
        have hg' := (hw.kept.mem_killHunts.1 hm').1
        rw [hid, hg] at hg'
        exact hm (Option.some.inj hg' ▸ hm')
      have hbarren : g.definition.dropFor npc = none := Definition.dropFor_eq_none_iff.2 fun drop hdrop he =>
        hm (hw.kept.mem_killHunts.2 ⟨hg, List.mem_map.2 ⟨drop, hdrop, he⟩⟩)
      refine ⟨w.dice, fun player => ?_⟩
      rw [Index.record?_of_notMem hn hk hnone, Hunt.kill_sessions,
        Hunt.grant?_eq_none_iff.2 (.barren hbarren), Option.elim_none]
  · exact (Index.sameParties_kill hk).members? player

end World

namespace Hunt

theorem campaign_of_play {g : Hunt} {w w' : World} {turns : List Turn} (h : Play w turns w') (hw : w.registry.Arises)
    (hg : w.registry.index.get? g.definition.id = some g)
    (hk : ∀ t ∈ turns, t.command.kill?.isSome ∧ ∃ a, t.answer = .ok a) :
    g.Campaign w.sessions (turns.filterMap (·.command.kill?)) w'.sessions := by
  have hkeeps : ∀ c : Command, c.kill?.isSome → c.redefines = false := fun c hc => by
    unfold Command.kill? at hc
    split at hc
    · rfl
    · rfl
    · cases hc
  induction h with
  | nil => exact .nil
  | @turn turns t hplay ht ih =>
    obtain ⟨hlast, hearlier⟩ := List.forall_mem_cons.1 hk
    obtain ⟨hkills, a, ha⟩ := hlast
    obtain ⟨⟨killer, npc⟩, hc⟩ := Option.isSome_iff_exists.1 hkills
    have hregistry := hplay.registry_eq fun t' ht' => hkeeps t'.command (hearlier t' ht').1
    rw [List.filterMap_cons, hc]
    exact .kill (ih hearlier) (World.strikes_of_perform (hregistry ▸ hw) (hregistry ▸ hg) hc (ht.of_ok ha))

/-- A player in no party has just accepted a quest of some accepted draft. Whatever anybody kills from then on, the player
holds some of each drop whose monster the player has killed; and the two characters see the quest complete after some kills
exactly when drops yield all its items, which then only takes killing each monster. In a world that serves other quests,
too, all kills come to the same, unless one is broken off. -/
theorem completable_iff_all_dropped {draft : Draft} {g : Hunt} (hd : Definition.ofDraft draft = .ok g.definition)
    {player : PlayerId} {s : Sessions} (alone : s.members? player = none) {now : Instant}
    (hr : s.record? player g.definition.id = some (g.accepted now)) :
    (∀ kills dice, ∃ r, (g.killAll kills s dice).1.record? player g.definition.id = some r ∧ g.Spoils player kills r) ∧
    (∀ dice level, (∃ kills r, (g.killAll kills s dice).1.record? player g.definition.id = some r ∧ g.Completes level r) ↔
      g.definition.AllDropped) ∧
    ∀ w : World, w.sessions = s → w.registry.Arises → w.registry.index.get? g.definition.id = some g →
      ∀ turns w', Play w turns w' → (∀ t ∈ turns, t.command.kill?.isSome ∧ ∃ a, t.answer = .ok a) →
        ∃ r, w'.sessions.record? player g.definition.id = some r ∧
          g.Spoils player (turns.filterMap (·.command.kill?)) r := by
  have hspoils : ∀ kills dice, ∃ r, (g.killAll kills s dice).1.record? player g.definition.id = some r ∧
      g.Spoils player kills r := fun kills dice =>
    ((campaign_killAll g kills s dice).collects hd alone hr).spoils hd
  refine ⟨hspoils, fun dice level => ⟨?_, fun hall => ?_⟩, fun w hs hw hg turns w' hplay hk => ?_⟩
  · rintro ⟨kills, r, hr', hready⟩
    obtain ⟨r₁, hr₁, hr₁spoils⟩ := hspoils kills dice
    obtain rfl := Option.some.inj (hr'.symm.trans hr₁)
    exact hr₁spoils.stuck level hready
  · obtain ⟨r, hr', hready⟩ := hspoils (g.definition.killNpcs.map (player, ·)) dice
    exact ⟨_, r, hr', hready.ready hall (fun npc hn => List.mem_map_of_mem hn) level⟩
  · subst hs
    exact ((campaign_of_play hplay hw hg hk).collects hd alone hr).spoils hd

/-- Two kills complete the quest that comes with the program. With a third item that no monster drops, no kills would. -/
theorem completable_iff_all_dropped_schuttgart :
    let wanting : Hunt :=
      ⟨{ Definition.schuttgart with questItems := [⟨13838⟩, ⟨13839⟩, ⟨13840⟩] }, .default⟩
    let camp (h : Hunt) : Sessions :=
      ⟨.ofList [("a", { Session.fresh 60 with journal := Journal.empty.enter (h.accepted .epoch) })], .empty, ⟨1⟩, []⟩
    (∃ kills r, (Hunt.schuttgart .default).Completes 60 r ∧
      ((Hunt.schuttgart .default).killAll kills (camp (.schuttgart .default)) (.ofRolls [])).1.record? "a" ⟨10280⟩ =
        some r) ∧
    Definition.ofDraft wanting.definition.toDraft = .ok wanting.definition ∧
    ∀ level, ¬ ∃ kills r, (wanting.killAll kills (camp wanting) (.ofRolls [])).1.record? "a" ⟨10280⟩ = some r ∧
      wanting.Completes level r := by
  intro wanting camp
  have halone : (camp (.schuttgart .default)).members? "a" = none ∧ (camp wanting).members? "a" = none := by decide +kernel
  have hrecord : (camp (.schuttgart .default)).record? "a" ⟨10280⟩ = some ((Hunt.schuttgart .default).accepted .epoch) ∧
      (camp wanting).record? "a" ⟨10280⟩ = some (wanting.accepted .epoch) := by decide +kernel
  have hdropped : Definition.schuttgart.AllDropped := by
    unfold Definition.AllDropped
    decide
  have hmissing : ¬ wanting.definition.AllDropped := by
    unfold Definition.AllDropped
    decide
  have hwanting : Definition.ofDraft wanting.definition.toDraft = .ok wanting.definition := rfl
  obtain ⟨-, hdone, -⟩ :=
    completable_iff_all_dropped (g := .schuttgart .default) Definition.ofDraft_schuttgart halone.1 hrecord.1
  obtain ⟨-, hnever, -⟩ := completable_iff_all_dropped hwanting halone.2 hrecord.2
  obtain ⟨kills, r, hr, hready⟩ := (hdone (.ofRolls []) 60).2 hdropped
  exact ⟨⟨kills, r, hready, hr⟩, hwanting, fun level hc => hmissing ((hnever (.ofRolls []) level).1 hc)⟩

end Hunt

end Questline
