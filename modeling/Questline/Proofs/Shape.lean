import Questline.Proofs.Change
import Questline.Proofs.Items

/-!
# The shape of a record

A record is met in three shapes, one for each phase, although what changes it checks little by itself. `Record.Shaped`
is the invariant; along a play a record moves from phase to phase as `Phase.Precedes` says, and the items that it knows
stay the same from the day it is entered.
-/

namespace Questline

/-- The moves in the life of a record. The last one is for repeatable quests. -/
inductive Phase.Precedes : Phase → Phase → Prop where
  | accepted : Precedes .created .started
  | ended : Precedes .started .completed
  | renewed : Precedes .started .created

namespace Record

/-- What else is in a record of each phase. -/
def Shaped (r : Record) : Prop :=
  match r.phase with
  | .created => r.cond = none ∧ (∀ item, r.count item = 0) ∧ r.startedAt = none ∧ r.completedAt = none
  | .started => r.cond = some 1 ∧ r.startedAt.isSome ∧ r.completedAt = none
  | .completed => r.cond = none ∧ (∀ item, r.count item = 0) ∧ r.startedAt.isSome ∧ r.completedAt.isSome

variable {r : Record}

theorem Shaped.of_created (h : r.Shaped) (hp : r.phase = .created) :
    r.cond = none ∧ (∀ item, r.count item = 0) ∧ r.startedAt = none ∧ r.completedAt = none := by
  rwa [Shaped, hp] at h

theorem Shaped.of_started (h : r.Shaped) (hp : r.phase = .started) :
    r.cond = some 1 ∧ r.startedAt.isSome ∧ r.completedAt = none := by
  rwa [Shaped, hp] at h

theorem shaped_fresh (quest : QuestId) (items : List ItemId) : (fresh quest items).Shaped :=
  ⟨rfl, count_fresh quest items, rfl, rfl⟩

theorem Shaped.start (h : r.Shaped) (hp : r.phase = .created) (now : Instant) :
    (r.start Hunt.collecting now).Shaped :=
  ⟨rfl, rfl, (h.of_created hp).2.2.2⟩

theorem Shaped.give (h : r.Shaped) (hp : r.phase = .started) (item : ItemId) (count max : UInt32) :
    (r.give item count max).1.Shaped := by
  obtain ⟨items, he⟩ := r.give_eq item count max
  have hs := h.of_started hp
  rw [he, Shaped, hp]
  exact hs

theorem Shaped.exit (h : r.Shaped) (hp : r.phase = .started) (repeatable : Bool) (now : Instant) :
    (r.clearCond.exit repeatable now).1.Shaped := by
  have hcount := r.clearCond.count_exit repeatable now
  cases repeatable with
  | false => exact ⟨rfl, hcount, (h.of_started hp).2.1, rfl⟩
  | true => exact ⟨rfl, hcount, rfl, rfl⟩

/-- A record that was renewed is as good as a fresh one. -/
theorem Shaped.eq_fresh (h : r.Shaped) (hp : r.phase = .created) : r = fresh r.quest r.items.keys := by
  obtain ⟨hcond, hcount, hstarted, hcompleted⟩ := h.of_created hp
  have hitems : r.items = (fresh r.quest r.items.keys).items := by
    refine Table.ext_get? fun item => ?_
    have hzero := hcount item
    rw [get?_items_fresh]
    simp only [Table.mem_keys, Table.contains]
    unfold count at hzero
    cases hi : r.items.get? item with
    | none => rfl
    | some n =>
      rw [hi] at hzero
      exact congrArg some hzero
  obtain ⟨quest, phase, cond, items, startedAt, completedAt⟩ := r
  simp only at hp hcond hstarted hcompleted
  subst hp hcond hstarted hcompleted
  exact congrArg (Record.mk quest .created none · none none) hitems

end Record

namespace Record.Change

variable {ix : Index} {quest : QuestId}

theorem shaped {o o' : Option Record} (h : Change ix quest o o') (ho : ∀ r ∈ o, r.quest = quest ∧ r.Shaped) :
    ∀ r ∈ o', r.quest = quest ∧ r.Shaped := by
  intro r' hr'
  cases h with
  | enters => 
    cases hr'
    exact ⟨rfl, shaped_fresh ..⟩
  | @gains _ drop r _ _ _ started =>
    cases hr'
    obtain ⟨hq, hs⟩ := ho r rfl
    obtain ⟨items, he⟩ := r.give_eq drop.item drop.count drop.max
    exact ⟨by rw [he]; exact hq, hs.give started ..⟩
  | accepts created =>
    cases hr'
    obtain ⟨hq, hs⟩ := ho _ rfl
    exact ⟨hq, hs.start created _⟩
  | @pays h r now _ started =>
    cases hr'
    obtain ⟨hq, hs⟩ := ho _ rfl
    refine ⟨?_, hs.exit started _ _⟩
    cases h.definition.reward.repeatable <;> exact hq

theorem contains {r : Record} {o : Option Record} (h : Change ix quest (some r) o) :
    ∃ r', o = some r' ∧ ∀ item, r'.items.contains item = r.items.contains item := by
  cases h with
  | gains => exact ⟨_, rfl, fun item => Record.contains_give ..⟩
  | accepts => exact ⟨_, rfl, fun _ => rfl⟩
  | pays => exact ⟨_, rfl, fun item => Record.contains_exit ..⟩

end Record.Change

/-- Unless the player leaves the game, a turn keeps a record in its phase or moves it along, and keeps the items that it
knows. -/
theorem Turn.record_moves {t : Turn} (h : t.Performed) {player : PlayerId} (hl : t.command ≠ .leave player)
    {quest : QuestId} {r : Record} (hr : t.before.sessions.record? player quest = some r) :
    ∃ r', t.after.sessions.record? player quest = some r' ∧ (r'.phase = r.phase ∨ r.phase.Precedes r'.phase) ∧
      ∀ item, r'.items.contains item = r.items.contains item := by
  have hlives := t.lives h hl quest
  have hchanges := t.changes h hl quest
  rw [hr] at hlives hchanges
  generalize t.after.sessions.record? player quest = o at hlives hchanges ⊢
  have hcontains : ∃ r', o = some r' ∧ ∀ item, r'.items.contains item = r.items.contains item := by
    clear hlives
    induction hchanges with
    | refl => exact ⟨r, rfl, fun _ => rfl⟩
    | tail _ hc ih =>
      obtain ⟨r₁, rfl, h₁⟩ := ih
      obtain ⟨r₂, rfl, h₂⟩ := hc.contains
      exact ⟨r₂, rfl, fun item => (h₂ item).trans (h₁ item)⟩
  obtain ⟨r', rfl, hitems⟩ := hcontains
  refine ⟨r', rfl, ?_, hitems⟩
  generalize t.answer = answer, t.marks player quest = marks at hlives
  cases hlives with
  | drifts hd =>
    cases hd with
    | still => exact .inl rfl
    | gains before after => exact .inl (after.trans before.symm)
  | accepts created started =>
    rw [created, started]
    exact .inr .accepted
  | @pays _ g _ _ served started ended | @forfeits g _ _ served started ended =>
    rw [started, ended]
    cases g.definition.reward.repeatable with
    | false => exact .inr .ended
    | true => exact .inr .renewed

theorem Turn.created_of_entered {t : Turn} (h : t.Performed) {player : PlayerId} (hl : t.command ≠ .leave player)
    {quest : QuestId} {r : Record} (hn : t.before.sessions.record? player quest = none)
    (hr : t.after.sessions.record? player quest = some r) : r.phase = .created := by
  have hlives := t.lives h hl quest
  rw [hn, hr] at hlives
  generalize t.answer = answer, t.marks player quest = marks at hlives
  cases hlives with
  | drifts hd =>
    cases hd with
    | entered created => exact created

namespace Play

variable {start w : World} {turns : List Turn}

theorem record_shaped (h : Play start turns w) (hs : start.sessions = .empty) {player : PlayerId} {quest : QuestId}
    {r : Record} (hr : w.sessions.record? player quest = some r) : r.quest = quest ∧ r.Shaped := by
  refine h.forall_records (P := fun quest r => r.quest = quest ∧ r.Shaped) (fun _ _ _ hr => ?_)
    (fun _ _ _ _ _ hc ho => hc.shaped ho) player quest r hr
  rw [hs] at hr
  cases hr

/-- The items that a record knows stay the same as long as the player does not leave the game. -/
theorem contains_stays (h : Play start turns w) {player : PlayerId} {quest : QuestId} {r : Record}
    (hr : start.sessions.record? player quest = some r) (hl : ∀ t ∈ turns, t.command ≠ .leave player) :
    ∃ r', w.sessions.record? player quest = some r' ∧
      ∀ item, r'.items.contains item = r.items.contains item := by
  induction h with
  | nil => exact ⟨r, hr, fun _ => rfl⟩
  | @turn turns t _ ht ih =>
    obtain ⟨r₁, hr₁, h₁⟩ := ih fun t' ht' => hl t' (List.mem_cons_of_mem t ht')
    obtain ⟨r₂, hr₂, -, h₂⟩ := Turn.record_moves ht (hl t List.mem_cons_self) hr₁
    exact ⟨r₂, hr₂, fun item => (h₂ item).trans (h₁ item)⟩

/-- Whatever is played from an empty start, every record stands under its own quest and has the shape of its phase. A
turn that does not make the player leave the game enters a record in the first phase, or keeps it in its phase, or moves
it along; and a record that is renewed is as a fresh one. The items that a record knows are the same ever after. -/
theorem record_lives {registry : Registry} {dice : Dice} (h : Play ⟨registry, .empty, dice⟩ turns w)
    (player : PlayerId) (quest : QuestId) :
    (∀ r, w.sessions.record? player quest = some r → r.quest = quest ∧ r.Shaped) ∧
    (∀ t ∈ turns, t.command ≠ .leave player →
      (t.before.sessions.record? player quest = none →
        ∀ r', t.after.sessions.record? player quest = some r' → r'.phase = .created) ∧
      ∀ r, t.before.sessions.record? player quest = some r →
        ∃ r', t.after.sessions.record? player quest = some r' ∧
          (r'.phase = r.phase ∨ r.phase.Precedes r'.phase) ∧
          (r'.phase = .created → r' = .fresh quest r'.items.keys) ∧
          ∀ item, r'.items.contains item = r.items.contains item) ∧
    ∀ later t earlier, turns = later ++ t :: earlier → (∀ t' ∈ later, t'.command ≠ .leave player) →
      ∀ r, t.after.sessions.record? player quest = some r →
        ∃ r', w.sessions.record? player quest = some r' ∧
          ∀ item, r'.items.contains item = r.items.contains item := by
  refine ⟨fun r hr => h.record_shaped rfl hr, fun t ht hl => ⟨fun hn r' hr' => ?_, fun r hr => ?_⟩,
    fun later t earlier hsplit hl r hr => (hsplit ▸ h).resume.contains_stays hr hl⟩
  · exact Turn.created_of_entered (h.performed t ht) hl hn hr'
  · have hperformed := h.performed t ht
    obtain ⟨r', hr', hmoves, hitems⟩ := Turn.record_moves hperformed hl hr
    refine ⟨r', hr', hmoves, fun hcreated => ?_, hitems⟩
    obtain ⟨earlier, -, hbefore⟩ := h.exists_before ht
    obtain ⟨hquest, hshaped⟩ := (Play.turn hbefore hperformed).record_shaped rfl hr'
    exact hquest ▸ hshaped.eq_fresh hcreated

/-- The life of a record to its end: it is entered, accepted, and completed with both stamps and no items. -/
theorem record_lives_schuttgart :
    ∃ t' t earlier w, Play .schuttgart (t' :: t :: earlier) w ∧ t.command ≠ .leave "a" ∧
      (∃ r r', t.before.sessions.record? "a" ⟨10280⟩ = some r ∧ r.phase = .created ∧
        t.after.sessions.record? "a" ⟨10280⟩ = some r' ∧ r'.phase = .started ∧
        ∀ item, r'.items.contains item = r.items.contains item) ∧
      ∃ r, w.sessions.record? "a" ⟨10280⟩ = some r ∧ r.phase = .completed ∧ r.cond = none ∧
        (∀ item, r.count item = 0) ∧ r.startedAt.isSome ∧ r.completedAt.isSome := by
  obtain ⟨⟨turns, w⟩, hc, hk⟩ : ∃ q, carryOut [] .schuttgart [(.epoch, .join "a" 60), (.epoch, .talk "a" ⟨31981⟩),
      (.epoch, .choose "a" ⟨10280⟩ "31981-03.htm"), (.epoch, .choose "a" ⟨10280⟩ "31972-03.htm")] = q ∧
        (q.1.map (fun t => ((t.before.sessions.record? "a" ⟨10280⟩).map (·.phase),
          (t.after.sessions.record? "a" ⟨10280⟩).map (·.phase))) =
            [(some .started, some .completed), (some .created, some .started), (none, some .created), (none, none)]) :=
    ⟨_, rfl, by decide +kernel⟩
  have hplay := of_carryOut .nil hc
  have hcommands := commands_of_carryOut hc
  obtain ⟨t', _, rfl, hlast, htail⟩ := List.map_eq_cons_iff.1 hk
  obtain ⟨t, earlier, rfl, haccept, -⟩ := List.map_eq_cons_iff.1 htail
  obtain ⟨hbefore, hafter⟩ := Prod.mk.inj haccept
  obtain ⟨r, hr, hcreated⟩ := Option.map_eq_some_iff.1 hbefore
  have hl : t.command ≠ .leave "a" := by
    have hcommand : t.command = .choose "a" ⟨10280⟩ "31981-03.htm" := (List.cons.inj (List.cons.inj hcommands).2).1
    rw [hcommand]
    nofun
  obtain ⟨hshaped, hmoves, -⟩ := record_lives hplay "a" ⟨10280⟩
  obtain ⟨r', hr', -, -, hitems⟩ := (hmoves t (by simp) hl).2 r hr
  rw [hr'] at hafter
  refine ⟨t', t, earlier, w, hplay, hl, ⟨r, r', hr, hcreated, hr', Option.some.inj hafter, hitems⟩, ?_⟩
  obtain rfl : w = t'.after := by cases hplay; rfl
  obtain ⟨r₁, hr₁, hcompleted⟩ := Option.map_eq_some_iff.1 (Prod.mk.inj hlast).2
  have hs := (hshaped r₁ hr₁).2
  rw [Record.Shaped, hcompleted] at hs
  exact ⟨r₁, hr₁, hcompleted, hs⟩

end Play

end Questline
