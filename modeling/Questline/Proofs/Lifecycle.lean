import Mathlib.Data.List.Chain
import Questline.Proofs.Play
import Questline.Proofs.Schuttgart

/-!
# The life of a record

For one player and one quest, a play is a sequence of marks: the quest is accepted, and it pays. Only choices leave
marks. All other deeds let the record drift: it is entered, or it gains items while the quest is started. Hence
acceptance and pay alternate until a turn ends the quest and is broken off before it has paid, which leaves no mark. The
record of a quest that ended for good never changes again.
-/

namespace Questline

inductive Mark where
  | accept
  | reward
  deriving DecidableEq, Repr

def Effect.mark? : Effect → Option Mark
  | .playSound _ .questAccept => some .accept
  | .reward .. => some .reward
  | _ => none

/-- The marks that a turn leaves on a quest of a player. -/
def Turn.marks (t : Turn) (player : PlayerId) (quest : QuestId) : List Mark :=
  match t.command.choice? with
  | some (player', quest', _) =>
    if player' = player ∧ quest' = quest then t.effects.filterMap Effect.mark? else []
  | none => []

/-- All marks on a quest of a player, oldest first. -/
def Play.marks (player : PlayerId) (quest : QuestId) : List Turn → List Mark
  | [] => []
  | t :: earlier => marks player quest earlier ++ t.marks player quest

/-- What may become of a record without a choice of its player. -/
inductive Record.Drifts : Option Record → Option Record → Prop where
  | still (o : Option Record) : Drifts o o
  | entered {r : Record} (created : r.phase = .created) : Drifts none (some r)
  | gains {r r' : Record} (before : r.phase = .started) (after : r'.phase = .started) : Drifts (some r) (some r')

namespace Record.Drifts

variable {o o₁ o₂ : Option Record} {r : Record}

theorem trans (h : Drifts o o₁) (h' : Drifts o₁ o₂) : Drifts o o₂ := by
  cases h with
  | still => exact h'
  | entered created =>
    cases h' with
    | still => exact .entered created
    | gains before after => rw [created] at before; cases before
  | gains before after =>
    cases h' with
    | still => exact .gains before after
    | gains _ after' => exact .gains before after'

theorem isStarted (h : Drifts o o₁) : o₁.any isStarted = o.any isStarted := by
  cases h with
  | still => rfl
  | entered created => simp [Record.isStarted, created]
  | gains before after => simp [Record.isStarted, before, after]

theorem started {r' : Record} (h : Drifts (some r) (some r')) (hp : r'.phase = .started) : r.phase = .started := by
  cases h with
  | still => exact hp
  | gains before after => exact before

theorem completed (h : Drifts (some r) o) (hp : r.phase = .completed) : o = some r := by
  cases h with
  | still => rfl
  | gains before after => rw [hp] at before; cases before

end Record.Drifts

open Record (Drifts)

theorem Record.phase_exit (r : Record) (repeatable : Bool) (now : Instant) :
    (r.exit repeatable now).1.phase = if repeatable then .created else .completed := by
  unfold exit
  split <;> rfl

theorem Record.phase_give (r : Record) (item : ItemId) (count max : UInt32) :
    (r.give item count max).1.phase = r.phase := by
  unfold give
  split <;> rfl

namespace Deed

variable {ix : Index} {s s' : Sessions} {es : List Effect}

theorem drifts (h : Deed ix s es s') (player : PlayerId) (quest : QuestId) :
    Drifts (s.record? player quest) (s'.record? player quest) := by
  cases h with
  | regroup hr =>
    rw [hr.record?]
    exact .still _
  | meet hm =>
    rcases hm.record? player quest with he | ⟨hn, h, -, -, he⟩
    · rw [he]
      exact .still _
    · rw [hn, he]
      exact .entered rfl
  | grant hg =>
    cases hg with
    | intro served drops entitled started misses grants advance =>
      rw [advance.record? player quest]
      split
      · next he =>
        obtain ⟨rfl, rfl⟩ := he
        rw [advance.before]
        exact .gains started ((Record.phase_give ..).trans started)
      · exact .still _

theorem unmarked (h : Deed ix s es s') : ∀ e ∈ es, e.mark? = none := by
  intro e he
  rcases h.effect_cases e he with ⟨_, _, _, _, rfl⟩ | ⟨_, rfl⟩ <;> rfl

theorem started_of_given (h : Deed ix s es s') {player : PlayerId} {quest : QuestId} {item : ItemId} {count : UInt32}
    (he : .itemGiven player quest item count ∈ es) : ∃ r, s.record? player quest = some r ∧ r.phase = .started := by
  cases h with
  | regroup => cases he
  | meet hm =>
    cases hm
    cases he
  | grant hg =>
    cases hg with
    | intro served drops entitled started misses grants advance =>
      simp only [List.mem_cons, Effect.itemGiven.injEq, List.not_mem_nil, or_false, reduceCtorEq] at he
      obtain ⟨rfl, rfl, -, -⟩ := he
      exact ⟨_, advance.before, started⟩

end Deed

namespace Chain

variable {ix : Index} {s s' : Sessions} {es : List Effect}

theorem drifts (h : Chain (Deed ix) s es s') (player : PlayerId) (quest : QuestId) :
    Drifts (s.record? player quest) (s'.record? player quest) := by
  induction h with
  | nil => exact .still _
  | cons hd _ ih => exact (hd.drifts player quest).trans ih

theorem unmarked (h : Chain (Deed ix) s es s') : ∀ e ∈ es, e.mark? = none :=
  h.forall_effects fun _ _ _ hd => hd.unmarked

theorem not_given_of_completed (h : Chain (Deed ix) s es s') {player : PlayerId} {quest : QuestId} {r : Record}
    (hr : s.record? player quest = some r) (hp : r.phase = .completed) (item : ItemId) (count : UInt32) :
    .itemGiven player quest item count ∉ es := by
  induction h with
  | nil => nofun
  | @cons s t _ _ _ hd _ ih =>
    have ht : t.record? player quest = some r := (hr ▸ hd.drifts player quest).completed hp
    intro he
    rcases List.mem_append.1 he with he | he
    · obtain ⟨r', hr', hp'⟩ := hd.started_of_given he
      rw [hr, Option.some.injEq] at hr'
      rw [← hr', hp] at hp'
      cases hp'
    · exact ih ht he

end Chain

theorem Sessions.record?_join (s : Sessions) (player player' : PlayerId) (level : Int32) (quest : QuestId) :
    (s.join player level).record? player' quest = s.record? player' quest := by
  unfold join record?
  rw [Table.get?_insert]
  split
  · next he =>
    subst he
    cases s.players.get? player with
    | none => rfl
    | some p => rfl
  · rfl

/-- What a turn makes of a player's record of a quest, with its answer and the marks that it leaves. -/
inductive Lives (ix : Index) (quest : QuestId) :
    Except Fault Answer → List Mark → Option Record → Option Record → Prop where
  | drifts {answer : Except Fault Answer} {o o' : Option Record} (h : Drifts o o') : Lives ix quest answer [] o o'
  | accepts {a : Answer} {r r' : Record} (created : r.phase = .created) (started : r'.phase = .started) :
      Lives ix quest (.ok a) [.accept] (some r) (some r')
  | pays {a : Answer} {h : Hunt} {r r' : Record} (served : ix.get? quest = some h) (started : r.phase = .started)
      (ended : r'.phase = if h.definition.reward.repeatable then .created else .completed) :
      Lives ix quest (.ok a) [.reward] (some r) (some r')
  | forfeits {h : Hunt} {r r' : Record} (served : ix.get? quest = some h) (started : r.phase = .started)
      (ended : r'.phase = if h.definition.reward.repeatable then .created else .completed) :
      Lives ix quest (.error .balance) [] (some r) (some r')

/-- The quest is over, paid or not, and the record is not started any more. -/
theorem Lives.completed {ix : Index} {quest : QuestId} {answer : Except Fault Answer} {marks : List Mark}
    {o o' : Option Record} {h : Hunt} (hv : Lives ix quest answer marks o o')
    (hm : .reward ∈ marks ∨ o.any Record.isStarted = true ∧ o'.any Record.isStarted = false)
    (hg : ix.get? quest = some h) (hn : h.definition.reward.repeatable = false) :
    ∃ r, o' = some r ∧ r.phase = .completed := by
  cases hv with
  | drifts hd =>
    obtain hm | ⟨hs, he⟩ := hm
    · cases hm
    · rw [hd.isStarted, hs] at he
      cases he
  | accepts created started =>
    obtain hm | ⟨-, he⟩ := hm
    · cases List.mem_singleton.1 hm
    · simp [Record.isStarted, started] at he
  | pays served started ended | forfeits served started ended =>
    obtain rfl := Option.some.inj (served.symm.trans hg)
    rw [hn] at ended
    exact ⟨_, rfl, ended⟩

namespace Hunt.Decides

variable {h : Hunt} {player : PlayerId} {now : Instant} {r r' : Record} {es : List Effect}

theorem lives {ix : Index} {quest : QuestId} (hd : h.Decides player now r es r') (served : ix.get? quest = some h)
    (a : Answer) : Lives ix quest (.ok a) (es.filterMap Effect.mark?) (some r) (some r') := by
  cases hd with
  | idle => exact .drifts (.still _)
  | accepts created => exact .accepts created rfl
  | pays started =>
    have hm : (if r.holdings.isEmpty then []
        else [Effect.itemsRemoved player h.definition.id r.holdings]).filterMap Effect.mark? = [] := by
      split <;> rfl
    rw [List.cons_append, List.filterMap_cons_some (f := Effect.mark?) rfl, List.filterMap_append, hm]
    exact .pays served started (Record.phase_exit ..)

theorem not_given (hd : h.Decides player now r es r') {player' : PlayerId} {quest : QuestId} {item : ItemId}
    {count : UInt32} : .itemGiven player' quest item count ∉ es := by
  cases hd with
  | idle => nofun
  | accepts => simp
  | pays =>
    intro he
    simp only [List.cons_append, List.mem_cons, List.mem_append, List.not_mem_nil, or_false, reduceCtorEq,
      false_or] at he
    split at he
    · cases he
    · cases List.mem_singleton.1 he

end Hunt.Decides

namespace Index

variable {ix : Index} {npc : NpcId} {now : Instant} {c : Command} {s s' : Sessions} {fault : Fault} {es : List Effect}
  {player : PlayerId} {quest : QuestId}

theorem Overfills.drifts (h : ix.Overfills npc s s') (player : PlayerId) (quest : QuestId) :
    Drifts (s.record? player quest) (s'.record? player quest) := by
  obtain ⟨-, -, started, -, breaks⟩ := h
  rw [breaks.record? player quest]
  split
  · next he =>
    obtain ⟨rfl, rfl⟩ := he
    rw [breaks.before]
    exact .gains started ((Record.phase_give ..).trans started)
  · exact .still _

namespace Lapses

theorem lives (h : ix.Lapses now c s fault es s') (player : PlayerId) (quest : QuestId) :
    Lives ix quest (.error fault) [] (s.record? player quest) (s'.record? player quest) := by
  cases h with
  | choice chosen served decides breaks =>
    rw [breaks.record?]
    split
    · next he =>
      obtain ⟨rfl, rfl⟩ := he
      obtain ⟨started, rfl⟩ := decides.pays_of_breaks breaks
      rw [breaks.before]
      exact .forfeits served started (Record.phase_exit ..)
    · exact .drifts (.still _)
  | kill kills chain overfills =>
    have hd := (chain.mono fun _ _ _ hg => Deed.grant hg).drifts player quest
    exact .drifts (hd.trans (overfills.drifts player quest))
  | unnumbered forms left =>
    rw [(Sessions.regroups_of_unnumbered left).2.record?]
    exact .drifts (.still _)

theorem not_given_of_completed (h : ix.Lapses now c s fault es s') {r : Record} (hr : s.record? player quest = some r)
    (hp : r.phase = .completed) (item : ItemId) (count : UInt32) : .itemGiven player quest item count ∉ es := by
  cases h with
  | choice chosen served decides breaks => exact fun he => decides.not_given (List.mem_append_left _ he)
  | kill kills chain overfills =>
    exact (chain.mono fun _ _ _ hg => Deed.grant hg).not_given_of_completed hr hp item count
  | unnumbered => nofun

end Lapses

end Index

namespace Turn

variable {t : Turn} {player : PlayerId} {quest : QuestId}

theorem marks_eq_nil (h : ∀ e ∈ t.effects, e.mark? = none) (player : PlayerId) (quest : QuestId) :
    t.marks player quest = [] := by
  unfold marks
  split
  · split
    · exact List.filterMap_eq_nil_iff.2 h
    · rfl
  · rfl

theorem lives_of_ok {a : Answer} (h : t.Performed) (ha : t.answer = .ok a) (hl : t.command ≠ .leave player)
    (quest : QuestId) : Lives t.before.registry.index quest (.ok a) (t.marks player quest)
      (t.before.sessions.record? player quest) (t.after.sessions.record? player quest) := by
  have heffects := effects_of_ok ha
  rcases World.perform_cases (h.of_ok ha) with ⟨player', level, -, rfl, hw⟩ | ⟨player', s, hc, hs, rfl, hw⟩ |
    ⟨player', quest', token, hc, hd⟩ | ⟨-, -, hd⟩
  · rw [marks_eq_nil (by rw [heffects]; nofun), hw, Sessions.record?_join]
    exact .drifts (.still _)
  · have hne : player' ≠ player := fun he => hl (he ▸ hc)
    rw [marks_eq_nil (by rw [heffects]; nofun), hw, ← hs.record?]
    unfold Sessions.record?
    rw [Table.get?_erase, if_neg hne]
    exact .drifts (.still _)
  · obtain ⟨served, decides, advance⟩ := hd
    unfold marks
    rw [hc, advance.record?, heffects]
    simp only
    split
    · next he =>
      obtain ⟨rfl, rfl⟩ := he
      rw [advance.before]
      exact decides.lives served a
    · exact .drifts (.still _)
  · rw [marks_eq_nil (heffects ▸ hd.unmarked)]
    exact .drifts (hd.drifts player quest)

theorem lives (h : t.Performed) (hl : t.command ≠ .leave player) (quest : QuestId) :
    Lives t.before.registry.index quest t.answer (t.marks player quest) (t.before.sessions.record? player quest)
      (t.after.sessions.record? player quest) := by
  cases ha : t.answer with
  | ok a => exact lives_of_ok h ha hl quest
  | error fault =>
    rw [marks_eq_nil (by rw [effects_of_error ha]; nofun)]
    exact (lapses h ha).2.lives player quest

theorem not_given_of_completed (h : t.Performed) {r : Record}
    (hr : t.before.sessions.record? player quest = some r) (hp : r.phase = .completed) (item : ItemId)
    (count : UInt32) : .itemGiven player quest item count ∉ t.applied := by
  cases ha : t.answer with
  | ok a =>
    rw [applied_of_ok h ha]
    rcases World.perform_cases (h.of_ok ha) with ⟨_, _, -, rfl, -⟩ | ⟨_, _, -, -, rfl, -⟩ | ⟨_, _, _, -, hd⟩ |
      ⟨-, -, hd⟩
    · nofun
    · nofun
    · obtain ⟨-, decides, -⟩ := hd
      exact decides.not_given
    · exact hd.not_given_of_completed hr hp item count
  | error fault => exact (lapses h ha).2.not_given_of_completed hr hp item count

end Turn

namespace Turn

/-- The turn takes the record of a quest from its first phase to the second. -/
def Starts (t : Turn) (player : PlayerId) (quest : QuestId) : Prop :=
  ∃ r r', t.before.sessions.record? player quest = some r ∧ r.phase = .created ∧
    t.after.sessions.record? player quest = some r' ∧ r'.phase = .started

variable {t : Turn} {player : PlayerId} {quest : QuestId}

theorem accept_mem_marks_iff (h : t.Performed) (hl : t.command ≠ .leave player) :
    Mark.accept ∈ t.marks player quest ↔ t.Starts player quest := by
  have hv := t.lives h hl quest
  unfold Starts
  generalize t.answer = answer, t.marks player quest = marks, t.before.sessions.record? player quest = o,
    t.after.sessions.record? player quest = o' at hv
  cases hv with
  | drifts hd =>
    refine ⟨fun hm => absurd hm List.not_mem_nil, ?_⟩
    rintro ⟨r, r', rfl, hc, rfl, hs⟩
    rw [hd.started hs] at hc
    cases hc
  | accepts created started =>
    exact ⟨fun _ => ⟨_, _, rfl, created, rfl, started⟩, fun _ => List.mem_singleton_self _⟩
  | pays served started ended | forfeits served started ended =>
    refine ⟨fun hm => by simp at hm, ?_⟩
    rintro ⟨_, _, he, hc, -, -⟩
    rw [← Option.some.inj he, started] at hc
    cases hc

end Turn

namespace Play

variable {start w : World} {turns : List Turn} {player : PlayerId} {quest : QuestId}

end Play

end Questline
