import Questline.Proofs.Lapse

/-!
# Plays

A play is any sequence of commands that a world carries out, with what was answered at each turn. A fault breaks off a
turn, not the play, which goes on from what the turn has left behind. `World.perform_cases` says once what a turn can do
that is not broken off: a player joins or leaves, a choice is decided, or there is a chain of deeds; and what it reports
is what it applied.
-/

namespace Questline

def Answer.effects : Answer → List Effect
  | .outcome (some o) => o.effects
  | .outcomes os => os.flatMap (·.2.effects)
  | _ => []

/-- What happens to the sessions besides choices, joining and leaving. -/
inductive Deed (ix : Index) (s : Sessions) : List Effect → Sessions → Prop where
  | regroup {s' : Sessions} (h : s.Regroups s') : Deed ix s [] s'
  | meet {npc : NpcId} {player : PlayerId} {es : List Effect} {s' : Sessions} (h : ix.Meets npc player s es s') :
      Deed ix s es s'
  | grant {npc : NpcId} {killer : PlayerId} {es : List Effect} {s' : Sessions} (h : ix.Grants npc killer s es s') :
      Deed ix s es s'

/-- Deeds give items, and sound when they do. -/
theorem Deed.effect_cases {ix : Index} {s s' : Sessions} {es : List Effect} (h : Deed ix s es s') :
    ∀ e ∈ es, (∃ player quest item count, e = .itemGiven player quest item count) ∨
      ∃ player, e = .playSound player .itemGet := by
  intro e he
  cases h with
  | regroup => cases he
  | meet hm =>
    cases hm
    cases he
  | grant hg =>
    cases hg
    simp only [List.mem_cons, List.not_mem_nil, or_false] at he
    rcases he with rfl | rfl
    · exact .inl ⟨_, _, _, _, rfl⟩
    · exact .inr ⟨_, rfl⟩

theorem Deed.log {ix : Index} {s s' : Sessions} {es : List Effect} (h : Deed ix s es s') : s'.log = s.log ++ es := by
  cases h with
  | regroup hr => rw [hr.log, List.append_nil]
  | meet hm =>
    cases hm
    exact (List.append_nil _).symm
  | grant hg =>
    cases hg with
    | intro served drops entitled started misses grants advance => exact advance.log

theorem Chain.log {ix : Index} {s s' : Sessions} {es : List Effect} (h : Chain (Deed ix) s es s') :
    s'.log = s.log ++ es := by
  induction h with
  | nil => exact (List.append_nil _).symm
  | cons hd _ ih => rw [ih, hd.log, List.append_assoc]

/-- A command and its answer, or the fault that broke it off, with the worlds before and after. -/
structure Turn where
  before : World
  now : Instant
  command : Command
  answer : Except Fault Answer
  after : World

namespace Turn

/-- The world carries the command out, with that answer, or up to that fault. -/
def Performed (t : Turn) : Prop :=
  match t.answer with
  | .ok a => t.before.perform t.now t.command = .ok (a, t.after)
  | .error fault => t.before.perform t.now t.command = .error (fault, t.after)

theorem Performed.of_ok {t : Turn} {a : Answer} (h : t.Performed) (ha : t.answer = .ok a) :
    t.before.perform t.now t.command = .ok (a, t.after) := by
  unfold Performed at h
  rwa [ha] at h

theorem Performed.of_error {t : Turn} {fault : Fault} (h : t.Performed) (ha : t.answer = .error fault) :
    t.before.perform t.now t.command = .error (fault, t.after) := by
  unfold Performed at h
  rwa [ha] at h

/-- What is reported. A turn that is broken off reports nothing. -/
def effects (t : Turn) : List Effect :=
  match t.answer with
  | .ok a => a.effects
  | .error _ => []

theorem effects_of_ok {t : Turn} {a : Answer} (ha : t.answer = .ok a) : t.effects = a.effects := by
  unfold effects
  rw [ha]

theorem effects_of_error {t : Turn} {fault : Fault} (ha : t.answer = .error fault) : t.effects = [] := by
  unfold effects
  rw [ha]

/-- What the log of effects gained. -/
def applied (t : Turn) : List Effect := t.after.sessions.log.drop t.before.sessions.log.length

/-- The player joins as a new player, not only with another level. -/
def admits (t : Turn) (player : PlayerId) : Bool :=
  match t.command with
  | .join player' _ => decide (player' = player) && !t.before.sessions.players.contains player
  | _ => false

end Turn

/-- The worlds to which a first one leads, each with the turns that were taken, newest first. -/
inductive Play (start : World) : List Turn → World → Prop where
  | nil : Play start [] start
  | turn {turns : List Turn} {t : Turn} : Play start turns t.before → t.Performed → Play start (t :: turns) t.after

namespace Play

variable {start w : World} {turns later earlier : List Turn} {t : Turn}

theorem performed (h : Play start turns w) : ∀ t ∈ turns, t.Performed := by
  induction h with
  | nil =>
    intro t ht
    cases ht
  | turn _ hp ih =>
    intro t ht
    rcases List.mem_cons.1 ht with rfl | ht
    · exact hp
    · exact ih t ht

/-- Carries out commands one after another, from a world to which some turns have led. -/
def carryOut (turns : List Turn) (w : World) : List (Instant × Command) → List Turn × World
  | [] => (turns, w)
  | (now, c) :: rest =>
    match w.perform now c with
    | .ok (a, w') => carryOut (⟨w, now, c, .ok a, w'⟩ :: turns) w' rest
    | .error (fault, w') => carryOut (⟨w, now, c, .error fault, w'⟩ :: turns) w' rest

theorem of_carryOut {turns' : List Turn} {w' : World} {cs : List (Instant × Command)} (h : Play start turns w)
    (hc : carryOut turns w cs = (turns', w')) : Play start turns' w' := by
  induction cs generalizing turns w with
  | nil =>
    cases hc
    exact h
  | cons c rest ih =>
    unfold carryOut at hc
    split at hc
    · next a w₁ hp => exact ih (.turn (t := ⟨w, c.1, c.2, .ok a, w₁⟩) h hp) hc
    · next fault w₁ hp => exact ih (.turn (t := ⟨w, c.1, c.2, .error fault, w₁⟩) h hp) hc

theorem commands_of_carryOut {turns' : List Turn} {w' : World} {cs : List (Instant × Command)}
    (hc : carryOut turns w cs = (turns', w')) :
    turns'.map (·.command) = (cs.map (·.2)).reverse ++ turns.map (·.command) := by
  induction cs generalizing turns w with
  | nil =>
    cases hc
    rfl
  | cons c rest ih =>
    unfold carryOut at hc
    split at hc <;>
    · rw [ih hc]
      simp

theorem forall_commands_of_carryOut {P : Command → Prop} {w' : World} {cs : List (Instant × Command)}
    (hc : carryOut [] w cs = (turns, w')) (h : ∀ c ∈ cs, P c.2) : ∀ t ∈ turns, P t.command := by
  have hcommands := commands_of_carryOut hc
  rw [List.map_nil, List.append_nil] at hcommands
  rw [← List.forall_mem_map, hcommands]
  intro c hm
  obtain ⟨e, he, rfl⟩ := List.mem_map.1 (List.mem_reverse.1 hm)
  exact h e he

theorem mem_carryOut {turns' : List Turn} {w' : World} {cs : List (Instant × Command)}
    (hc : carryOut turns w cs = (turns', w')) (ht : t ∈ turns) : t ∈ turns' := by
  induction cs generalizing turns w with
  | nil =>
    cases hc
    exact ht
  | cons c rest ih =>
    unfold carryOut at hc
    split at hc <;> exact ih hc (List.mem_cons_of_mem _ ht)

theorem before (h : Play start (later ++ t :: earlier) w) : Play start earlier t.before := by
  induction later generalizing w with
  | nil =>
    cases h with
    | turn hrest _ => exact hrest
  | cons t' rest ih =>
    cases h with
    | turn hrest _ => exact ih hrest

theorem exists_before (h : Play start turns w) (ht : t ∈ turns) :
    ∃ earlier, (∀ t' ∈ earlier, t' ∈ turns) ∧ Play start earlier t.before := by
  obtain ⟨later, earlier, rfl⟩ := List.append_of_mem ht
  exact ⟨earlier, fun t' ht' => List.mem_append_right later (List.mem_cons_of_mem t ht'), h.before⟩

theorem of_forall_after {P : World → Prop} (h : Play start turns w) (hs : P start) (ht : ∀ t ∈ turns, P t.after) :
    P w := by
  cases h with
  | nil => exact hs
  | turn _ _ => exact ht _ List.mem_cons_self

/-- When it is known which turns keep a property, it holds all along a play exactly when all turns keep it. -/
theorem forall_after_iff {P : World → Prop} {Q : Turn → Prop} (h : Play start turns w) (hs : P start)
    (hstep : ∀ earlier t, Play start earlier t.before → t.Performed → P t.before → (P t.after ↔ Q t)) :
    (∀ t ∈ turns, P t.after) ↔ ∀ t ∈ turns, Q t := by
  induction h with
  | nil => simp
  | @turn turns t hplay ht ih =>
    rw [List.forall_mem_cons, List.forall_mem_cons, ← ih]
    exact and_congr_left fun hearlier => hstep turns t hplay ht (hplay.of_forall_after hs hearlier)

/-- A play can be resumed after any of its turns. -/
theorem resume (h : Play start (later ++ t :: earlier) w) : Play t.after later w := by
  induction later generalizing w with
  | nil =>
    cases h
    exact .nil
  | cons t' rest ih =>
    cases h with
    | turn hrest hp => exact .turn (ih hrest) hp

end Play

namespace Index

variable {ix : Index} {s s' : Sessions} {dice dice' : Dice}

theorem talk_deeds (ix : Index) (s : Sessions) (player : PlayerId) (npc : NpcId) :
    Chain (Deed ix) s [] (ix.talk s player npc).2 :=
  (talk_chain ix s player npc).mono fun _ _ _ hm => .meet hm

theorem kill_deeds {npc : NpcId} {killer : PlayerId} {outcomes : List (QuestId × Outcome)}
    (h : ix.kill s killer npc dice = .ok (outcomes, s', dice')) :
    Chain (Deed ix) s (outcomes.flatMap (·.2.effects)) s' :=
  (kill_chain h).mono fun _ _ _ hg => .grant hg

theorem process_cases {event : Event} {now : Instant} {o : Outcome}
    (h : ix.process s event now dice = .ok (o, s', dice')) :
    (∃ player quest token, event = .dialogueChoice player quest token ∧ ix.Chooses now player quest s o.effects s') ∨
      Chain (Deed ix) s o.effects s' := by
  cases event with
  | npcTalk player npc =>
    cases h
    exact .inr (talk_deeds ..)
  | dialogueChoice player quest token =>
    obtain ⟨⟨out, t⟩, hc, he⟩ := Attempt.map_within_eq_ok.1 h
    cases he
    rcases choose_cases hc with ⟨rfl, rfl⟩ | ⟨out, rfl, hd⟩
    · exact .inr (.nil _)
    · exact .inl ⟨player, quest, token, rfl, hd⟩
  | npcKilled player npc =>
    obtain ⟨⟨outcomes, t, dice₁⟩, hk, he⟩ := map_eq_ok.1 h
    cases he
    exact .inr (kill_deeds hk)

end Index

namespace World

variable {w w' : World} {now : Instant} {c : Command} {a : Answer}

/-- A player joins, a player leaves, a choice is decided, or there are deeds. -/
theorem perform_cases (h : w.perform now c = .ok (a, w')) :
    (∃ player level, c = .join player level ∧ a = .done ∧
      w' = { w with sessions := w.sessions.join player level }) ∨
    (∃ player s, c = .leave player ∧ w.sessions.Regroups s ∧ a = .left (s.players.get? player) ∧
      w' = { w with sessions := { s with players := s.players.erase player } }) ∨
    (∃ player quest token, c.choice? = some (player, quest, token) ∧
      w.registry.index.Chooses now player quest w.sessions a.effects w'.sessions) ∨
    (∀ player level, c ≠ .join player level) ∧ (∀ player, c ≠ .leave player) ∧
      Chain (Deed w.registry.index) w.sessions a.effects w'.sessions := by
  cases c with
  | join player level =>
    cases h
    exact .inl ⟨player, level, rfl, rfl, rfl⟩
  | leave player =>
    cases h
    exact .inr (.inl ⟨player, _, rfl, Sessions.regroups_leaveParty w.sessions player, rfl, rfl⟩)
  | formParty players =>
    obtain ⟨⟨s, party⟩, hf, he⟩ := Attempt.map_within_eq_ok.1 h
    cases he
    exact .inr (.inr (.inr ⟨nofun, nofun, .single (.regroup (Sessions.regroups_formParty hf))⟩))
  | leaveParty player =>
    cases h
    have hl := Sessions.regroups_leaveParty w.sessions player
    exact .inr (.inr (.inr ⟨nofun, nofun, .single (.regroup hl)⟩))
  | talk player npc =>
    cases h
    exact .inr (.inr (.inr ⟨nofun, nofun, Index.talk_deeds ..⟩))
  | choose player quest token =>
    obtain ⟨⟨o, s⟩, hc, he⟩ := Attempt.map_within_eq_ok.1 h
    cases he
    rcases Index.choose_cases hc with ⟨rfl, rfl⟩ | ⟨out, rfl, hd⟩
    · exact .inr (.inr (.inr ⟨nofun, nofun, .nil _⟩))
    · exact .inr (.inr (.inl ⟨player, quest, token, rfl, hd⟩))
  | kill killer npc =>
    obtain ⟨⟨outcomes, s, dice⟩, hk, he⟩ := Attempt.map_within_eq_ok.1 h
    cases he
    exact .inr (.inr (.inr ⟨nofun, nofun, Index.kill_deeds hk⟩))
  | process event =>
    obtain ⟨⟨o, s, dice⟩, hp, he⟩ := Attempt.map_within_eq_ok.1 h
    cases he
    rcases Index.process_cases hp with ⟨player, quest, token, rfl, hd⟩ | hd
    · exact .inr (.inr (.inl ⟨player, quest, token, rfl, hd⟩))
    · exact .inr (.inr (.inr ⟨nofun, nofun, hd⟩))
  | register hunt =>
    cases h
    exact .inr (.inr (.inr ⟨nofun, nofun, .nil _⟩))
  | load tree =>
    unfold perform at h
    simp only at h
    split at h <;> cases h <;> exact .inr (.inr (.inr ⟨nofun, nofun, .nil _⟩))

/-- The log gains what is reported. -/
theorem log_perform (h : w.perform now c = .ok (a, w')) : w'.sessions.log = w.sessions.log ++ a.effects := by
  rcases perform_cases h with ⟨_, _, -, ha, hw⟩ | ⟨_, s, -, hr, ha, hw⟩ | ⟨_, _, _, -, hd⟩ | ⟨-, -, hd⟩
  · rw [hw, ha]
    exact (List.append_nil _).symm
  · rw [hw, ha]
    exact hr.log.trans (List.append_nil _).symm
  · exact hd.log
  · exact hd.log

end World

namespace Turn

variable {t : Turn}

theorem applied_of_ok {a : Answer} (h : t.Performed) (ha : t.answer = .ok a) : t.applied = a.effects := by
  unfold applied
  rw [World.log_perform (h.of_ok ha), List.drop_left]

/-- A turn that is broken off leaves the same quests, and applies what comes before the fault. -/
theorem lapses {fault : Fault} (h : t.Performed) (ha : t.answer = .error fault) :
    t.after.registry = t.before.registry ∧
      t.before.registry.index.Lapses t.now t.command t.before.sessions fault t.applied t.after.sessions := by
  obtain ⟨hr, es, hl⟩ := World.lapses_of_perform (h.of_error ha)
  have hes : t.applied = es := by
    unfold applied
    rw [hl.log, List.drop_left]
  exact ⟨hr, hes ▸ hl⟩

end Turn

end Questline
