import Questline.Registry.Dispatch

/-!
# What happens to the sessions

Whatever players do comes down to a few deeds: a regrouping of parties, a meeting with the giver of a quest, a
choice in a dialogue, and the grant of a drop. The last two replace one record of one player and apply effects to
that player alone (`Sessions.Advances`). Talks, choices and kills are shown here to be chains of deeds, so a property
of all play is proved deed by deed.
-/

namespace Questline

theorem map_eq_ok {ε α β : Type} {x : Except ε α} {f : α → β} {b : β} :
    x.map f = .ok b ↔ ∃ a, x = .ok a ∧ f a = b := by
  cases x <;> simp [Except.map]

theorem bind_eq_ok {ε α β : Type} {x : Except ε α} {f : α → Except ε β} {b : β} :
    x >>= f = .ok b ↔ ∃ a, x = .ok a ∧ f a = .ok b := by
  cases x <;> simp [bind, Except.bind]

theorem bind_eq_error {ε α β : Type} {x : Except ε α} {f : α → Except ε β} {e : ε} :
    x >>= f = .error e ↔ x = .error e ∨ ∃ a, x = .ok a ∧ f a = .error e := by
  cases x <;> simp [bind, Except.bind]

/-- A sequence of steps fails where one of them fails, after those before it have succeeded. -/
theorem foldlM_eq_error_iff {ε σ β : Type} {f : σ → β → Except ε σ} {l : List β} {s : σ} {e : ε} :
    l.foldlM f s = .error e ↔
      ∃ done b rest t, l = done ++ b :: rest ∧ done.foldlM f s = .ok t ∧ f t b = .error e := by
  constructor
  · intro h
    induction l generalizing s with
    | nil => cases h
    | cons b rest ih =>
      rw [List.foldlM_cons] at h
      obtain hb | ⟨t, hb, h⟩ := bind_eq_error.1 h
      · exact ⟨[], b, rest, s, rfl, rfl, hb⟩
      · obtain ⟨done, b', rest', u, rfl, hdone, hu⟩ := ih h
        exact ⟨b :: done, b', rest', u, rfl, by rw [List.foldlM_cons, hb]; exact hdone, hu⟩
  · rintro ⟨done, b, rest, t, rfl, hdone, hb⟩
    rw [List.foldlM_append]
    exact bind_eq_error.2 (.inr ⟨t, hdone, bind_eq_error.2 (.inl hb)⟩)

theorem map_eq_error_iff {ε α β : Type} {x : Except ε α} {f : α → β} {e : ε} : x.map f = .error e ↔ x = .error e := by
  cases x <;> simp [Except.map]

theorem mapError_eq_ok {ε ε' α : Type} {x : Except ε α} {f : ε → ε'} {a : α} : x.mapError f = .ok a ↔ x = .ok a := by
  cases x with
  | error => exact iff_of_false nofun nofun
  | ok b =>
    change Except.ok b = Except.ok a ↔ _
    rw [Except.ok.injEq, Except.ok.injEq]

theorem mapError_eq_error {ε ε' α : Type} {x : Except ε α} {f : ε → ε'} {e : ε'} :
    x.mapError f = .error e ↔ ∃ e', x = .error e' ∧ f e' = e := by
  cases x with
  | error e' =>
    constructor
    · intro h
      cases h
      exact ⟨e', rfl, rfl⟩
    · rintro ⟨_, h, rfl⟩
      cases h
      rfl
  | ok =>
    refine iff_of_false nofun ?_
    rintro ⟨_, h, -⟩
    cases h

theorem Attempt.within_eq_ok {σ τ α : Type} {put : σ → τ} {x : Attempt σ α} {a : α} :
    x.within put = .ok a ↔ x = .ok a :=
  mapError_eq_ok

theorem Attempt.map_within_eq_ok {σ τ α β : Type} {put : σ → τ} {x : Attempt σ α} {f : α → β} {b : β} :
    (x.within put).map f = .ok b ↔ ∃ a, x = .ok a ∧ f a = b := by
  simp only [map_eq_ok, within_eq_ok]

theorem Attempt.map_within_eq_error {σ τ α β : Type} {put : σ → τ} {x : Attempt σ α} {f : α → β} {fault : Fault} {t : τ} :
    (x.within put).map f = .error (fault, t) ↔ ∃ s, x = .error (fault, s) ∧ put s = t := by
  rw [map_eq_error_iff, within, mapError_eq_error]
  constructor
  · rintro ⟨⟨fault', s⟩, hx, he⟩
    cases he
    exact ⟨s, hx, rfl⟩
  · rintro ⟨s, hx, rfl⟩
    exact ⟨(fault, s), hx, rfl⟩

theorem toOption_eq_some {ε α : Type} {x : Except ε α} {a : α} : x.toOption = some a ↔ x = .ok a := by
  cases x <;> simp [Except.toOption]

@[simp] theorem toOption_map {ε α β : Type} (x : Except ε α) (f : α → β) : (x.map f).toOption = x.toOption.map f := by
  cases x <;> rfl

@[simp] theorem toOption_bind {ε α β : Type} (x : Except ε α) (f : α → Except ε β) :
    (x >>= f).toOption = x.toOption.bind fun a => (f a).toOption := by
  cases x <;> rfl

@[simp] theorem toOption_mapError {ε ε' α : Type} (x : Except ε α) (f : ε → ε') :
    (x.mapError f).toOption = x.toOption := by
  cases x <;> rfl

@[simp] theorem Attempt.toOption_within {σ τ α : Type} (put : σ → τ) (x : Attempt σ α) :
    (x.within put).toOption = x.toOption :=
  toOption_mapError x _

theorem exists_ok_of_any {ε α : Type} {x : Except ε α} {p : α → Bool} (h : x.toOption.any p) :
    ∃ a, x = .ok a ∧ p a := by
  cases x with
  | error => cases h
  | ok a => exact ⟨a, rfl, h⟩

namespace Session

theorem credit_eq_ok {p p' : Session} {item : ItemId} {amount : Int} (h : p.credit item amount = .ok p') :
    ∃ sum, balance ((p.held item).toInt + amount) = .ok sum ∧
      p' = { p with inventory := p.inventory.insert item sum } := by
  obtain ⟨sum, hs, rfl⟩ := map_eq_ok.1 h
  exact ⟨sum, mapError_eq_ok.1 hs, rfl⟩

theorem debit_eq_ok {p p' : Session} {e : ItemId × UInt32} (h : p.debit e = .ok p') :
    ∃ inventory, p' = { p with inventory } := by
  unfold debit at h
  split at h
  · cases h
    exact ⟨_, rfl⟩
  · obtain ⟨left, -, rfl⟩ := map_eq_ok.1 h
    exact ⟨_, rfl⟩

theorem foldlM_debit_eq_ok {items : List (ItemId × UInt32)} {p p' : Session} (h : items.foldlM debit p = .ok p') :
    ∃ inventory, p' = { p with inventory } := by
  induction items generalizing p with
  | nil =>
    cases h
    exact ⟨_, rfl⟩
  | cons e rest ih =>
    rw [List.foldlM_cons] at h
    obtain ⟨p₁, h₁, h₂⟩ := bind_eq_ok.1 h
    obtain ⟨i₁, rfl⟩ := debit_eq_ok h₁
    obtain ⟨i₂, rfl⟩ := ih h₂
    exact ⟨i₂, rfl⟩

theorem receive_eq_ok {p p' : Session} {e : Effect} (h : p.receive e = .ok p') :
    ∃ inventory sounds, p' = { p with inventory, sounds } := by
  cases e with
  | playSound player sound =>
    cases h
    exact ⟨_, _, rfl⟩
  | itemGiven player quest item count =>
    obtain ⟨sum, -, rfl⟩ := credit_eq_ok h
    exact ⟨_, _, rfl⟩
  | itemsRemoved player quest items =>
    obtain ⟨inventory, rfl⟩ := foldlM_debit_eq_ok h
    exact ⟨_, _, rfl⟩
  | reward player item amount =>
    obtain ⟨sum, -, rfl⟩ := credit_eq_ok h
    exact ⟨_, _, rfl⟩

theorem foldlM_receive_eq_ok {es : List Effect} {p p' : Session} (h : es.foldlM receive p = .ok p') :
    ∃ inventory sounds, p' = { p with inventory, sounds } := by
  induction es generalizing p with
  | nil =>
    cases h
    exact ⟨_, _, rfl⟩
  | cons e rest ih =>
    rw [List.foldlM_cons] at h
    obtain ⟨p₁, h₁, h₂⟩ := bind_eq_ok.1 h
    obtain ⟨i₁, s₁, rfl⟩ := receive_eq_ok h₁
    obtain ⟨i₂, s₂, rfl⟩ := ih h₂
    exact ⟨i₂, s₂, rfl⟩

/-- The session outside of any party. -/
def alone (p : Session) : Session := { p with party := none }

end Session

namespace Sessions

/-- Effects that all concern one player change that player alone, and all of them are logged. -/
structure Receives (player : PlayerId) (es : List Effect) (s s' : Sessions) : Prop where
  session : ∀ p, s.players.get? player = some p →
    ∃ p', es.foldlM Session.receive p = .ok p' ∧ s'.players.get? player = some p'
  others : ∀ other, other ≠ player → s'.players.get? other = s.players.get? other
  parties : s'.parties = s.parties
  nextParty : s'.nextParty = s.nextParty
  log : s'.log = s.log ++ es

theorem receives_of_applyAll {player : PlayerId} {es : List Effect} {s s' : Sessions}
    (hp : (s.players.get? player).isSome) (he : ∀ e ∈ es, e.player = player) (h : s.applyAll es = .ok s') :
    Receives player es s s' := by
  induction es generalizing s with
  | nil =>
    cases h
    exact ⟨fun p hp => ⟨p, rfl, hp⟩, fun _ _ => rfl, rfl, rfl, (List.append_nil _).symm⟩
  | cons e rest ih =>
    obtain ⟨p, hp⟩ := Option.isSome_iff_exists.1 hp
    have hpe : e.player = player := he e List.mem_cons_self
    unfold applyAll at h
    rw [List.foldlM_cons] at h
    obtain ⟨s₁, h₁, h₂⟩ := bind_eq_ok.1 h
    unfold apply at h₁
    rw [hpe, hp] at h₁
    obtain ⟨p₁, hr, rfl⟩ := map_eq_ok.1 h₁
    rw [Attempt.within_eq_ok] at hr
    have hget : ∀ other, (s.players.insert player p₁).get? other =
        if player = other then some p₁ else s.players.get? other := fun other => Table.get?_insert ..
    have hrest := ih (by rw [hget, if_pos rfl]; rfl) (fun e' he' => he e' (List.mem_cons_of_mem e he')) h₂
    refine ⟨fun q hq => ?_, fun other ho => ?_, hrest.parties, hrest.nextParty, ?_⟩
    · obtain rfl := Option.some.inj (hp.symm.trans hq)
      obtain ⟨p', hf, hp'⟩ := hrest.session p₁ (by rw [hget, if_pos rfl])
      exact ⟨p', by rw [List.foldlM_cons, hr]; exact hf, hp'⟩
    · rw [hrest.others other ho, hget, if_neg fun hc => ho hc.symm]
    · rw [hrest.log, List.append_assoc]
      rfl

theorem Receives.record? {player : PlayerId} {es : List Effect} {s s' : Sessions} (h : Receives player es s s')
    (player' : PlayerId) (quest : QuestId) (hp : (s.players.get? player).isSome) :
    s'.record? player' quest = s.record? player' quest := by
  unfold Sessions.record?
  by_cases he : player' = player
  · subst he
    obtain ⟨p, hp⟩ := Option.isSome_iff_exists.1 hp
    obtain ⟨p', hf, hp'⟩ := h.session p hp
    obtain ⟨inventory, sounds, rfl⟩ := Session.foldlM_receive_eq_ok hf
    rw [hp, hp']
    rfl
  · rw [h.others player' he]

/-- One player's record of a quest gives way to another, and effects on that player are applied. -/
structure Advances (player : PlayerId) (quest : QuestId) (r r' : Record) (es : List Effect)
    (s s' : Sessions) : Prop where
  before : s.record? player quest = some r
  concerns : ∀ e ∈ es, e.player = player
  applied : (s.modifyRecord player quest fun _ => r').applyAll es = .ok s'

namespace Advances

variable {player : PlayerId} {quest : QuestId} {r r' : Record} {es : List Effect} {s s' : Sessions}

theorem receives (h : Advances player quest r r' es s s') :
    Receives player es (s.modifyRecord player quest fun _ => r') s' := by
  refine receives_of_applyAll ?_ h.concerns h.applied
  obtain ⟨p, hp, -⟩ := Option.bind_eq_some_iff.1 h.before
  unfold modifyRecord
  rw [get?_modifyPlayer, if_pos rfl, hp]
  rfl

theorem log (h : Advances player quest r r' es s s') : s'.log = s.log ++ es := h.receives.log

theorem others (h : Advances player quest r r' es s s') {other : PlayerId} (ho : other ≠ player) :
    s'.players.get? other = s.players.get? other := by
  rw [h.receives.others other ho]
  unfold modifyRecord
  rw [get?_modifyPlayer, if_neg fun hc => ho hc.symm]

/-- The player's own session: the record is replaced in the journal, then the effects are received. -/
theorem session (h : Advances player quest r r' es s s') :
    ∃ p p', s.players.get? player = some p ∧ p.journal.get? quest = some r ∧
      es.foldlM Session.receive { p with journal := p.journal.modify quest fun _ => r' } = .ok p' ∧
      s'.players.get? player = some p' := by
  obtain ⟨p, hp, hr⟩ := Option.bind_eq_some_iff.1 h.before
  have hm : (s.modifyRecord player quest fun _ => r').players.get? player =
      some { p with journal := p.journal.modify quest fun _ => r' } := by
    unfold modifyRecord
    rw [get?_modifyPlayer, if_pos rfl, hp]
    rfl
  obtain ⟨p', hf, hp'⟩ := h.receives.session _ hm
  exact ⟨p, p', hp, hr, hf, hp'⟩

theorem record? (h : Advances player quest r r' es s s') (player' : PlayerId) (quest' : QuestId) :
    s'.record? player' quest' =
      if player = player' ∧ quest = quest' then some r' else s.record? player' quest' := by
  obtain ⟨p, -, hp, -⟩ := h.session
  have hm : ((s.modifyRecord player quest fun _ => r').players.get? player).isSome := by
    unfold modifyRecord
    rw [get?_modifyPlayer, if_pos rfl, hp]
    rfl
  rw [h.receives.record? player' quest' hm, record?_modifyRecord]
  split
  · next he => rw [← he.1, ← he.2, h.before]; rfl
  · rfl

end Advances

/-- The same players with the same levels, journals, inventories and sounds; only their parties may differ. -/
structure Regroups (s s' : Sessions) : Prop where
  alone : ∀ player, (s'.players.get? player).map Session.alone = (s.players.get? player).map Session.alone
  log : s'.log = s.log

namespace Regroups

theorem refl (s : Sessions) : Regroups s s := ⟨fun _ => rfl, rfl⟩

theorem trans {s₁ s₂ s₃ : Sessions} (h : Regroups s₁ s₂) (h' : Regroups s₂ s₃) : Regroups s₁ s₃ :=
  ⟨fun player => (h'.alone player).trans (h.alone player), h'.log.trans h.log⟩

theorem record? {s s' : Sessions} (h : Regroups s s') (player : PlayerId) (quest : QuestId) :
    s'.record? player quest = s.record? player quest := by
  have hr : ∀ t : Sessions, t.record? player quest =
      ((t.players.get? player).map Session.alone).bind (·.journal.get? quest) := fun t => by
    unfold Sessions.record?
    cases t.players.get? player <;> rfl
  rw [hr, hr, h.alone]

theorem get?_players {s s' : Sessions} (h : Regroups s s') {player : PlayerId} {p' : Session}
    (hp' : s'.players.get? player = some p') : ∃ p, s.players.get? player = some p ∧ p'.alone = p.alone := by
  have ha := h.alone player
  rw [hp'] at ha
  obtain ⟨p, hp, he⟩ := Option.map_eq_some_iff.1 ha.symm
  exact ⟨p, hp, he.symm⟩

end Regroups

theorem regroups_modifyPlayer (s : Sessions) (player : PlayerId) (party : Option PartyId) :
    Regroups s (s.modifyPlayer player fun p => { p with party }) := by
  refine ⟨fun player' => ?_, rfl⟩
  rw [get?_modifyPlayer]
  split
  · rw [Option.map_map]
    rfl
  · rfl

theorem regroups_clearParty (s : Sessions) (player : PlayerId) : Regroups s (s.clearParty player) :=
  regroups_modifyPlayer s player none

theorem regroups_enterParty (party : PartyId) (s : Sessions) (player : PlayerId) :
    Regroups s (enterParty party s player) :=
  regroups_modifyPlayer s player (some party)

theorem regroups_foldl {f : Sessions → PlayerId → Sessions} (hf : ∀ s player, Regroups s (f s player))
    (players : List PlayerId) (s : Sessions) : Regroups s (players.foldl f s) := by
  induction players generalizing s with
  | nil => exact .refl s
  | cons a rest ih => exact (hf s a).trans (ih (f s a))

theorem regroups_leaveParty (s : Sessions) (player : PlayerId) : Regroups s (s.leaveParty player) := by
  unfold leaveParty
  cases (s.players.get? player).bind (·.party) with
  | none => exact .refl s
  | some party =>
    have hc := regroups_clearParty s player
    simp only
    cases (s.clearParty player).parties.get? party with
    | none => exact hc
    | some members =>
      simp only
      split
      · have hd := regroups_foldl regroups_clearParty (members.filter (· != player)) (s.clearParty player)
        exact ⟨(hc.trans hd).alone, (hc.trans hd).log⟩
      · exact ⟨hc.alone, hc.log⟩

theorem regroups_formParty {s s' : Sessions} {names : List PlayerId} {party : Option PartyId}
    (h : s.formParty names = .ok (s', party)) : Regroups s s' := by
  unfold formParty at h
  simp only at h
  split at h
  · cases h
    exact .refl s
  · split at h
    · cases h
      have hl := regroups_foldl regroups_leaveParty (names.filter fun n => s.players.contains n) s
      have he := regroups_foldl
        (regroups_enterParty ((names.filter fun n => s.players.contains n).foldl leaveParty s).nextParty)
        (names.filter fun n => s.players.contains n)
        { (names.filter fun n => s.players.contains n).foldl leaveParty s with
          nextParty := ⟨((names.filter fun n => s.players.contains n).foldl leaveParty s).nextParty.number + 1⟩ }
      exact ⟨fun player => (he.alone player).trans (hl.alone player), he.log.trans hl.log⟩
    · cases h

end Sessions

/-- Finitely many changes in a row, with their effects in order. -/
inductive Chain (R : Sessions → List Effect → Sessions → Prop) : Sessions → List Effect → Sessions → Prop where
  | nil (s : Sessions) : Chain R s [] s
  | cons {s t u : Sessions} {es fs : List Effect} : R s es t → Chain R t fs u → Chain R s (es ++ fs) u

namespace Chain

variable {R R' : Sessions → List Effect → Sessions → Prop} {s t : Sessions} {es : List Effect}

theorem single (h : R s es t) : Chain R s es t := by
  have hc := Chain.cons h (.nil t)
  rwa [List.append_nil] at hc

theorem append {u : Sessions} {fs : List Effect} (h : Chain R s es t) (h' : Chain R t fs u) :
    Chain R s (es ++ fs) u := by
  induction h with
  | nil s => exact h'
  | cons hs _ ih =>
    rw [List.append_assoc]
    exact .cons hs (ih h')

theorem mono (hR : ∀ s es t, R s es t → R' s es t) (h : Chain R s es t) : Chain R' s es t := by
  induction h with
  | nil s => exact .nil s
  | cons hs _ ih => exact .cons (hR _ _ _ hs) ih

theorem forall_effects {P : Effect → Prop} (hR : ∀ s es t, R s es t → ∀ e ∈ es, P e) (h : Chain R s es t) :
    ∀ e ∈ es, P e := by
  induction h with
  | nil => exact fun e he => absurd he List.not_mem_nil
  | cons hs _ ih =>
    intro e he
    rcases List.mem_append.1 he with he | he
    · exact hR _ _ _ hs e he
    · exact ih e he

end Chain

/-- What a choice does to a record: nothing, or it accepts the quest, or it ends the quest and pays. -/
inductive Hunt.Decides (h : Hunt) (player : PlayerId) (now : Instant) (r : Record) : List Effect → Record → Prop where
  | idle : Decides h player now r [] r
  | accepts (created : r.phase = .created) :
      Decides h player now r [.playSound player .questAccept] (r.start collecting now)
  | pays (started : r.phase = .started) :
      Decides h player now r
        (.reward player h.definition.reward.currency (h.rates.scale h.definition.reward.amount) ::
          (if r.holdings.isEmpty then [] else [.itemsRemoved player h.definition.id r.holdings]) ++
          [.playSound player .questFinish])
        (r.clearCond.exit h.definition.reward.repeatable now).1

theorem Hunt.decides_choose (h : Hunt) (player : PlayerId) (token : String) (r : Record) (now : Instant) :
    h.Decides player now r (h.choose player token r now).1.effects (h.choose player token r now).2 := by
  unfold choose
  split
  · unfold accept
    split
    · next hp => exact .accepts hp
    · exact .idle
    · exact .idle
  · split
    · unfold turnIn
      split
      · next hp => exact .pays hp
      · exact .idle
      · exact .idle
    · exact .idle

theorem Hunt.Decides.concerns {h : Hunt} {player : PlayerId} {now : Instant} {r r' : Record} {es : List Effect}
    (hd : h.Decides player now r es r') : ∀ e ∈ es, e.player = player := by
  intro e he
  cases hd with
  | idle => cases he
  | accepts =>
    rw [List.mem_singleton.1 he]
    rfl
  | pays =>
    simp only [List.cons_append, List.mem_cons, List.mem_append, List.not_mem_nil, or_false] at he
    rcases he with rfl | he | rfl
    · rfl
    · split at he
      · cases he
      · rw [List.mem_singleton.1 he]
        rfl
    · rfl

namespace Index

open Sessions

variable {ix : Index} {s s' : Sessions}

/-- A player of sufficient level talks to a character that starts a quest, and gets a record of it. -/
inductive Meets (ix : Index) (npc : NpcId) (player : PlayerId) (s : Sessions) : List Effect → Sessions → Prop where
  | intro {h : Hunt} {level : Int32} (served : h ∈ ix.talkHunts npc) (present : s.level? player = some level)
      (unmet : s.record? player h.definition.id = none) (starts : h.definition.isStartNpc npc)
      (ripe : h.definition.levelRequired ≤ level) :
      Meets ix npc player s [] (s.enterRecord player (.fresh h.definition.id h.definition.questItems))

theorem Meets.record? {npc : NpcId} {player : PlayerId} {es : List Effect} (hm : Meets ix npc player s es s')
    (player' : PlayerId) (quest : QuestId) :
    s'.record? player' quest = s.record? player' quest ∨
      s.record? player' quest = none ∧ ∃ h ∈ ix.talkHunts npc, h.definition.id = quest ∧
        s'.record? player' quest = some (.fresh quest h.definition.questItems) := by
  cases hm with
  | @intro h level served present unmet _ _ =>
    rw [record?_enterRecord]
    split
    · next he =>
      obtain ⟨rfl, rfl⟩ := he
      obtain ⟨p, hp, -⟩ := Option.map_eq_some_iff.1 present
      have hn : p.journal.get? h.definition.id = none := by rwa [Sessions.record?, hp] at unmet
      refine .inr ⟨unmet, h, served, rfl, ?_⟩
      rw [hp, Option.map_some]
      exact congrArg (fun o : Option Record => some (o.getD _)) hn
    · exact .inl rfl

theorem level?_enterRecord (s : Sessions) (player player' : PlayerId) (r : Record) :
    (s.enterRecord player r).level? player' = s.level? player' := by
  unfold level? enterRecord
  rw [get?_modifyPlayer]
  split
  · rw [Option.map_map]
    rfl
  · rfl

theorem talkOnce_cases {h : Hunt} {npc : NpcId} {player : PlayerId} {level : Int32} {dialogue : Dialogue}
    (hh : h ∈ ix.talkHunts npc) (hl : s.level? player = some level)
    (ho : talkOnce h npc player level s = some (dialogue, s')) : s' = s ∨ Meets ix npc player s [] s' := by
  unfold talkOnce at ho
  simp only at ho
  cases hr : s.record? player h.definition.id with
  | some r =>
    rw [hr] at ho
    cases ho
    exact .inl rfl
  | none =>
    rw [hr] at ho
    simp only at ho
    split at ho
    · next hstart =>
      split at ho
      · next hripe =>
        cases ho
        exact .inr (.intro hh hl hr hstart hripe)
      · cases ho
        exact .inl rfl
    · cases ho

theorem talkInTurn_chain {npc : NpcId} {player : PlayerId} {level : Int32} {hs : List Hunt}
    (hsub : ∀ h ∈ hs, h ∈ ix.talkHunts npc) (message : Dialogue) (hl : s.level? player = some level) :
    Chain (Meets ix npc player) s [] (talkInTurn npc player level hs message s).2 := by
  induction hs generalizing s message with
  | nil => exact .nil s
  | cons h rest ih =>
    have hrest : ∀ g ∈ rest, g ∈ ix.talkHunts npc := fun g hg => hsub g (List.mem_cons_of_mem h hg)
    rw [talkInTurn]
    cases ho : talkOnce h npc player level s with
    | none => exact ih hrest message hl
    | some answer =>
      obtain ⟨dialogue, t⟩ := answer
      have ht : Chain (Meets ix npc player) s [] t ∧ t.level? player = some level := by
        rcases talkOnce_cases (hsub h List.mem_cons_self) hl ho with rfl | hm
        · exact ⟨.nil t, hl⟩
        · refine ⟨.single hm, ?_⟩
          cases hm
          rw [level?_enterRecord, hl]
      simp only
      split
      · exact ht.1.append (ih hrest _ ht.2)
      · exact ht.1

theorem talk_chain (ix : Index) (s : Sessions) (player : PlayerId) (npc : NpcId) :
    Chain (Meets ix npc player) s [] (ix.talk s player npc).2 := by
  unfold talk
  cases hl : s.level? player with
  | none => exact .nil s
  | some level => exact talkInTurn_chain (fun _ hh => hh) _ hl

/-- A player with a record of a served quest makes a choice, and the quest decides. -/
inductive Chooses (ix : Index) (now : Instant) (player : PlayerId) (quest : QuestId) (s : Sessions) :
    List Effect → Sessions → Prop where
  | intro {h : Hunt} {r r' : Record} {es : List Effect} {s' : Sessions} (served : ix.get? quest = some h)
      (decides : h.Decides player now r es r') (advance : Advances player quest r r' es s s') :
      Chooses ix now player quest s es s'

theorem Chooses.log {now : Instant} {player : PlayerId} {quest : QuestId} {es : List Effect}
    (h : Chooses ix now player quest s es s') : s'.log = s.log ++ es := by
  obtain ⟨-, -, advance⟩ := h
  exact advance.log

theorem choose_cases {player : PlayerId} {quest : QuestId} {token : String} {now : Instant} {o : Option Outcome}
    (h : ix.choose s player quest token now = .ok (o, s')) :
    o = none ∧ s' = s ∨ ∃ out, o = some out ∧ Chooses ix now player quest s out.effects s' := by
  unfold choose at h
  cases hq : ix.get? quest with
  | none =>
    rw [hq] at h
    cases h
    exact .inl ⟨rfl, rfl⟩
  | some g =>
    cases hr : s.record? player quest with
    | none =>
      rw [hq, hr] at h
      cases h
      exact .inl ⟨rfl, rfl⟩
    | some r =>
      rw [hq, hr] at h
      obtain ⟨t, ht, he⟩ := map_eq_ok.1 h
      cases he
      have hd := g.decides_choose player token r now
      exact .inr ⟨_, rfl, .intro hq hd ⟨hr, hd.concerns, ht⟩⟩

theorem pick_eq_some {members : Option (List PlayerId)} {record : PlayerId → Option Record} {killer winner : PlayerId}
    {partyEligible soloEligible : Record → Bool} {dice : Dice}
    (h : (Arbitration.pick members record killer partyEligible soloEligible dice).1 = some winner) :
    (∃ ms, members = some ms ∧ winner ∈ ms ∧ (record winner).any partyEligible) ∨
      members = none ∧ winner = killer ∧ (record winner).any soloEligible := by
  unfold Arbitration.pick at h
  cases members with
  | none =>
    simp only at h
    split at h
    · next ha =>
      obtain rfl := Option.some.inj h
      exact .inr ⟨rfl, rfl, ha⟩
    · cases h
  | some ms =>
    simp only at h
    cases hc : Arbitration.candidates record partyEligible ms with
    | nil =>
      rw [hc] at h
      cases h
    | cons c rest =>
      rw [hc] at h
      have hm : winner ∈ Arbitration.candidates record partyEligible ms := hc ▸ List.mem_of_getElem? h
      obtain ⟨hms, ha⟩ := List.mem_filter.1 hm
      exact .inl ⟨ms, rfl, hms, ha⟩

/-- One player whose quest is started and who misses the drop of a dead character gets some of it: the killer, or
in a party a member who is collecting. -/
inductive Grants (ix : Index) (npc : NpcId) (killer : PlayerId) (s : Sessions) : List Effect → Sessions → Prop where
  | intro {h : Hunt} {drop : Drop} {winner : PlayerId} {r : Record} {s' : Sessions} (served : h ∈ ix.killHunts npc)
      (drops : h.definition.dropFor npc = some drop)
      (entitled : (∃ ms, s.members? killer = some ms ∧ winner ∈ ms ∧ r.cond = some Hunt.collecting) ∨
        s.members? killer = none ∧ winner = killer)
      (started : r.phase = .started) (misses : r.count drop.item < drop.max)
      (grants : (r.give drop.item drop.count drop.max).2 ≠ 0)
      (advance : Advances winner h.definition.id r (r.give drop.item drop.count drop.max).1
        [.itemGiven winner h.definition.id drop.item (r.give drop.item drop.count drop.max).2,
          .playSound winner .itemGet] s s') :
      Grants ix npc killer s [.itemGiven winner h.definition.id drop.item (r.give drop.item drop.count drop.max).2,
        .playSound winner .itemGet] s'

theorem entitled_of_pick {drop : Drop} {quest : QuestId} {killer winner : PlayerId} {r : Record} {dice : Dice}
    (hr : s.record? winner quest = some r)
    (hw : (Arbitration.pick (s.members? killer) (s.record? · quest) killer (Hunt.partyEligible drop)
      (Hunt.soloEligible drop) dice).1 = some winner) :
    ((∃ ms, s.members? killer = some ms ∧ winner ∈ ms ∧ r.cond = some Hunt.collecting) ∨
      s.members? killer = none ∧ winner = killer) ∧ r.phase = .started ∧ r.count drop.item < drop.max := by
  rcases pick_eq_some hw with ⟨ms, hms, hm, he⟩ | ⟨hn, hk, he⟩
  · rw [hr] at he
    simp only [Option.any_some, Hunt.partyEligible, Hunt.misses, Record.isStarted, Bool.and_eq_true,
      decide_eq_true_eq] at he
    exact ⟨.inl ⟨ms, hms, hm, he.1.2⟩, he.1.1, he.2⟩
  · rw [hr] at he
    simp only [Option.any_some, Hunt.soloEligible, Hunt.misses, Record.isStarted, Bool.and_eq_true,
      decide_eq_true_eq] at he
    exact ⟨.inr ⟨hn, hk⟩, he.1, he.2⟩

/-- One hunt decides on its drop: nothing happens, or the record of a player who is entitled to it gains some. -/
theorem kill_cases (h : Hunt) (npc : NpcId) (killer : PlayerId) (s : Sessions) (dice : Dice) :
    ((h.kill npc killer s dice).1 = .nothing ∧ (h.kill npc killer s dice).2.1 = s) ∨
      ∃ drop winner r, h.definition.dropFor npc = some drop ∧ s.record? winner h.definition.id = some r ∧
        (((∃ ms, s.members? killer = some ms ∧ winner ∈ ms ∧ r.cond = some Hunt.collecting) ∨
          s.members? killer = none ∧ winner = killer) ∧ r.phase = .started ∧ r.count drop.item < drop.max) ∧
        (r.give drop.item drop.count drop.max).2 ≠ 0 ∧
        (h.kill npc killer s dice).1 =
          ⟨none, [.itemGiven winner h.definition.id drop.item (r.give drop.item drop.count drop.max).2,
            .playSound winner .itemGet]⟩ ∧
        (h.kill npc killer s dice).2.1 =
          s.modifyRecord winner h.definition.id fun _ => (r.give drop.item drop.count drop.max).1 := by
  unfold Hunt.kill
  cases hd : h.definition.dropFor npc with
  | none => exact .inl ⟨rfl, rfl⟩
  | some drop =>
    simp only
    cases hw : (Arbitration.pick (s.members? killer) (s.record? · h.definition.id) killer (Hunt.partyEligible drop)
      (Hunt.soloEligible drop) dice).1 with
    | none => exact .inl ⟨rfl, rfl⟩
    | some winner =>
      simp only
      cases hr : s.record? winner h.definition.id with
      | none => exact .inl ⟨rfl, rfl⟩
      | some r =>
        simp only
        split
        · exact .inl ⟨rfl, rfl⟩
        · next hg => exact .inr ⟨drop, winner, r, rfl, hr, entitled_of_pick hr hw, hg, rfl, rfl⟩

/-- What one hunt reports is applied. -/
theorem grants_of_kill {h : Hunt} {npc : NpcId} (hh : h ∈ ix.killHunts npc) (killer : PlayerId) (s : Sessions)
    (dice : Dice) :
    ((h.kill npc killer s dice).1 = .nothing ∧ (h.kill npc killer s dice).2.1 = s) ∨
      (h.kill npc killer s dice).1.isNothing = false ∧
        ∀ s', (h.kill npc killer s dice).2.1.applyAll (h.kill npc killer s dice).1.effects = .ok s' →
          Grants ix npc killer s (h.kill npc killer s dice).1.effects s' := by
  rcases kill_cases h npc killer s dice with hnothing | ⟨drop, winner, r, hd, hr, ⟨he, hs, hm⟩, hg, ho, hk⟩
  · exact .inl hnothing
  · rw [ho, hk]
    refine .inr ⟨rfl, fun s' ha => .intro hh hd he hs hm hg ⟨hr, fun e he => ?_, ha⟩⟩
    simp only [List.mem_cons, List.not_mem_nil, or_false] at he
    rcases he with rfl | rfl <;> rfl

theorem killInTurn_chain {npc : NpcId} {killer : PlayerId} {hs : List Hunt} {dice dice' : Dice}
    {outcomes : List (QuestId × Outcome)} (hsub : ∀ h ∈ hs, h ∈ ix.killHunts npc)
    (h : killInTurn npc killer hs s dice = .ok (outcomes, s', dice')) :
    Chain (Grants ix npc killer) s (outcomes.flatMap (·.2.effects)) s' := by
  induction hs generalizing s dice outcomes with
  | nil =>
    cases h
    exact .nil _
  | cons g rest ih =>
    have hrest : ∀ h ∈ rest, h ∈ ix.killHunts npc := fun h hh => hsub h (List.mem_cons_of_mem g hh)
    rw [killInTurn] at h
    simp only at h
    rcases grants_of_kill (hsub g List.mem_cons_self) killer s dice with ⟨ho, hs⟩ | ⟨ho, hg⟩
    · -- a hunt that reports nothing leaves the sessions to the next one as they were
      rw [ho, hs] at h
      exact ih hrest h
    · rw [ho] at h
      obtain ⟨t, ht, h⟩ := bind_eq_ok.1 h
      obtain ⟨⟨outcomes', u, dice₂⟩, hk, h⟩ := bind_eq_ok.1 h
      cases h
      exact .cons (hg t (Attempt.within_eq_ok.1 ht)) (ih hrest hk)

theorem kill_chain {npc : NpcId} {killer : PlayerId} {dice dice' : Dice} {outcomes : List (QuestId × Outcome)}
    (h : ix.kill s killer npc dice = .ok (outcomes, s', dice')) :
    Chain (Grants ix npc killer) s (outcomes.flatMap (·.2.effects)) s' :=
  killInTurn_chain (fun _ hh => hh) h

end Index

end Questline
