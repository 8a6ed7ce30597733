import Questline.Proofs.Membership

/-!
# Effects as they are applied

Effects neither read nor write records and parties. So it does not matter whether a record changes before effects are
applied or afterwards, and effects that all concern one player come down to what that player's session receives.
-/

namespace Questline

/-- What commutes with each step that succeeds commutes with all of them. -/
theorem foldlM_comm {ε σ β : Type} {f : σ → β → Except ε σ} {g : σ → σ}
    (h : ∀ s b, (f (g s) b).toOption = (f s b).toOption.map g) (l : List β) (s : σ) :
    (l.foldlM f (g s)).toOption = (l.foldlM f s).toOption.map g := by
  induction l generalizing s with
  | nil => rfl
  | cons b rest ih =>
    rw [List.foldlM_cons, List.foldlM_cons, toOption_bind, toOption_bind, h]
    cases (f s b).toOption with
    | none => rfl
    | some t => exact ih t

theorem foldlM_unchanged {ε σ β α : Type} {f : σ → β → Except ε σ} {v : σ → α}
    (h : ∀ s b t, f s b = .ok t → v t = v s) {l : List β} {s t : σ} (hl : l.foldlM f s = .ok t) : v t = v s := by
  induction l generalizing s with
  | nil =>
    cases hl
    rfl
  | cons b rest ih =>
    rw [List.foldlM_cons] at hl
    obtain ⟨s₁, h₁, h₂⟩ := bind_eq_ok.1 hl
    exact (ih h₂).trans (h s b s₁ h₁)

namespace Table

variable {κ ν : Type} [Ord κ] [Std.TransOrd κ] [Std.LawfulEqOrd κ] [DecidableEq κ]

theorem insert_eq_self {t : Table κ ν} {k : κ} {v : ν} (h : t.get? k = some v) : t.insert k v = t :=
  ext_get? fun k' => by
    rw [get?_insert]
    split
    · next he => rw [← he, h]
    · rfl

theorem insert_insert (t : Table κ ν) (k : κ) (v v' : ν) : (t.insert k v).insert k v' = t.insert k v' :=
  ext_get? fun k' => by
    simp only [get?_insert]
    split <;> rfl

theorem modify_insert (t : Table κ ν) (k : κ) (v : ν) (f : ν → ν) : (t.insert k v).modify k f = t.insert k (f v) :=
  ext_get? fun k' => by
    simp only [get?_modify, get?_insert]
    split <;> rfl

end Table

namespace Session

def withJournal (f : Journal → Journal) (p : Session) : Session := { p with journal := f p.journal }

theorem credit_withJournal (f : Journal → Journal) (p : Session) (item : ItemId) (amount : Int) :
    ((p.withJournal f).credit item amount).toOption = (p.credit item amount).toOption.map (withJournal f) := by
  have hh : (p.withJournal f).held item = p.held item := rfl
  unfold credit
  rw [hh]
  cases balance ((p.held item).toInt + amount) <;> rfl

theorem debit_withJournal (f : Journal → Journal) (p : Session) (e : ItemId × UInt32) :
    ((p.withJournal f).debit e).toOption = (p.debit e).toOption.map (withJournal f) := by
  have hi : (p.withJournal f).inventory = p.inventory := rfl
  unfold debit
  rw [hi]
  cases p.inventory.get? e.1 with
  | none => rfl
  | some held =>
    simp only
    cases balance (held.toInt - e.2.toNat) <;> rfl

theorem receive_withJournal (f : Journal → Journal) (p : Session) (e : Effect) :
    ((p.withJournal f).receive e).toOption = (p.receive e).toOption.map (withJournal f) := by
  cases e with
  | playSound => rfl
  | itemGiven => exact credit_withJournal ..
  | itemsRemoved player quest items => exact foldlM_comm (debit_withJournal f) items p
  | reward => exact credit_withJournal ..

end Session

namespace Sessions

variable {s t : Sessions} {es : List Effect}

theorem apply_modifyPlayer {g : Session → Session}
    (hg : ∀ p e, ((g p).receive e).toOption = (p.receive e).toOption.map g) (player : PlayerId) (s : Sessions)
    (e : Effect) :
    ((s.modifyPlayer player g).apply e).toOption = (s.apply e).toOption.map (·.modifyPlayer player g) := by
  unfold apply
  rw [get?_modifyPlayer]
  cases hp : s.players.get? e.player with
  | none => simp [Except.toOption]
  | some p =>
    have hins : ∀ p', (s.players.modify player g).insert e.player (if player = e.player then g p' else p') =
        (s.players.insert e.player p').modify player g := fun p' => by
      refine Table.ext_get? fun other => ?_
      simp only [Table.get?_insert, Table.get?_modify]
      by_cases he : e.player = other
      · subst he
        by_cases ho : player = e.player <;> simp [ho]
      · simp only [if_neg he]
    by_cases he : player = e.player
    · simp only [if_pos he, Option.map_some] at hins ⊢
      simp only [toOption_map, Attempt.toOption_within, hg, Option.map_map]
      refine congrArg (Option.map · _) (funext fun p' => ?_)
      simp only [Function.comp_apply, modifyPlayer, hins]
    · simp only [if_neg he] at hins ⊢
      simp only [toOption_map, Attempt.toOption_within, Option.map_map]
      refine congrArg (Option.map · _) (funext fun p' => ?_)
      simp only [Function.comp_apply, modifyPlayer, hins]

/-- A record may as well change after the effects are applied. -/
theorem applyAll_modifyRecord (s : Sessions) (player : PlayerId) (quest : QuestId) (f : Record → Record)
    (es : List Effect) :
    ((s.modifyRecord player quest f).applyAll es).toOption = (s.applyAll es).toOption.map (·.modifyRecord player quest f) :=
  foldlM_comm (apply_modifyPlayer (Session.receive_withJournal (·.modify quest f)) player) es s

theorem get?_players_apply {e : Effect} (h : s.apply e = .ok t) (player : PlayerId) :
    t.players.get? player = s.players.get? player ∨
      ∃ p inventory sounds, s.players.get? player = some p ∧ t.players.get? player = some { p with inventory, sounds } := by
  unfold apply at h
  cases hp : s.players.get? e.player with
  | none =>
    rw [hp] at h
    cases h
    exact .inl rfl
  | some p =>
    rw [hp] at h
    obtain ⟨p', hr, rfl⟩ := Attempt.map_within_eq_ok.1 h
    obtain ⟨inventory, sounds, rfl⟩ := Session.receive_eq_ok hr
    simp only [Table.get?_insert]
    split
    · next he => exact .inr ⟨p, inventory, sounds, he ▸ hp, rfl⟩
    · exact .inl rfl

theorem record?_applyAll (h : s.applyAll es = .ok t) (player : PlayerId) (quest : QuestId) :
    t.record? player quest = s.record? player quest := by
  refine foldlM_unchanged (v := (·.record? player quest)) (fun s e t h => ?_) h
  unfold record?
  rcases get?_players_apply h player with he | ⟨p, inventory, sounds, hp, ht⟩
  · rw [he]
  · rw [hp, ht]
    rfl

theorem members?_applyAll (h : s.applyAll es = .ok t) (player : PlayerId) : t.members? player = s.members? player := by
  refine foldlM_unchanged (v := (·.members? player)) (fun s e t h => ?_) h
  have hparties : t.parties = s.parties := by
    unfold apply at h
    cases hp : s.players.get? e.player with
    | none =>
      rw [hp] at h
      cases h
      rfl
    | some p =>
      rw [hp] at h
      obtain ⟨-, -, rfl⟩ := map_eq_ok.1 h
      rfl
  unfold members?
  rw [hparties]
  rcases get?_players_apply h player with he | ⟨p, inventory, sounds, hp, ht⟩
  · rw [he]
  · rw [hp, ht]
    rfl

theorem members?_modifyRecord (s : Sessions) (player player' : PlayerId) (quest : QuestId) (f : Record → Record) :
    (s.modifyRecord player quest f).members? player' = s.members? player' := by
  show ((s.modifyPlayer player _).players.get? player').bind (fun p => p.party.bind s.parties.get?) = _
  rw [get?_modifyPlayer]
  split
  · rw [Option.bind_map]
    rfl
  · rfl

theorem applyAll_append (s : Sessions) (es fs : List Effect) :
    s.applyAll (es ++ fs) = s.applyAll es >>= (·.applyAll fs) := List.foldlM_append

theorem applyAll_own {player : PlayerId} {p : Session} (hp : s.players.get? player = some p)
    (he : ∀ e ∈ es, e.player = player) :
    (s.applyAll es).toOption = (es.foldlM Session.receive p).toOption.map fun p' =>
      { s with players := s.players.insert player p', log := s.log ++ es } := by
  induction es generalizing s p with
  | nil =>
    show some s = some { s with players := s.players.insert player p, log := s.log ++ [] }
    rw [Table.insert_eq_self hp, List.append_nil]
  | cons e rest ih =>
    have hfirst : e.player = player := he e List.mem_cons_self
    show (s.apply e >>= fun t => t.applyAll rest).toOption = _
    unfold apply
    rw [List.foldlM_cons, hfirst, hp]
    simp only [toOption_bind, toOption_map, Attempt.toOption_within]
    cases (p.receive e).toOption with
    | none => rfl
    | some p₁ =>
      have hp₁ : (s.players.insert player p₁).get? player = some p₁ := by rw [Table.get?_insert, if_pos rfl]
      refine (ih hp₁ fun e' he' => he e' (List.mem_cons_of_mem e he')).trans ?_
      simp only [Table.insert_insert, List.append_assoc, List.singleton_append]
      rfl

/-- A player's record gives way to another, and effects that all concern that player are applied. -/
theorem applyAll_modifyRecord_eq_ok {player : PlayerId} {p : Session} (hp : s.players.get? player = some p)
    (he : ∀ e ∈ es, e.player = player) (quest : QuestId) (f : Record → Record) :
    (s.modifyRecord player quest f).applyAll es = .ok t ↔ ∃ p', es.foldlM Session.receive p = .ok p' ∧
      { s with players := s.players.insert player (p'.withJournal (·.modify quest f)), log := s.log ++ es } = t := by
  rw [← toOption_eq_some, applyAll_modifyRecord, applyAll_own hp he, Option.map_map, Option.map_eq_some_iff]
  simp only [toOption_eq_some, Function.comp_apply, modifyRecord, modifyPlayer, Table.modify_insert, Session.withJournal]

end Sessions

end Questline
