import Questline.Proofs.Applied

/-!
# Balances that fit

An effect computes balances and checks them before it changes an inventory. `Session.Computes` says which balances, as
whole numbers that know no range. Applying effects fails exactly when one of the balances that they compute on the way
does not fit, and there is no other way to fail.
-/

namespace Questline

namespace Session

/-- The balance is within 64 bits. -/
def Fits (i : Int) : Prop := Int64.minValue.toInt ≤ i ∧ i ≤ Int64.maxValue.toInt

instance (i : Int) : Decidable (Fits i) := inferInstanceAs (Decidable (_ ∧ _))

/-- The balances that an effect computes for a player's inventory: one for an item that is given or paid, and one for
each entry that items are taken from, after those before it were taken. -/
inductive Computes (p : Session) : Effect → Int → Prop where
  | given (player : PlayerId) (quest : QuestId) (item : ItemId) (count : UInt32) :
      Computes p (.itemGiven player quest item count) ((p.held item).toInt + count.toNat)
  | removed {player : PlayerId} {quest : QuestId} {done rest : List (ItemId × UInt32)} {e : ItemId × UInt32}
      {p' : Session} {held : Int64} (hdone : done.foldlM debit p = .ok p') (hheld : p'.inventory.get? e.1 = some held) :
      Computes p (.itemsRemoved player quest (done ++ e :: rest)) (held.toInt - e.2.toNat)
  | paid (player : PlayerId) (item : ItemId) (amount : Int64) :
      Computes p (.reward player item amount) ((p.held item).toInt + amount.toInt)

variable {p p' : Session} {f : Fault}

theorem balance_eq_error_iff {i : Int} : balance i = .error f ↔ f = .balance ∧ ¬ Fits i := by
  unfold balance
  split
  · next h => exact iff_of_false nofun fun hn => hn.2 h
  · next h =>
    rw [Except.error.injEq]
    exact ⟨fun he => ⟨he.symm, h⟩, fun hf => hf.1.symm⟩

theorem credit_eq_error_iff {item : ItemId} {amount : Int} :
    p.credit item amount = .error (f, p') ↔ f = .balance ∧ p' = p ∧ ¬ Fits ((p.held item).toInt + amount) := by
  unfold credit
  rw [map_eq_error_iff, mapError_eq_error]
  simp only [balance_eq_error_iff, Prod.mk.injEq]
  constructor
  · rintro ⟨_, ⟨rfl, hfits⟩, rfl, rfl⟩
    exact ⟨rfl, rfl, hfits⟩
  · rintro ⟨rfl, rfl, hfits⟩
    exact ⟨_, ⟨rfl, hfits⟩, rfl, rfl⟩

theorem debit_eq_error_iff {e : ItemId × UInt32} : p.debit e = .error (f, p') ↔
    f = .balance ∧ p' = p ∧ ∃ held, p.inventory.get? e.1 = some held ∧ ¬ Fits (held.toInt - e.2.toNat) := by
  unfold debit
  cases p.inventory.get? e.1 with
  | none => simp
  | some held =>
    simp only [map_eq_error_iff, mapError_eq_error, balance_eq_error_iff, Prod.mk.injEq, Option.some.injEq,
      exists_eq_left']
    constructor
    · rintro ⟨_, ⟨rfl, hfits⟩, rfl, rfl⟩
      exact ⟨rfl, rfl, hfits⟩
    · rintro ⟨rfl, rfl, hfits⟩
      exact ⟨_, ⟨rfl, hfits⟩, rfl, rfl⟩

theorem receive_eq_error_iff {e : Effect} :
    (∃ p', p.receive e = .error (f, p')) ↔ f = .balance ∧ ∃ i, p.Computes e i ∧ ¬ Fits i := by
  cases e with
  | playSound player sound =>
    refine iff_of_false nofun ?_
    rintro ⟨-, i, hc, -⟩
    cases hc
  | itemGiven | reward =>
    constructor
    · rintro ⟨p', h⟩
      obtain ⟨rfl, -, hfits⟩ := credit_eq_error_iff.1 h
      exact ⟨rfl, _, by constructor, hfits⟩
    · rintro ⟨rfl, i, hc, hfits⟩
      cases hc
      exact ⟨p, credit_eq_error_iff.2 ⟨rfl, rfl, hfits⟩⟩
  | itemsRemoved player quest items =>
    constructor
    · rintro ⟨p', h⟩
      obtain ⟨done, e, rest, p₁, rfl, hdone, he⟩ := foldlM_eq_error_iff.1 h
      obtain ⟨rfl, -, held, hheld, hfits⟩ := debit_eq_error_iff.1 he
      exact ⟨rfl, _, .removed hdone hheld, hfits⟩
    · rintro ⟨rfl, i, hc, hfits⟩
      cases hc with
      | removed hdone hheld =>
        exact ⟨_, foldlM_eq_error_iff.2 ⟨_, _, _, _, rfl, hdone, debit_eq_error_iff.2 ⟨rfl, rfl, _, hheld, hfits⟩⟩⟩

end Session

namespace Sessions

/-- The balances that are computed while effects are applied: those of each effect whose player is present, once the
effects before it have been applied. -/
inductive Computes (s : Sessions) : List Effect → Int → Prop where
  | intro {done rest : List Effect} {e : Effect} {t : Sessions} {p : Session} {i : Int} (hdone : s.applyAll done = .ok t)
      (hp : t.players.get? e.player = some p) (hi : p.Computes e i) : Computes s (done ++ e :: rest) i

variable {s t : Sessions} {es : List Effect} {f : Fault}

theorem apply_eq_error_iff {e : Effect} : (∃ s', s.apply e = .error (f, s')) ↔
    f = .balance ∧ ∃ p i, s.players.get? e.player = some p ∧ p.Computes e i ∧ ¬ Session.Fits i := by
  unfold apply
  cases s.players.get? e.player with
  | none => simp
  | some p =>
    simp only [Attempt.map_within_eq_error, Option.some.injEq, exists_eq_left', exists_and_left]
    rw [← Session.receive_eq_error_iff]
    constructor
    · rintro ⟨_, p', h, -⟩
      exact ⟨p', h⟩
    · rintro ⟨p', h⟩
      exact ⟨_, p', h, rfl⟩

theorem exists_not_fits_iff :
    (∃ i, s.Computes es i ∧ ¬ Session.Fits i) ↔ ¬ ∀ i, s.Computes es i → Session.Fits i := by
  simp only [Classical.not_forall, exists_prop]

/-- To apply effects fails if and only if a balance that is computed does not fit. -/
theorem applyAll_eq_error_iff :
    (∃ s', s.applyAll es = .error (f, s')) ↔ f = .balance ∧ ∃ i, s.Computes es i ∧ ¬ Session.Fits i := by
  constructor
  · rintro ⟨s', h⟩
    obtain ⟨done, e, rest, t, rfl, hdone, he⟩ := foldlM_eq_error_iff.1 h
    obtain ⟨rfl, p, i, hp, hi, hfits⟩ := apply_eq_error_iff.1 ⟨s', he⟩
    exact ⟨rfl, i, .intro hdone hp hi, hfits⟩
  · rintro ⟨rfl, i, hc, hfits⟩
    cases hc with
    | intro hdone hp hi =>
      obtain ⟨s', he⟩ := apply_eq_error_iff.2 ⟨rfl, _, i, hp, hi, hfits⟩
      exact ⟨s', foldlM_eq_error_iff.2 ⟨_, _, _, _, rfl, hdone, he⟩⟩

theorem exists_applyAll_iff : (∃ t, s.applyAll es = .ok t) ↔ ∀ i, s.Computes es i → Session.Fits i := by
  cases h : s.applyAll es with
  | ok t =>
    refine iff_of_true ⟨t, rfl⟩ (Classical.byContradiction fun hnot => ?_)
    obtain ⟨s', he⟩ := applyAll_eq_error_iff.2 ⟨rfl, exists_not_fits_iff.2 hnot⟩
    rw [he] at h
    cases h
  | error e => exact iff_of_false nofun (exists_not_fits_iff.1 (applyAll_eq_error_iff.1 ⟨e.2, h⟩).2)

/-- What answers exactly when effects can be applied succeeds when every balance fits that they compute. -/
theorem exists_ok_iff {ε α β : Type} {x : Except ε (α × β)} {a : α}
    (h : x.toOption.map (·.1) = (s.applyAll es).toOption.map fun _ => a) :
    (∃ b, x = .ok (a, b)) ↔ ∀ i, s.Computes es i → Session.Fits i := by
  rw [← exists_applyAll_iff]
  constructor
  · rintro ⟨b, rfl⟩
    obtain ⟨t, ht, -⟩ := Option.map_eq_some_iff.1 h.symm
    exact ⟨t, toOption_eq_some.1 ht⟩
  · rintro ⟨t, ht⟩
    rw [ht] at h
    obtain ⟨⟨_, b⟩, hb, rfl⟩ := Option.map_eq_some_iff.1 h
    exact ⟨b, toOption_eq_some.1 hb⟩

theorem exists_of_applyAll (h : s.applyAll es = .ok t) {player : PlayerId} {p' : Session}
    (hp' : t.players.get? player = some p') : ∃ p, s.players.get? player = some p := by
  have hsame : (t.players.get? player).isSome = (s.players.get? player).isSome := by
    refine foldlM_unchanged (v := fun s => (s.players.get? player).isSome) (fun s e t h => ?_) h
    rcases get?_players_apply h player with he | ⟨p, _, _, hs, ht⟩
    · rw [he]
    · rw [hs, ht]
      rfl
  rw [hp'] at hsame
  exact Option.isSome_iff_exists.1 hsame.symm

/-- Of the effects, a player who is present receives those that concern the player. -/
theorem get?_players_applyAll {player : PlayerId} {p : Session} (h : s.applyAll es = .ok t)
    (hp : s.players.get? player = some p) :
    ∃ p', (es.filter fun e => decide (e.player = player)).foldlM Session.receive p = .ok p' ∧
      t.players.get? player = some p' := by
  induction es generalizing s p with
  | nil =>
    cases h
    exact ⟨p, rfl, hp⟩
  | cons e rest ih =>
    obtain ⟨s₁, h₁, h₂⟩ := bind_eq_ok.1 ((List.foldlM_cons ..).symm.trans h)
    unfold apply at h₁
    rw [List.filter_cons]
    by_cases he : e.player = player
    · rw [he, hp] at h₁
      obtain ⟨p₁, hr, rfl⟩ := Attempt.map_within_eq_ok.1 h₁
      obtain ⟨p', hp', ht⟩ := ih h₂ (by rw [Table.get?_insert, if_pos rfl])
      refine ⟨p', ?_, ht⟩
      rw [if_pos (decide_eq_true he), List.foldlM_cons, hr]
      exact hp'
    · rw [if_neg (by simpa using he)]
      refine ih h₂ ?_
      cases hq : s.players.get? e.player with
      | none =>
        rw [hq] at h₁
        cases h₁
        exact hp
      | some q =>
        rw [hq] at h₁
        obtain ⟨q', -, rfl⟩ := Attempt.map_within_eq_ok.1 h₁
        rw [Table.get?_insert, if_neg he]
        exact hp

end Sessions

end Questline
