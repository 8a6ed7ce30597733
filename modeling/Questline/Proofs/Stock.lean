import Questline.Proofs.Ledger
import Questline.Proofs.Pay

/-!
# Inventories without idle entries

An inventory is stocked when all its entries are positive: nobody owes anything, and what is used up is gone. Taking items
back keeps to that by itself, and so do grants. Pay does not, for amounts are not checked, neither against zero nor against
what the player has. `Play.stocked_iff` says that pay is all that can go wrong, and when. A command that is broken off makes
no difference: what does not fit is not entered, except that pay may leave a debt from which nothing can be taken any more.
-/

namespace Questline

namespace Session

variable {p p' : Session}

def StockedAt (p : Session) (item : ItemId) : Prop := ∀ n, p.inventory.get? item = some n → 0 < n

def Stocked (p : Session) : Prop := ∀ item, p.StockedAt item

theorem stocked_of_inventory_eq (h : p'.inventory = p.inventory) : p'.Stocked ↔ p.Stocked := by
  unfold Stocked StockedAt
  rw [h]

theorem stocked_fresh (level : Int32) : (fresh level).Stocked := nofun

theorem StockedAt.held_nonneg {item : ItemId} (h : p.StockedAt item) : 0 ≤ (p.held item).toInt := by
  unfold held
  cases hn : p.inventory.get? item with
  | none => exact Int.le_refl 0
  | some n =>
    have hpos := Int64.lt_iff_toInt_lt.1 (h n hn)
    rw [Int64.toInt_zero] at hpos
    exact Int.le_of_lt hpos

/-- What is credited has to leave a positive balance. -/
theorem stockedAt_credit_iff {item : ItemId} {amount : Int} (h : p.credit item amount = .ok p') (item' : ItemId) :
    p'.StockedAt item' ↔ if item = item' then 0 < (p.held item).toInt + amount else p.StockedAt item' := by
  obtain ⟨sum, hs, rfl⟩ := credit_eq_ok h
  unfold StockedAt
  simp only [Table.get?_insert]
  split
  · rw [← toInt_of_balance hs, ← Int64.toInt_zero, ← Int64.lt_iff_toInt_lt]
    exact ⟨fun hall => hall sum rfl, fun hpos n hn => Option.some.inj hn ▸ hpos⟩
  · exact Iff.rfl

theorem stockedAt_debit_iff {e : ItemId × UInt32} (h : p.debit e = .ok p') (item : ItemId) :
    p'.StockedAt item ↔ e.1 = item ∨ p.StockedAt item := by
  unfold debit at h
  split at h
  · next hn =>
    cases h
    refine ⟨.inr, fun hs => hs.elim (fun he n hget => ?_) id⟩
    rw [← he, hn] at hget
    cases hget
  · next held hheld =>
    obtain ⟨left, -, rfl⟩ := map_eq_ok.1 h
    unfold StockedAt
    by_cases he : e.1 = item
    · refine iff_of_true (fun n hn => ?_) (.inl he)
      by_cases hz : left ≤ 0
      · simp only [hz, if_true, Table.get?_erase, he] at hn
        cases hn
      · simp only [hz, if_false, Table.get?_insert, he, if_true, Option.some.injEq] at hn
        exact hn ▸ Int64.not_le.1 hz
    · have hget : (if left ≤ 0 then p.inventory.erase e.1 else p.inventory.insert e.1 left).get? item =
          p.inventory.get? item := by
        split
        · rw [Table.get?_erase, if_neg he]
        · rw [Table.get?_insert, if_neg he]
      simp only [hget, he, false_or]

theorem stockedAt_foldlM_debit_iff {items : List (ItemId × UInt32)} (h : items.foldlM debit p = .ok p')
    (item : ItemId) : p'.StockedAt item ↔ item ∈ items.map (·.1) ∨ p.StockedAt item := by
  induction items generalizing p with
  | nil =>
    cases h
    simp
  | cons e rest ih =>
    rw [List.foldlM_cons] at h
    obtain ⟨p₁, h₁, h₂⟩ := bind_eq_ok.1 h
    rw [ih h₂, stockedAt_debit_iff h₁, List.map_cons, List.mem_cons, or_left_comm, or_assoc, eq_comm (a := item)]

/-- From an entry that is positive any number can be taken. -/
theorem not_stockedAt_of_debit {e : ItemId × UInt32} {fault : Fault} (h : p.debit e = .error (fault, p')) :
    ¬ p'.StockedAt e.1 := by
  obtain ⟨-, rfl, held, hheld, hfits⟩ := debit_eq_error_iff.1 h
  intro hs
  have hpos := Int64.lt_iff_toInt_lt.1 (hs held hheld)
  rw [Int64.toInt_zero] at hpos
  have hmin : Int64.minValue.toInt ≤ -4294967296 := by decide
  have hmax := held.toInt_le
  have hcount := e.2.toNat_lt
  exact hfits ⟨by omega, by omega⟩

theorem not_stockedAt_of_foldlM_debit {items : List (ItemId × UInt32)} {fault : Fault}
    (h : items.foldlM debit p = .error (fault, p')) : ∃ item, ¬ p.StockedAt item ∧ ¬ p'.StockedAt item := by
  obtain ⟨done, e, rest, p₁, -, hdone, he⟩ := foldlM_eq_error_iff.1 h
  have hleft := not_stockedAt_of_debit he
  obtain ⟨-, rfl, -⟩ := debit_eq_error_iff.1 he
  exact ⟨e.1, fun hs => hleft ((stockedAt_foldlM_debit_iff hdone e.1).2 (.inr hs)), hleft⟩

end Session

namespace Sessions

/-- When a balance does not fit, it is not entered; only of several items some may be gone. -/
theorem eq_of_apply_error {s s' : Sessions} {e : Effect} {fault : Fault} (h : s.apply e = .error (fault, s'))
    (hne : ∀ player quest items, e ≠ .itemsRemoved player quest items) : s' = s := by
  unfold apply at h
  cases hp : s.players.get? e.player with
  | none =>
    rw [hp] at h
    cases h
  | some p =>
    rw [hp] at h
    obtain ⟨p', hr, rfl⟩ := Attempt.map_within_eq_error.1 h
    have hsame : p' = p := by
      cases e with
      | playSound => cases hr
      | itemGiven | reward => exact (Session.credit_eq_error_iff.1 hr).2.1
      | itemsRemoved => exact absurd rfl (hne _ _ _)
    rw [hsame, Table.insert_eq_self hp]

def Stocked (s : Sessions) : Prop := ∀ player p, s.players.get? player = some p → p.Stocked

theorem stocked_empty : empty.Stocked := nofun

theorem Regroups.stocked {s s' : Sessions} (h : s.Regroups s') (hs : s.Stocked) : s'.Stocked := by
  intro player p' hp'
  obtain ⟨p, hp, he⟩ := h.get?_players hp'
  have hi : p'.inventory = p.inventory := by
    change p'.alone.inventory = p.alone.inventory
    rw [he]
  exact (Session.stocked_of_inventory_eq hi).2 (hs player p hp)

theorem Stocked.erase {s : Sessions} (hs : s.Stocked) (player : PlayerId) :
    Stocked { s with players := s.players.erase player } := by
  intro player' p hp
  rw [Table.get?_erase] at hp
  split at hp
  · cases hp
  · exact hs player' p hp

theorem Stocked.join {s : Sessions} (hs : s.Stocked) (player : PlayerId) (level : Int32) :
    (s.join player level).Stocked := by
  intro player' p' hp'
  unfold Sessions.join at hp'
  rw [Table.get?_insert] at hp'
  split at hp'
  · cases hp'
    cases hp : s.players.get? player with
    | none => exact Session.stocked_fresh level
    | some p => exact hs player p hp
  · exact hs player' p' hp'

theorem Stocked.enterRecord {s : Sessions} (hs : s.Stocked) (player : PlayerId) (r : Record) :
    (s.enterRecord player r).Stocked := by
  intro player' p' hp'
  unfold Sessions.enterRecord at hp'
  rw [get?_modifyPlayer] at hp'
  split at hp'
  · obtain ⟨p, hp, rfl⟩ := Option.map_eq_some_iff.1 hp'
    exact hs player' p hp
  · exact hs player' p' hp'

/-- Only the player who is concerned can be left with a bad entry. -/
theorem Advances.stocked_after_iff {player : PlayerId} {quest : QuestId} {r r' : Record} {es : List Effect} {s s' : Sessions}
    (h : Advances player quest r r' es s s') (hs : s.Stocked) :
    ∃ p p', p.Stocked ∧ (∀ item, s.inventoryCount player item = p.held item) ∧ es.foldlM Session.receive p = .ok p' ∧
      (s'.Stocked ↔ p'.Stocked) := by
  obtain ⟨p, p', hp, -, hf, hp'⟩ := h.session
  refine ⟨{ p with journal := p.journal.modify quest fun _ => r' }, p', hs player p hp,
    fun item => inventoryCount_eq_held hp item, hf, fun hall => hall player p' hp', fun hstocked player' q hq => ?_⟩
  by_cases he : player' = player
  · rw [he, hp'] at hq
    cases hq
    exact hstocked
  · rw [h.others he] at hq
    exact hs player' q hq

end Sessions

theorem Deed.stocked {ix : Index} {s s' : Sessions} {es : List Effect} (h : Deed ix s es s') (hs : s.Stocked) :
    s'.Stocked := by
  cases h with
  | regroup hr => exact hr.stocked hs
  | meet hm =>
    cases hm
    exact hs.enterRecord _ _
  | grant hg =>
    cases hg with
    | @intro h drop winner r _ served drops entitled started misses grants advance =>
      obtain ⟨p, p', hp, -, hf, hiff⟩ := advance.stocked_after_iff hs
      refine hiff.2 fun item => ?_
      obtain ⟨p₁, h₁, h₂⟩ := bind_eq_ok.1 hf
      cases h₂
      refine (Session.stockedAt_credit_iff h₁ item).2 ?_
      have hheld := (hp drop.item).held_nonneg
      have hcount : 0 < (r.give drop.item drop.count drop.max).2.toNat :=
        Nat.pos_of_ne_zero fun hz => grants (UInt32.toNat_inj.1 hz)
      split
      · omega
      · exact hp item

theorem Chain.stocked {ix : Index} {s s' : Sessions} {es : List Effect} (h : Chain (Deed ix) s es s')
    (hs : s.Stocked) : s'.Stocked := by
  induction h with
  | nil => exact hs
  | cons hd _ ih => exact ih (hd.stocked hs)

theorem Index.Overfills.stocked {ix : Index} {npc : NpcId} {s s' : Sessions} (h : ix.Overfills npc s s') (hs : s.Stocked) :
    s'.Stocked := by
  obtain ⟨-, -, -, -, advance, -, stops⟩ := h
  obtain ⟨p, p', hp, -, hf, hiff⟩ := advance.stocked_after_iff hs
  cases hf
  rw [Sessions.eq_of_apply_error stops nofun]
  exact hiff.2 hp

/-- Only choices pay. -/
theorem Chain.unpaid {ix : Index} {s s' : Sessions} {es : List Effect} (h : Chain (Deed ix) s es s') (player : PlayerId)
    (item : ItemId) (amount : Int64) : .reward player item amount ∉ es := by
  intro hm
  rcases h.forall_effects (fun _ _ _ hd => hd.effect_cases) _ hm with ⟨_, _, _, _, he⟩ | ⟨_, he⟩ <;> cases he

/-- A player is paid, some items are taken back or none, and a sound is played. -/
theorem Session.stocked_paid_iff {p p' : Session} {player : PlayerId} {item : ItemId} {amount : Int64}
    {items : List (ItemId × UInt32)} {quest : QuestId} {sound : Sound} (hp : p.Stocked)
    (h : (Effect.reward player item amount :: (if items.isEmpty then [] else [Effect.itemsRemoved player quest items]) ++
      [Effect.playSound player sound]).foldlM receive p = .ok p') :
    p'.Stocked ↔ 0 < (p.held item).toInt + amount.toInt ∨ item ∈ items.map (·.1) := by
  rw [List.cons_append, List.foldlM_cons] at h
  obtain ⟨p₁, h₁, h⟩ := bind_eq_ok.1 h
  have hpaid := stockedAt_credit_iff h₁
  have htaken : ∀ item', p'.StockedAt item' ↔ item' ∈ items.map (·.1) ∨ p₁.StockedAt item' := by
    rw [List.foldlM_append] at h
    obtain ⟨p₂, h₂, h₃⟩ := bind_eq_ok.1 h
    cases h₃
    intro item'
    refine Iff.trans Iff.rfl (b := p₂.StockedAt item') ?_
    split at h₂
    · next he =>
      cases h₂
      rw [List.isEmpty_iff.1 he]
      simp
    · obtain ⟨p₃, h₃, h₄⟩ := bind_eq_ok.1 h₂
      cases h₄
      exact stockedAt_foldlM_debit_iff h₃ item'
  constructor
  · intro hs
    refine ((htaken item).1 (hs item)).symm.imp_left fun hone => ?_
    simpa using (hpaid item).1 hone
  · intro hor item'
    refine (htaken item').2 ?_
    by_cases he : item = item'
    · subst he
      refine hor.symm.imp_right fun hpos => (hpaid item).2 ?_
      rwa [if_pos rfl]
    · refine .inr ((hpaid item').2 ?_)
      rw [if_neg he]
      exact hp item'

/-- Whoever is paid has a positive balance then, or the same effects take the item away. -/
def Sessions.Bears (s : Sessions) (es : List Effect) : Prop :=
  ∀ player item amount, .reward player item amount ∈ es →
    0 < (s.inventoryCount player item).toInt + amount.toInt ∨
      ∃ quest items, .itemsRemoved player quest items ∈ es ∧ item ∈ items.map (·.1)

theorem Sessions.bears_of_unpaid {s : Sessions} {es : List Effect}
    (h : ∀ player item amount, .reward player item amount ∉ es) : s.Bears es :=
  fun player item amount hm => absurd hm (h player item amount)

theorem Sessions.bears_paid_iff {s : Sessions} {player : PlayerId} {item : ItemId} {amount : Int64}
    {items : List (ItemId × UInt32)} {quest : QuestId} {sound : Sound} :
    s.Bears (Effect.reward player item amount :: (if items.isEmpty then [] else [Effect.itemsRemoved player quest items]) ++
      [Effect.playSound player sound]) ↔
    0 < (s.inventoryCount player item).toInt + amount.toInt ∨ item ∈ items.map (·.1) := by
  constructor
  · intro hb
    refine (hb player item amount List.mem_cons_self).imp_right ?_
    rintro ⟨quest', items', hm, hitem⟩
    split at hm
    · simp at hm
    · simp only [List.cons_append, List.nil_append, List.mem_cons, reduceCtorEq, false_or, Effect.itemsRemoved.injEq,
        List.not_mem_nil, or_false] at hm
      rw [hm.2.2] at hitem
      exact hitem
  · intro hor player' item' amount' hm
    have hpaid : player' = player ∧ item' = item ∧ amount' = amount := by
      split at hm <;> simpa using hm
    obtain ⟨rfl, rfl, rfl⟩ := hpaid
    refine hor.imp_right fun hitem => ⟨quest, items, ?_, hitem⟩
    have hsome : items.isEmpty = false := by
      cases items with
      | nil => cases hitem
      | cons => rfl
    simp [hsome]

/-- After a choice inventories are as good as its effects allow. -/
theorem Index.Chooses.stocked_after_iff {ix : Index} {now : Instant} {player : PlayerId} {quest : QuestId} {s s' : Sessions}
    {es : List Effect} (h : ix.Chooses now player quest s es s') (hs : s.Stocked) : s'.Stocked ↔ s.Bears es := by
  obtain ⟨-, decides, advance⟩ := h
  obtain ⟨p, p', hp, hheld, hf, hiff⟩ := advance.stocked_after_iff hs
  rw [hiff]
  cases decides with
  | idle =>
    cases hf
    exact iff_of_true hp (Sessions.bears_of_unpaid (by simp))
  | accepts =>
    cases hf
    exact iff_of_true hp (Sessions.bears_of_unpaid (by simp))
  | pays =>
    rw [Sessions.bears_paid_iff, hheld]
    exact Session.stocked_paid_iff hp hf

theorem Hunt.Decides.scaled_of_paid {h : Hunt} {player player' : PlayerId} {now : Instant} {r r' : Record}
    {es : List Effect} {item : ItemId} {amount : Int64} (hd : h.Decides player now r es r')
    (hm : .reward player' item amount ∈ es) : amount = h.rates.scale h.definition.reward.amount := by
  cases hd with
  | idle => cases hm
  | accepts => simp at hm
  | pays =>
    have hpaid := List.mem_append.1 hm
    split at hpaid <;> simp at hpaid <;> exact hpaid.2.2

/-- A payment can be broken off at the pay, or when the items are taken back. -/
theorem Hunt.Decides.breaks_cases {h : Hunt} {player : PlayerId} {quest : QuestId} {now : Instant} {r r' : Record}
    {done rest : List Effect} {e : Effect} {s s' : Sessions} (hd : h.Decides player now r (done ++ e :: rest) r')
    (hb : s.Breaks player quest r r' done e s') :
    (done = [] ∧ ∃ item amount, e = .reward player item amount) ∨
      ∃ item amount items, done = [.reward player item amount] ∧ e = .itemsRemoved player h.definition.id items := by
  have hsilent : ∀ sound, e ≠ .playSound player sound := by
    rintro sound rfl
    exact hb.not_playSound
  generalize hes : done ++ e :: rest = es at hd
  cases hd with
  | idle => simp at hes
  | accepts =>
    obtain ⟨-, he⟩ | ⟨-, he⟩ := List.append_eq_singleton_iff.1 hes
    · exact absurd (List.cons.inj he).1 (hsilent _)
    · cases he
  | pays =>
    cases done with
    | nil => exact .inl ⟨rfl, _, _, (List.cons.inj hes).1⟩
    | cons d done =>
      obtain ⟨rfl, htail⟩ := List.cons.inj hes
      cases done with
      | nil =>
        split at htail
        · exact absurd (List.cons.inj htail).1 (hsilent _)
        · exact .inr ⟨_, _, _, rfl, (List.cons.inj htail).1⟩
      | cons d' done =>
        split at htail
        · simp at htail
        · have hlast : done ++ e :: rest = [.playSound player .questFinish] := (List.cons.inj htail).2
          obtain ⟨-, he⟩ | ⟨-, he⟩ := List.append_eq_singleton_iff.1 hlast
          · exact absurd (List.cons.inj he).1 (hsilent _)
          · cases he

/-- A choice that is broken off leaves inventories as good as what has been applied allows. -/
theorem Sessions.Breaks.stocked_after_iff {h : Hunt} {player : PlayerId} {quest : QuestId} {now : Instant} {r r' : Record}
    {done rest : List Effect} {e : Effect} {s s' : Sessions} (hb : s.Breaks player quest r r' done e s')
    (hd : h.Decides player now r (done ++ e :: rest) r') (hs : s.Stocked) : s'.Stocked ↔ s.Bears done := by
  rcases hd.breaks_cases hb with ⟨rfl, item, amount, rfl⟩ | ⟨item, amount, items, rfl, rfl⟩
  · obtain ⟨advance, -, stops⟩ := hb
    obtain ⟨p, p', hp, -, hf, hiff⟩ := advance.stocked_after_iff hs
    cases hf
    rw [eq_of_apply_error stops nofun]
    exact iff_of_true (hiff.2 hp) (bears_of_unpaid (by simp))
  · -- the pay has left a debt, and so much of it that nothing can be taken from it
    obtain ⟨advance, -, stops⟩ := hb
    obtain ⟨p, p', hget, -, hf, hget'⟩ := advance.session
    obtain ⟨p₁, hpaid, hf⟩ := bind_eq_ok.1 hf
    cases hf
    unfold apply at stops
    simp only [Effect.player] at stops hget'
    rw [hget'] at stops
    obtain ⟨q, hr, rfl⟩ := Attempt.map_within_eq_error.1 stops
    obtain ⟨item', howes, hleft⟩ := Session.not_stockedAt_of_foldlM_debit hr
    refine iff_of_false (fun hall => hleft (hall player q (by rw [Table.get?_insert, if_pos rfl]) item')) fun hbears => ?_
    rcases hbears player item amount List.mem_cons_self with hpos | ⟨_, _, hm, -⟩
    · refine howes ((Session.stockedAt_credit_iff hpaid item').2 ?_)
      rw [inventoryCount_eq_held hget] at hpos
      split
      · exact hpos
      · exact hs player p hget item'
    · simp at hm

namespace Turn

variable {t : Turn}

theorem stocked_after_iff (h : t.Performed) (hs : t.before.sessions.Stocked) :
    t.after.sessions.Stocked ↔ t.before.sessions.Bears t.applied := by
  cases hanswer : t.answer with
  | error fault =>
    obtain ⟨-, hl⟩ := lapses h hanswer
    generalize t.applied = es, t.after.sessions = s' at hl ⊢
    cases hl with
    | choice chosen served decides breaks => exact breaks.stocked_after_iff decides hs
    | kill kills chain overfills =>
      have hdeeds := chain.mono fun _ _ _ hg => Deed.grant hg
      exact iff_of_true (overfills.stocked (hdeeds.stocked hs)) (Sessions.bears_of_unpaid hdeeds.unpaid)
    | unnumbered forms left =>
      exact iff_of_true ((Sessions.regroups_of_unnumbered left).2.stocked hs) (Sessions.bears_of_unpaid (by simp))
  | ok a =>
    rw [applied_of_ok h hanswer]
    rcases World.perform_cases (h.of_ok hanswer) with ⟨player, level, -, ha, hw⟩ | ⟨player, s, -, hr, ha, hw⟩ |
      ⟨_, _, _, -, hd⟩ | ⟨-, -, hd⟩
    · rw [ha, hw]
      exact iff_of_true (hs.join player level) (Sessions.bears_of_unpaid (by simp [Answer.effects]))
    · rw [ha, hw]
      exact iff_of_true ((hr.stocked hs).erase player) (Sessions.bears_of_unpaid (by simp [Answer.effects]))
    · exact hd.stocked_after_iff hs
    · exact iff_of_true (hd.stocked hs) (Sessions.bears_of_unpaid hd.unpaid)

theorem served_of_paid (h : t.Performed) {player : PlayerId} {item : ItemId} {amount : Int64}
    (hm : .reward player item amount ∈ t.applied) :
    ∃ quest g, t.before.registry.index.get? quest = some g ∧ amount = g.rates.scale g.definition.reward.amount := by
  cases hanswer : t.answer with
  | error fault =>
    obtain ⟨-, hl⟩ := lapses h hanswer
    generalize t.applied = es at hl hm
    cases hl with
    | choice chosen served decides breaks => exact ⟨_, _, served, decides.scaled_of_paid (List.mem_append_left _ hm)⟩
    | kill kills chain overfills => exact absurd hm ((chain.mono fun _ _ _ hg => Deed.grant hg).unpaid _ _ _)
    | unnumbered forms left => cases hm
  | ok a =>
    rw [applied_of_ok h hanswer] at hm
    rcases World.perform_cases (h.of_ok hanswer) with ⟨_, _, -, ha, -⟩ | ⟨_, _, -, -, ha, -⟩ |
      ⟨_, quest, _, -, served, decides, -⟩ | ⟨-, -, hd⟩
    · rw [ha] at hm
      cases hm
    · rw [ha] at hm
      cases hm
    · exact ⟨quest, _, served, decides.scaled_of_paid hm⟩
    · exact absurd hm (hd.unpaid _ _ _)

end Turn

theorem Sessions.Stocked.inventoryCount_nonneg {s : Sessions} (hs : s.Stocked) (player : PlayerId) (item : ItemId) :
    0 ≤ (s.inventoryCount player item).toInt := by
  cases hp : s.players.get? player with
  | none =>
    unfold inventoryCount
    rw [hp]
    exact Int.le_refl 0
  | some p =>
    rw [inventoryCount_eq_held hp]
    exact (hs player p hp item).held_nonneg

namespace Play

variable {start w : World} {turns : List Turn}

theorem stocked_of_paid_pos (h : Play start turns w) (hs : start.sessions.Stocked)
    (hp : ∀ t ∈ turns, ∀ player item amount, .reward player item amount ∈ t.applied → 0 < amount) :
    ∀ t ∈ turns, t.after.sessions.Stocked := by
  induction h with
  | nil => simp
  | @turn turns t hplay ht ih =>
    obtain ⟨hlast, hearlier⟩ := List.forall_mem_cons.1 hp
    have hstocked := ih hearlier
    have hbefore := hplay.of_forall_after (P := fun w => w.sessions.Stocked) hs hstocked
    refine List.forall_mem_cons.2 ⟨(Turn.stocked_after_iff ht hbefore).2 fun player item amount hm => .inl ?_, hstocked⟩
    have hcount := hbefore.inventoryCount_nonneg player item
    have hpos := Int64.lt_iff_toInt_lt.1 (hlast player item amount hm)
    rw [Int64.toInt_zero] at hpos
    omega

/-- In every play from an empty start, inventories are stocked all along exactly when every pay leaves a positive balance,
unless the turn that pays takes the item away as well. It suffices that all quests that are served offer a positive amount,
at rates of at least one, as they are by default. -/
theorem stocked_iff {registry : Registry} {dice : Dice} (h : Play ⟨registry, .empty, dice⟩ turns w) :
    ((∀ t ∈ turns, t.after.sessions.Stocked) ↔ ∀ t ∈ turns, t.before.sessions.Bears t.applied) ∧
    ((∀ t ∈ turns, ∀ quest g, t.before.registry.index.get? quest = some g →
        g.rates.currency.AtLeastOne ∧ 0 < g.definition.reward.amount) →
      ∀ t ∈ turns, t.after.sessions.Stocked) := by
  have hiff := h.forall_after_iff (P := fun w => w.sessions.Stocked) Sessions.stocked_empty
    fun _ _ _ ht hs => Turn.stocked_after_iff ht hs
  refine ⟨hiff, fun hoffers => h.stocked_of_paid_pos Sessions.stocked_empty fun t ht player item amount hm => ?_⟩
  obtain ⟨quest, g, hg, rfl⟩ := Turn.served_of_paid (h.performed t ht) hm
  obtain ⟨hrates, hamount⟩ := hoffers t ht quest g hg
  exact Rates.scale_pos hrates hamount

/-- A quest with an amount that is positive is registered, accepted and handed in. -/
theorem stocked_iff_schuttgart :
    ∃ turns w, Play (.empty .default (.ofRolls [])) turns w ∧
      (∀ t ∈ turns, ∀ quest g, t.before.registry.index.get? quest = some g →
        g.rates.currency.AtLeastOne ∧ 0 < g.definition.reward.amount) ∧
      (∀ t ∈ turns, t.after.sessions.Stocked) ∧ (∀ t ∈ turns, t.before.sessions.Bears t.applied) ∧
      w.sessions.inventoryCount "a" ⟨57⟩ = 210000 := by
  obtain ⟨⟨turns, w⟩, hc, hoffered, hcount⟩ : ∃ q, carryOut [] (.empty .default (.ofRolls []))
      [(.epoch, .register (.offering 210000) (Hunt.accepted_offering _)), (.epoch, .join "a" 60),
        (.epoch, .talk "a" ⟨31981⟩), (.epoch, .choose "a" ⟨10280⟩ "31981-03.htm"),
        (.epoch, .choose "a" ⟨10280⟩ "31972-03.htm")] = q ∧
      (∀ t ∈ q.1, ∀ e ∈ t.before.registry.index.quests.toList, e.2.rates = .default ∧ 0 < e.2.definition.reward.amount) ∧
      q.2.sessions.inventoryCount "a" ⟨57⟩ = 210000 :=
    ⟨_, rfl, by decide +kernel⟩
  have hplay : Play ⟨.empty .default, .empty, .ofRolls []⟩ turns w := of_carryOut .nil hc
  have hoffers : ∀ t ∈ turns, ∀ quest g, t.before.registry.index.get? quest = some g →
      g.rates.currency.AtLeastOne ∧ 0 < g.definition.reward.amount := by
    intro t ht quest g hg
    obtain ⟨hrates, hamount⟩ := hoffered t ht (quest, g) (Table.mem_toList.2 hg)
    exact ⟨hrates ▸ Binary64.atLeastOne_one, hamount⟩
  obtain ⟨hiff, hstocked⟩ := stocked_iff hplay
  have hall := hstocked hoffers
  exact ⟨turns, w, hplay, hoffers, hall, hiff.1 hall, hcount⟩

/-- A definition may offer nothing, or less than nothing. Handed in, the former leaves an entry of zero and the latter a
debt. -/
theorem not_stocked_of_unchecked_amount :
    (∀ amount, (Hunt.offering amount).definition.Accepted) ∧
      ∃ turns w, Play (.empty .default (.ofRolls [])) turns w ∧
        turns.map (·.command) = [.choose "a" ⟨10280⟩ "31972-03.htm", .choose "a" ⟨10280⟩ "31981-03.htm",
          .register (.offering (-5)) (Hunt.accepted_offering _), .choose "a" ⟨10280⟩ "31972-03.htm",
          .choose "a" ⟨10280⟩ "31981-03.htm", .talk "a" ⟨31981⟩, .join "a" 60,
          .register (.offering 0) (Hunt.accepted_offering _)] ∧
        (turns.map fun t => (t.after.sessions.players.get? "a").bind (·.inventory.get? ⟨57⟩)) =
          [some (-5), some 0, some 0, some 0, none, none, none, none] ∧
        ¬ ∀ t ∈ turns, t.after.sessions.Stocked := by
  obtain ⟨⟨turns, w⟩, hc, hentries⟩ : ∃ q, carryOut [] (.empty .default (.ofRolls []))
      [(.epoch, .register (.offering 0) (Hunt.accepted_offering _)), (.epoch, .join "a" 60),
        (.epoch, .talk "a" ⟨31981⟩), (.epoch, .choose "a" ⟨10280⟩ "31981-03.htm"),
        (.epoch, .choose "a" ⟨10280⟩ "31972-03.htm"), (.epoch, .register (.offering (-5)) (Hunt.accepted_offering _)),
        (.epoch, .choose "a" ⟨10280⟩ "31981-03.htm"), (.epoch, .choose "a" ⟨10280⟩ "31972-03.htm")] = q ∧
      (q.1.map fun t => (t.after.sessions.players.get? "a").bind (·.inventory.get? ⟨57⟩)) =
        [some (-5), some 0, some 0, some 0, none, none, none, none] :=
    ⟨_, rfl, by decide +kernel⟩
  refine ⟨Hunt.accepted_offering, turns, w, of_carryOut .nil hc, commands_of_carryOut hc, hentries, fun hall => ?_⟩
  obtain ⟨t, earlier, rfl, hlast, -⟩ := List.map_eq_cons_iff.1 hentries
  obtain ⟨p, hp, hn⟩ := Option.bind_eq_some_iff.1 hlast
  exact absurd (hall t List.mem_cons_self "a" p hp ⟨57⟩ _ hn) (by decide)

end Play

end Questline
