import Questline.Proofs.Items
import Questline.Proofs.Play
import Questline.Proofs.Schuttgart
import Questline.Proofs.Total

/-!
# The ledger

An item of a quest is counted twice, in the record of the quest and in the inventory, and only pay goes into the
inventory alone. So what a player has of an item is what the records count of it, and the pay. This holds along every
play in which no pay is negative. An inventory then covers all that a quest takes back, so the balances never have to
stop at zero.
-/

namespace Questline

/-- How much of an item a list of items holds. -/
def amountOf (item : ItemId) (items : List (ItemId × UInt32)) : Nat :=
  (items.map fun e => if e.1 = item then e.2.toNat else 0).sum

namespace Effect

variable (item : ItemId)

def grant : Effect → Nat
  | .itemGiven _ _ item' count => if item' = item then count.toNat else 0
  | _ => 0

def loss : Effect → Nat
  | .itemsRemoved _ _ items => amountOf item items
  | _ => 0

def pay : Effect → Int
  | .reward _ item' amount => if item' = item then amount.toInt else 0
  | _ => 0

/-- What the effect puts into an inventory, or takes from it, when balances may go below zero. -/
def gain (e : Effect) : Int := e.grant item + e.pay item - e.loss item

theorem pay_nonneg {e : Effect} (h : ∀ player item amount, e = .reward player item amount → 0 ≤ amount) :
    0 ≤ e.pay item := by
  cases e with
  | reward player item' amount =>
    have ha := Int64.le_iff_toInt_le.1 (h player item' amount rfl)
    rw [Int64.toInt_zero] at ha
    unfold pay
    simp only
    split
    · exact ha
    · exact Int.le_refl 0
  | _ => exact Int.le_refl 0

theorem pays_nonneg {es : List Effect} (h : ∀ player item amount, .reward player item amount ∈ es → 0 ≤ amount) :
    ∀ e ∈ es, ∀ item, 0 ≤ e.pay item :=
  fun _ he item => pay_nonneg item fun player item' amount hr => h player item' amount (hr ▸ he)

/-- The effect does not pay out a debt. -/
def isFair : Effect → Bool
  | .reward _ _ amount => decide (0 ≤ amount)
  | _ => true

theorem forall_isFair_iff {es : List Effect} :
    (∀ e ∈ es, e.isFair) ↔ ∀ player item amount, .reward player item amount ∈ es → 0 ≤ amount := by
  constructor
  · intro h player item amount he
    exact of_decide_eq_true (h _ he)
  · intro h e he
    cases e with
    | reward player item amount => exact decide_eq_true (h player item amount he)
    | _ => rfl

instance (es : List Effect) : Decidable (∀ player item amount, .reward player item amount ∈ es → 0 ≤ amount) :=
  decidable_of_iff _ forall_isFair_iff

end Effect

namespace Session

variable {p p' : Session}

theorem toInt_of_balance {i : Int} {b : Int64} (h : balance i = .ok b) : b.toInt = i := by
  unfold balance at h
  split at h
  · next hi =>
    rw [Int64.toInt_minValue, Int64.toInt_maxValue] at hi
    cases h
    exact Int64.toInt_ofInt_of_le (by omega) (by omega)
  · cases h

theorem held_insert (p : Session) (item item' : ItemId) (left : Int64) :
    ({ p with inventory := p.inventory.insert item left }).held item' =
      if item = item' then left else p.held item' := by
  unfold held
  rw [Table.get?_insert]
  split <;> rfl

theorem held_erase (p : Session) (item item' : ItemId) :
    ({ p with inventory := p.inventory.erase item }).held item' = if item = item' then 0 else p.held item' := by
  unfold held
  rw [Table.get?_erase]
  split <;> rfl

theorem held_credit {item : ItemId} {amount : Int} (h : p.credit item amount = .ok p') (item' : ItemId) :
    (p'.held item').toInt = (p.held item').toInt + if item = item' then amount else 0 := by
  obtain ⟨sum, hs, rfl⟩ := credit_eq_ok h
  rw [held_insert]
  split
  · next he => rw [toInt_of_balance hs, he]
  · rw [Int.add_zero]

/-- An entry that covers what is taken from it becomes that much smaller. -/
theorem held_debit {e : ItemId × UInt32} (h : p.debit e = .ok p') (hc : (e.2.toNat : Int) ≤ (p.held e.1).toInt)
    (item : ItemId) : (p'.held item).toInt = (p.held item).toInt - if e.1 = item then (e.2.toNat : Int) else 0 := by
  unfold debit at h
  split at h
  · next hn =>
    cases h
    have hz : p.held e.1 = 0 := by unfold held; rw [hn]; rfl
    rw [hz, Int64.toInt_zero] at hc
    split <;> omega
  · next held hs =>
    obtain ⟨left, hl, rfl⟩ := map_eq_ok.1 h
    rw [mapError_eq_ok] at hl
    have hh : p.held e.1 = held := by unfold Session.held; rw [hs]; rfl
    have hleft := toInt_of_balance hl
    rw [hh] at hc
    by_cases hz : left ≤ 0
    · have hle := Int64.le_iff_toInt_le.1 hz
      rw [Int64.toInt_zero] at hle
      simp only [hz, if_true]
      rw [held_erase]
      split
      · next he =>
        rw [← he, hh, Int64.toInt_zero]
        omega
      · rw [Int.sub_zero]
    · simp only [hz, if_false]
      rw [held_insert]
      split
      · next he => rw [hleft, ← he, hh]
      · rw [Int.sub_zero]

theorem held_foldlM_debit {items : List (ItemId × UInt32)} (h : items.foldlM debit p = .ok p')
    (hc : ∀ item, (amountOf item items : Int) ≤ (p.held item).toInt) (item : ItemId) :
    (p'.held item).toInt = (p.held item).toInt - amountOf item items := by
  induction items generalizing p with
  | nil =>
    cases h
    simp [amountOf]
  | cons e rest ih =>
    rw [List.foldlM_cons] at h
    obtain ⟨p₁, h₁, h₂⟩ := bind_eq_ok.1 h
    have hsplit : ∀ item, amountOf item (e :: rest) = (if e.1 = item then e.2.toNat else 0) + amountOf item rest :=
      fun item => by simp [amountOf]
    have hfirst : (e.2.toNat : Int) ≤ (p.held e.1).toInt := by
      have hcover := hc e.1
      rw [hsplit, if_pos rfl] at hcover
      omega
    have hd := held_debit h₁ hfirst
    have hrest := ih h₂ fun item => by
      have hcover := hc item
      rw [hsplit] at hcover
      rw [hd item]
      by_cases he : e.1 = item
      · rw [if_pos he] at hcover ⊢
        omega
      · rw [if_neg he] at hcover ⊢
        omega
    rw [hrest, hd item, hsplit]
    split <;> omega

theorem held_receive {e : Effect} (h : p.receive e = .ok p')
    (hc : ∀ item, (e.loss item : Int) ≤ (p.held item).toInt) (item : ItemId) :
    (p'.held item).toInt = (p.held item).toInt + e.gain item := by
  cases e with
  | playSound player sound =>
    cases h
    simp [held, Effect.gain, Effect.grant, Effect.pay, Effect.loss]
  | itemGiven player quest item' count =>
    rw [held_credit h item]
    simp only [Effect.gain, Effect.grant, Effect.pay, Effect.loss]
    split <;> simp
  | itemsRemoved player quest items =>
    rw [held_foldlM_debit h hc item]
    simp only [Effect.gain, Effect.grant, Effect.pay, Effect.loss]
    omega
  | reward player item' amount =>
    rw [held_credit h item]
    simp only [Effect.gain, Effect.grant, Effect.pay, Effect.loss]
    omega

/-- Without negative pay, an inventory that covers all losses of some effects covers each of them when its turn
comes. -/
theorem held_foldlM_receive {es : List Effect} (h : es.foldlM receive p = .ok p')
    (hp : ∀ e ∈ es, ∀ item, 0 ≤ e.pay item)
    (hc : ∀ item, ((es.map (Effect.loss item)).sum : Int) ≤ (p.held item).toInt) (item : ItemId) :
    (p'.held item).toInt = (p.held item).toInt + (es.map (Effect.gain item)).sum := by
  induction es generalizing p with
  | nil =>
    cases h
    simp
  | cons e rest ih =>
    rw [List.foldlM_cons] at h
    obtain ⟨p₁, h₁, h₂⟩ := bind_eq_ok.1 h
    simp only [List.map_cons, List.sum_cons] at hc ⊢
    have hd := held_receive h₁ fun item => by
      have hcover := hc item
      omega
    -- what `e` adds cannot uncover the losses still to come, and what it takes is no longer among them
    have hrest := ih h₂ (fun e' he' => hp e' (List.mem_cons_of_mem e he')) fun item => by
      have hcover := hc item
      have hpay := hp e List.mem_cons_self item
      rw [hd item, Effect.gain]
      omega
    rw [hrest, hd item]
    omega

end Session

namespace Record

theorem amountOf_filter (item : ItemId) (l : List (ItemId × UInt32)) :
    amountOf item (l.filter fun e => decide (0 < e.2)) = amountOf item l := by
  induction l with
  | nil => rfl
  | cons e rest ih =>
    unfold amountOf at ih ⊢
    rw [List.filter_cons]
    split
    · rw [List.map_cons, List.sum_cons, ih, List.map_cons, List.sum_cons]
    · next hz =>
      have hz : e.2.toNat = 0 := by
        simpa [UInt32.lt_iff_toNat_lt] using hz
      rw [ih, List.map_cons, List.sum_cons, hz, ite_self, Nat.zero_add]

/-- What is held of an item is what the record counts of it. -/
theorem amountOf_holdings (r : Record) (item : ItemId) : amountOf item r.holdings = (r.count item).toNat := by
  have hk := r.items.sum_toList_key UInt32.toNat item
  unfold holdings
  rw [amountOf_filter]
  refine hk.trans ?_
  unfold Table.part count
  cases r.items.get? item <;> rfl

end Record

/-- How much of an item all records of the player count. -/
def Session.collected (p : Session) (item : ItemId) : Nat := p.journal.records.total fun r => (r.count item).toNat

namespace Session

variable (p : Session) (item : ItemId)

theorem collected_enter {r : Record} (h : r.count item = 0) :
    ({ p with journal := p.journal.enter r }).collected item = p.collected item := by
  unfold collected Journal.enter
  simp only
  split
  · rfl
  · next hc =>
    have hn : p.journal.records.get? r.quest = none := Option.not_isSome_iff_eq_none.1 hc
    have ht := p.journal.records.total_insert (fun r => (r.count item).toNat) r.quest r
    rw [Table.part, hn, h] at ht
    simpa using ht

theorem collected_modify {quest : QuestId} {r : Record} (r' : Record) (h : p.journal.get? quest = some r) :
    ({ p with journal := p.journal.modify quest fun _ => r' }).collected item + (r.count item).toNat =
      p.collected item + (r'.count item).toNat :=
  p.journal.records.total_modify _ quest h

theorem count_le_collected {quest : QuestId} {r : Record} (h : p.journal.get? quest = some r) :
    (r.count item).toNat ≤ p.collected item :=
  p.journal.records.le_total (fun r => (r.count item).toNat) quest h

end Session

/-- The sum of a measure over the effects on one player. -/
def tally (f : Effect → Int) (player : PlayerId) (es : List Effect) : Int :=
  ((es.filter fun e => decide (e.player = player)).map f).sum

theorem tally_append (f : Effect → Int) (player : PlayerId) (es fs : List Effect) :
    tally f player (es ++ fs) = tally f player es + tally f player fs := by
  unfold tally
  rw [List.filter_append, List.map_append, List.sum_append_int]

theorem tally_of_concerns (f : Effect → Int) {player : PlayerId} {es : List Effect}
    (h : ∀ e ∈ es, e.player = player) : tally f player es = (es.map f).sum := by
  unfold tally
  rw [List.filter_eq_self.2 fun e he => decide_eq_true (h e he)]

theorem tally_of_others (f : Effect → Int) {player other : PlayerId} {es : List Effect}
    (h : ∀ e ∈ es, e.player = player) (ho : other ≠ player) : tally f other es = 0 := by
  unfold tally
  rw [List.filter_eq_nil_iff.2 fun e he hc => ho ((of_decide_eq_true hc).symm.trans (h e he))]
  rfl

theorem tally_nonneg {f : Effect → Int} {es : List Effect} (h : ∀ e ∈ es, 0 ≤ f e) (player : PlayerId) :
    0 ≤ tally f player es := by
  induction es with
  | nil => exact Int.le_refl 0
  | cons e rest ih =>
    have hrest := ih fun e' he' => h e' (List.mem_cons_of_mem e he')
    have he := h e List.mem_cons_self
    unfold tally at hrest ⊢
    rw [List.filter_cons]
    split
    · rw [List.map_cons, List.sum_cons]
      omega
    · exact hrest

theorem sum_gain (item : ItemId) (es : List Effect) :
    (es.map (Effect.gain item)).sum =
      (es.map (Effect.grant item)).sum + (es.map (Effect.pay item)).sum - (es.map (Effect.loss item)).sum := by
  induction es with
  | nil => rfl
  | cons e rest ih =>
    simp only [List.map_cons, List.sum_cons, ih, Effect.gain]
    omega

namespace Sessions

theorem inventoryCount_eq_held {s : Sessions} {player : PlayerId} {p : Session}
    (h : s.players.get? player = some p) (item : ItemId) : s.inventoryCount player item = p.held item := by
  unfold inventoryCount
  rw [h]
  rfl

/-- Every inventory covers what the records of its player count. -/
def Solvent (s : Sessions) : Prop :=
  ∀ player p, s.players.get? player = some p → ∀ item, (p.collected item : Int) ≤ (p.held item).toInt

/-- Some effects tell all that changed in inventories, and all that changed in records, but for the pay. -/
def Books (s : Sessions) (es : List Effect) (s' : Sessions) : Prop :=
  ∀ player p', s'.players.get? player = some p' → ∃ p, s.players.get? player = some p ∧ ∀ item,
    (p'.held item).toInt = (p.held item).toInt + tally (Effect.gain item) player es ∧
      (p'.collected item : Int) + tally (Effect.pay item) player es =
        p.collected item + tally (Effect.gain item) player es

namespace Books

theorem refl (s : Sessions) : Books s [] s :=
  fun _ p hp => ⟨p, hp, fun _ => ⟨(Int.add_zero _).symm, rfl⟩⟩

theorem trans {s t u : Sessions} {es fs : List Effect} (h : Books s es t) (h' : Books t fs u) :
    Books s (es ++ fs) u := by
  intro player p'' hp''
  obtain ⟨p', hp', hu⟩ := h' player p'' hp''
  obtain ⟨p, hp, ht⟩ := h player p' hp'
  refine ⟨p, hp, fun item => ?_⟩
  have hfirst := ht item
  have hsecond := hu item
  rw [tally_append, tally_append]
  omega

theorem erase {s s' : Sessions} {es : List Effect} (h : Books s es s') (player : PlayerId) :
    Books s es { s' with players := s'.players.erase player } := by
  intro player' p' hp'
  rw [Table.get?_erase] at hp'
  split at hp'
  · cases hp'
  · exact h player' p' hp'

theorem solvent {s s' : Sessions} {es : List Effect} (h : Books s es s') (hs : s.Solvent)
    (hp : ∀ e ∈ es, ∀ item, 0 ≤ e.pay item) : s'.Solvent := by
  intro player p' hp' item
  obtain ⟨p, hget, hb⟩ := h player p' hp'
  have hcover := hs player p hget item
  have hpay := tally_nonneg (fun e he => hp e he item) player
  have hbook := hb item
  omega

end Books

/-- An advance is booked, if what its effects grant and take back is what the record gains and loses. -/
theorem Advances.books {player : PlayerId} {quest : QuestId} {r r' : Record} {es : List Effect} {s s' : Sessions}
    (h : Advances player quest r r' es s s') (hs : s.Solvent)
    (hc : ∀ item, (r'.count item).toNat + (es.map (Effect.loss item)).sum =
      (r.count item).toNat + (es.map (Effect.grant item)).sum)
    (hl : ∀ item, (es.map (Effect.loss item)).sum ≤ (r.count item).toNat)
    (hp : ∀ e ∈ es, ∀ item, 0 ≤ e.pay item) : Books s es s' := by
  intro player' p' hp'
  by_cases he : player' = player
  · subst he
    obtain ⟨p, p₁, hget, hr, hf, hget'⟩ := h.session
    obtain rfl := Option.some.inj (hget'.symm.trans hp')
    refine ⟨p, hget, fun item => ?_⟩
    have hheld := Session.held_foldlM_receive hf hp (fun item => by
      have hcover := hs player' p hget item
      have hcount := p.count_le_collected item hr
      have hloss := hl item
      show _ ≤ (p.held item).toInt
      omega) item
    obtain ⟨inventory, sounds, rfl⟩ := Session.foldlM_receive_eq_ok hf
    have hcollected := p.collected_modify item r' hr
    have hrecord := hc item
    have hgain := sum_gain item es
    rw [tally_of_concerns _ h.concerns, tally_of_concerns _ h.concerns]
    refine ⟨hheld, ?_⟩
    change (({ p with journal := p.journal.modify quest fun _ => r' }).collected item : Int) + _ = _
    omega
  · refine ⟨p', by rw [← h.others he]; exact hp', fun item => ?_⟩
    rw [tally_of_others _ h.concerns he, tally_of_others _ h.concerns he]
    omega

theorem Regroups.books {s s' : Sessions} (h : Regroups s s') : Books s [] s' := by
  intro player p' hp'
  obtain ⟨p, hp, he⟩ := h.get?_players hp'
  refine ⟨p, hp, fun item => ?_⟩
  have hheld : p'.held item = p.held item := by
    change p'.alone.held item = p.alone.held item
    rw [he]
  have hcollected : p'.collected item = p.collected item := by
    change p'.alone.collected item = p.alone.collected item
    rw [he]
  rw [hheld, hcollected]
  exact ⟨(Int.add_zero _).symm, rfl⟩

theorem books_join {s : Sessions} {player : PlayerId} {p : Session} (level : Int32)
    (h : s.players.get? player = some p) : Books s [] (s.join player level) := by
  intro player' p' hp'
  unfold join at hp'
  rw [h, Table.get?_insert] at hp'
  split at hp'
  · next he =>
    cases hp'
    exact ⟨p, he ▸ h, fun _ => ⟨(Int.add_zero _).symm, rfl⟩⟩
  · exact ⟨p', hp', fun _ => ⟨(Int.add_zero _).symm, rfl⟩⟩

theorem books_enterRecord (s : Sessions) (player : PlayerId) {r : Record} (h : ∀ item, r.count item = 0) :
    Books s [] (s.enterRecord player r) := by
  intro player' p' hp'
  unfold enterRecord at hp'
  rw [get?_modifyPlayer] at hp'
  split at hp'
  · obtain ⟨p, hp, rfl⟩ := Option.map_eq_some_iff.1 hp'
    refine ⟨p, hp, fun item => ⟨(Int.add_zero _).symm, ?_⟩⟩
    rw [p.collected_enter item (h item)]
    rfl
  · exact ⟨p', hp', fun _ => ⟨(Int.add_zero _).symm, rfl⟩⟩

end Sessions

theorem Deed.pay_nonneg {ix : Index} {s s' : Sessions} {es : List Effect} (h : Deed ix s es s') :
    ∀ e ∈ es, ∀ item, 0 ≤ e.pay item := by
  intro e he item
  rcases h.effect_cases e he with ⟨_, _, _, _, rfl⟩ | ⟨_, rfl⟩ <;> exact Int.le_refl 0

theorem Deed.books {ix : Index} {s s' : Sessions} {es : List Effect} (h : Deed ix s es s') (hs : s.Solvent) :
    s.Books es s' := by
  have hp := h.pay_nonneg
  cases h with
  | regroup hr => exact hr.books
  | meet hm =>
    cases hm
    exact Sessions.books_enterRecord s _ (Record.count_fresh _ _)
  | grant hg =>
    cases hg with
    | intro served drops entitled started misses grants advance =>
      refine advance.books hs (fun item => ?_) (fun item => ?_) hp
      · rw [Record.toNat_count_give]
        simp [Effect.loss, Effect.grant]
      · simp [Effect.loss]

theorem Chain.books {ix : Index} {s s' : Sessions} {es : List Effect} (h : Chain (Deed ix) s es s')
    (hs : s.Solvent) : s.Books es s' := by
  induction h with
  | nil s => exact .refl s
  | cons hd _ ih =>
    have hb := hd.books hs
    exact hb.trans (ih (hb.solvent hs hd.pay_nonneg))

/-- A quest that ends takes back exactly what its record counts. -/
theorem Hunt.Decides.balanced {h : Hunt} {player : PlayerId} {now : Instant} {r r' : Record} {es : List Effect}
    (hd : h.Decides player now r es r') (item : ItemId) :
    (r'.count item).toNat + (es.map (Effect.loss item)).sum = (r.count item).toNat ∧
      (es.map (Effect.grant item)).sum = 0 := by
  cases hd with
  | idle => exact ⟨rfl, rfl⟩
  | accepts => exact ⟨rfl, rfl⟩
  | pays =>
    have hremoval : ((if r.holdings.isEmpty then []
        else [Effect.itemsRemoved player h.definition.id r.holdings]).map (Effect.loss item)).sum =
          (r.count item).toNat := by
      rw [← r.amountOf_holdings item]
      split
      · next he =>
        rw [List.isEmpty_iff.1 he]
        rfl
      · exact Nat.add_zero _
    have hgrant : ((if r.holdings.isEmpty then []
        else [Effect.itemsRemoved player h.definition.id r.holdings]).map (Effect.grant item)).sum = 0 := by
      split <;> rfl
    simp only [Record.count_exit, List.cons_append, List.map_cons, List.map_append, List.sum_cons,
      List.sum_append_nat, hremoval, hgrant]
    simp [Effect.loss, Effect.grant]

theorem Index.Chooses.books {ix : Index} {now : Instant} {player : PlayerId} {quest : QuestId} {s s' : Sessions}
    {es : List Effect} (h : ix.Chooses now player quest s es s') (hs : s.Solvent)
    (hp : ∀ e ∈ es, ∀ item, 0 ≤ e.pay item) : s.Books es s' := by
  obtain ⟨-, decides, advance⟩ := h
  refine advance.books hs (fun item => ?_) (fun item => ?_) hp
  · obtain ⟨hloss, hgrant⟩ := decides.balanced item
    omega
  · obtain ⟨hloss, -⟩ := decides.balanced item
    omega

/-- What a choice takes back, the inventory covers at that moment. -/
theorem Index.Chooses.covered {ix : Index} {now : Instant} {player player' : PlayerId} {quest quest' : QuestId}
    {s s' : Sessions} {es es' : List Effect} {items : List (ItemId × UInt32)}
    (h : ix.Chooses now player quest s (es ++ .itemsRemoved player' quest' items :: es') s') (hs : s.Solvent)
    (hp : ∀ e ∈ es, ∀ item, 0 ≤ e.pay item) (item : ItemId) :
    (amountOf item items : Int) ≤ (s.inventoryCount player' item).toInt + tally (Effect.gain item) player' es := by
  obtain ⟨-, decides, advance⟩ := h
  obtain rfl : player' = player :=
    advance.concerns (.itemsRemoved player' quest' items) (List.mem_append_right es List.mem_cons_self)
  obtain ⟨p, -, hget, hr, -⟩ := advance.session
  have hall := (decides.balanced item).1
  rw [List.map_append, List.sum_append_nat, List.map_cons, List.sum_cons] at hall
  have hitems : (Effect.itemsRemoved player' quest' items).loss item = amountOf item items := rfl
  have hcount := p.count_le_collected item hr
  have hcover := hs player' p hget item
  have hpay := tally_nonneg (fun e he => hp e he item) player'
  have hes : ∀ e ∈ es, e.player = player' := fun e he => advance.concerns e (List.mem_append_left _ he)
  have hsum := sum_gain item es
  rw [tally_of_concerns _ hes] at hpay ⊢
  rw [Sessions.inventoryCount_eq_held hget]
  omega

namespace Turn

variable {t : Turn} {player : PlayerId} {es : List Effect}

/-- When no balance breaks off a turn, a party without a number does, and nothing is applied. -/
theorem regroups_of_error {fault : Fault} (h : t.Performed) (ha : t.answer = .error fault)
    (hb : t.answer ≠ .error .balance) :
    (∃ names, t.command = .formParty names) ∧ t.applied = [] ∧ t.before.sessions.Regroups t.after.sessions := by
  obtain ⟨-, hl⟩ := lapses h ha
  generalize t.applied = es at hl ⊢
  cases hl with
  | choice => exact absurd ha hb
  | kill => exact absurd ha hb
  | unnumbered forms left => exact ⟨⟨_, forms⟩, rfl, (Sessions.regroups_of_unnumbered left).2⟩

theorem admits_eq_false (h : ∀ player level, t.command ≠ .join player level) (player : PlayerId) :
    t.admits player = false := by
  unfold admits
  split
  · next hc => exact absurd hc (h _ _)
  · rfl

theorem admits_of_join {level : Int32} (h : t.command = .join player level) (other : PlayerId) :
    t.admits other = (decide (player = other) && !t.before.sessions.players.contains player) := by
  unfold admits
  rw [h]
  by_cases he : player = other
  · rw [he]
  · simp [he]

/-- A turn is booked, unless it admits a new player. -/
theorem settles (h : t.Performed) (hb : t.answer ≠ .error .balance) (hs : t.before.sessions.Solvent)
    (hp : ∀ e ∈ t.applied, ∀ item, 0 ≤ e.pay item) :
    (t.before.sessions.Books t.applied t.after.sessions ∧ ∀ player, t.admits player = false) ∨
      ∃ player level, t.before.sessions.players.get? player = none ∧ t.applied = [] ∧
        t.after.sessions = t.before.sessions.join player level ∧
        ∀ other, t.admits other = decide (player = other) := by
  cases hanswer : t.answer with
  | error fault =>
    obtain ⟨⟨names, hc⟩, happlied, hr⟩ := regroups_of_error h hanswer hb
    rw [happlied]
    refine .inl ⟨hr.books, admits_eq_false fun player level he => ?_⟩
    rw [he] at hc
    cases hc
  | ok a =>
    rw [applied_of_ok h hanswer] at hp ⊢
    rcases World.perform_cases (h.of_ok hanswer) with ⟨player, level, hc, ha, hw⟩ | ⟨player, s, hc, hr, ha, hw⟩ |
      ⟨player, quest, token, hc, hd⟩ | ⟨hj, -, hd⟩
    · have hafter : t.after.sessions = t.before.sessions.join player level := by rw [hw]
      rw [ha, hafter]
      cases hn : t.before.sessions.players.get? player with
      | none =>
        refine .inr ⟨player, level, hn, rfl, rfl, fun other => ?_⟩
        rw [admits_of_join hc, Table.contains, hn]
        exact Bool.and_true _
      | some p =>
        refine .inl ⟨Sessions.books_join level hn, fun other => ?_⟩
        rw [admits_of_join hc, Table.contains, hn]
        exact Bool.and_false _
    · rw [ha, hw]
      refine .inl ⟨hr.books.erase player, admits_eq_false fun player' level he => ?_⟩
      rw [he] at hc
      cases hc
    · refine .inl ⟨hd.books hs hp, admits_eq_false fun player' level he => ?_⟩
      rw [he] at hc
      cases hc
    · exact .inl ⟨hd.books hs, admits_eq_false hj⟩

theorem covered (h : t.Performed) (hb : t.answer ≠ .error .balance) (hs : t.before.sessions.Solvent)
    (hp : ∀ e ∈ t.applied, ∀ item, 0 ≤ e.pay item) {es' : List Effect} {quest : QuestId} {items : List (ItemId × UInt32)}
    (hsplit : t.applied = es ++ .itemsRemoved player quest items :: es') (item : ItemId) :
    (amountOf item items : Int) ≤
      (t.before.sessions.inventoryCount player item).toInt + tally (Effect.gain item) player es := by
  have hm : .itemsRemoved player quest items ∈ t.applied := by
    rw [hsplit]
    exact List.mem_append_right es List.mem_cons_self
  cases hanswer : t.answer with
  | error fault =>
    rw [(regroups_of_error h hanswer hb).2.1] at hm
    cases hm
  | ok a =>
    rw [applied_of_ok h hanswer] at hp hsplit hm
    rcases World.perform_cases (h.of_ok hanswer) with ⟨_, _, -, ha, -⟩ | ⟨_, _, -, -, ha, -⟩ | ⟨_, _, _, -, hd⟩ | ⟨-, -, hd⟩
    · rw [ha] at hm
      cases hm
    · rw [ha] at hm
      cases hm
    · rw [hsplit] at hd hp
      exact hd.covered hs (fun e he => hp e (List.mem_append_left _ he)) item
    · rcases hd.forall_effects (fun _ _ _ hd => hd.effect_cases) _ hm with ⟨_, _, _, _, he⟩ | ⟨_, he⟩ <;> cases he

end Turn

namespace Play

/-- The sum of a measure over the effects applied to a player since the player last joined as a new one. -/
def since (f : Effect → Int) (player : PlayerId) : List Turn → Int
  | [] => 0
  | t :: earlier => (if t.admits player then 0 else since f player earlier) + tally f player t.applied

theorem since_nonneg {f : Effect → Int} {turns : List Turn} (h : ∀ t ∈ turns, ∀ e ∈ t.applied, 0 ≤ f e)
    (player : PlayerId) : 0 ≤ since f player turns := by
  induction turns with
  | nil => exact Int.le_refl 0
  | cons t rest ih =>
    have hrest := ih fun t' ht' => h t' (List.mem_cons_of_mem t ht')
    have ht := tally_nonneg (h t List.mem_cons_self) player
    rw [since]
    split <;> omega

/-- The history tells all balances: inventories hold what was gained, and records count the same without the pay. -/
def Told (turns : List Turn) (s : Sessions) : Prop :=
  ∀ player p, s.players.get? player = some p → ∀ item,
    (p.held item).toInt = since (Effect.gain item) player turns ∧
      (p.collected item : Int) + since (Effect.pay item) player turns = since (Effect.gain item) player turns

theorem Told.solvent {turns : List Turn} {s : Sessions} (h : Told turns s)
    (hp : ∀ t ∈ turns, ∀ e ∈ t.applied, ∀ item, 0 ≤ e.pay item) : s.Solvent := by
  intro player p hget item
  obtain ⟨hheld, hcollected⟩ := h player p hget item
  have hpay := since_nonneg (fun t ht e he => hp t ht e he item) player
  omega

theorem told {start w : World} {turns : List Turn} (h : Play start turns w)
    (hs : start.sessions.players = .empty) (hb : ∀ t ∈ turns, t.answer ≠ .error .balance)
    (hp : ∀ t ∈ turns, ∀ e ∈ t.applied, ∀ item, 0 ≤ e.pay item) : Told turns w.sessions := by
  induction h with
  | nil =>
    intro player p hget
    rw [hs] at hget
    cases hget
  | @turn turns t _ ht ih =>
    have hold := ih (fun t' ht' => hb t' (List.mem_cons_of_mem t ht')) fun t' ht' => hp t' (List.mem_cons_of_mem t ht')
    -- the turn is booked only because the turns before it left everybody solvent
    have hsolvent := hold.solvent fun t' ht' => hp t' (List.mem_cons_of_mem t ht')
    intro player p' hget item
    simp only [since]
    rcases Turn.settles ht (hb t List.mem_cons_self) hsolvent (hp t List.mem_cons_self) with
      ⟨hbooks, ha⟩ | ⟨player', level, hn, he, hj, ha⟩
    · obtain ⟨p, hp, hbook⟩ := hbooks player p' hget
      have hbefore := hold player p hp item
      have hturn := hbook item
      rw [ha]
      simp only [Bool.false_eq_true, if_false]
      omega
    · rw [ha, he]
      rw [hj, Sessions.join, hn, Table.get?_insert] at hget
      split at hget
      · next heq =>
        cases hget
        rw [decide_eq_true heq, if_pos rfl, if_pos rfl]
        exact ⟨rfl, rfl⟩
      · next hne =>
        rw [decide_eq_false hne, if_neg Bool.false_ne_true, if_neg Bool.false_ne_true]
        have hbefore := hold player p' hget item
        change _ = _ + 0 ∧ _ + (_ + 0) = _ + 0
        omega

/-- Whatever is played from an empty start, as long as every balance fits and no pay is negative: what a player who is present
has of an item is what the records of the player count of it, and all pay since the player joined. It is also all that was
gained since then, with everything that quests took back counted in full, for whenever a quest takes items back, the
inventory covers them. -/
theorem balance_eq_records_and_pay {registry : Registry} {dice : Dice} {w : World} {turns : List Turn}
    (h : Play ⟨registry, .empty, dice⟩ turns w) (hb : ∀ t ∈ turns, t.answer ≠ .error .balance)
    (hpay : ∀ t ∈ turns, ∀ player item amount, .reward player item amount ∈ t.applied → 0 ≤ amount) :
    (∀ player p, w.sessions.players.get? player = some p → ∀ item,
      (w.sessions.inventoryCount player item).toInt =
          (p.journal.records.values.map fun r => (r.count item).toNat).sum +
            since (Effect.pay item) player turns ∧
        (w.sessions.inventoryCount player item).toInt = since (Effect.gain item) player turns) ∧
      ∀ t ∈ turns, ∀ es es' player quest items, t.applied = es ++ .itemsRemoved player quest items :: es' →
        ∀ item, (amountOf item items : Int) ≤
          (t.before.sessions.inventoryCount player item).toInt + tally (Effect.gain item) player es := by
  have hp := fun t ht => Effect.pays_nonneg (hpay t ht)
  refine ⟨fun player p hget item => ?_, fun t ht es es' player quest items hsplit item => ?_⟩
  · obtain ⟨hg, hc⟩ := h.told rfl hb hp player p hget item
    unfold Session.collected Table.total at hc
    rw [Sessions.inventoryCount_eq_held hget]
    omega
  · obtain ⟨later, earlier, rfl⟩ := List.append_of_mem ht
    have hearlier : ∀ t' ∈ earlier, ∀ e ∈ t'.applied, ∀ item, 0 ≤ e.pay item :=
      fun t' ht' => hp t' (by simp [ht'])
    have hfits : ∀ t' ∈ earlier, t'.answer ≠ .error .balance := fun t' ht' => hb t' (by simp [ht'])
    have hsolvent := (h.before.told rfl hfits hearlier).solvent hearlier
    exact Turn.covered (h.performed t ht) (hb t ht) hsolvent (hp t ht) hsplit item

/-- A monster is killed and its item handed in: the quest takes the item back, and the pay stays. -/
theorem balance_eq_records_and_pay_schuttgart :
    ∃ turns w, Play .schuttgart turns w ∧ (∀ t ∈ turns, t.answer ≠ .error .balance) ∧
      (∀ t ∈ turns, ∀ player item amount, .reward player item amount ∈ t.applied → 0 ≤ amount) ∧
      (∃ t ∈ turns, ∃ es es', t.applied = es ++ .itemsRemoved "a" ⟨10280⟩ [(⟨13838⟩, 1)] :: es' ∧
        (amountOf ⟨13838⟩ [(⟨13838⟩, 1)] : Int) ≤
          (t.before.sessions.inventoryCount "a" ⟨13838⟩).toInt + tally (Effect.gain ⟨13838⟩) "a" es) ∧
      since (Effect.pay ⟨57⟩) "a" turns = 210000 ∧
      ∃ p, w.sessions.players.get? "a" = some p ∧
        (w.sessions.inventoryCount "a" ⟨57⟩).toInt =
          (p.journal.records.values.map fun r => (r.count ⟨57⟩).toNat).sum +
            since (Effect.pay ⟨57⟩) "a" turns := by
  obtain ⟨⟨turns, w⟩, hc, hb, hpay, happlied, hsince, hpresent⟩ : ∃ q, carryOut [] .schuttgart
      [(.epoch, .join "a" 60), (.epoch, .talk "a" ⟨31981⟩), (.epoch, .choose "a" ⟨10280⟩ "31981-03.htm"),
        (.epoch, .kill "a" ⟨18571⟩), (.epoch, .choose "a" ⟨10280⟩ "31972-03.htm")] = q ∧
      (∀ t ∈ q.1, t.answer ≠ .error .balance) ∧
      (∀ t ∈ q.1, ∀ player item amount, .reward player item amount ∈ t.applied → 0 ≤ amount) ∧
      q.1.map Turn.applied =
        [[.reward "a" ⟨57⟩ 210000, .itemsRemoved "a" ⟨10280⟩ [(⟨13838⟩, 1)], .playSound "a" .questFinish],
          [.itemGiven "a" ⟨10280⟩ ⟨13838⟩ 1, .playSound "a" .itemGet], [.playSound "a" .questAccept], [], []] ∧
      since (Effect.pay ⟨57⟩) "a" q.1 = 210000 ∧ q.2.sessions.players.contains "a" :=
    ⟨_, rfl, by decide +kernel⟩
  have hplay := of_carryOut .nil hc
  obtain ⟨hbalance, hcovered⟩ := balance_eq_records_and_pay hplay hb hpay
  obtain ⟨p, hp⟩ := Option.isSome_iff_exists.1 hpresent
  refine ⟨turns, w, hplay, hb, hpay, ?_, hsince, p, hp, (hbalance "a" p hp ⟨57⟩).1⟩
  obtain ⟨t, earlier, rfl, hlast, -⟩ := List.map_eq_cons_iff.1 happlied
  have hsplit : t.applied = [.reward "a" ⟨57⟩ 210000] ++
      .itemsRemoved "a" ⟨10280⟩ [(⟨13838⟩, 1)] :: [.playSound "a" .questFinish] := hlast
  exact ⟨t, List.mem_cons_self, _, _, hsplit, hcovered t List.mem_cons_self _ _ _ _ _ hsplit ⟨13838⟩⟩

end Play

end Questline
