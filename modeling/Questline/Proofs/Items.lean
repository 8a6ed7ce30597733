import Questline.Record

/-!
# What a record counts

The items of a record are keyed once and for all when it is made: a grant adds to one count and never beyond the room
that is left, the end of a quest takes all counts away, and neither touches the keys.
-/

namespace Questline.Record

/-- In plain numbers: what is offered, or what is left below the cap. -/
theorem toNat_room (held count max : UInt32) :
    (room held count max).toNat = min count.toNat (max.toNat - held.toNat) := by
  have hmin : ∀ a b : UInt32, (min a b).toNat = min a.toNat b.toNat := by
    intro a b
    rw [Std.min_eq_if, apply_ite UInt32.toNat, Nat.min_def]
    simp only [UInt32.le_iff_toNat_le]
  rw [room, hmin]
  congr 1
  split
  · next h => exact UInt32.toNat_sub_of_le max held h
  · next h =>
    rw [UInt32.le_iff_toNat_le] at h
    rw [UInt32.toNat_zero]
    omega

theorem toNat_add_room (held count max : UInt32) :
    (held + room held count max).toNat = held.toNat + (room held count max).toNat := by
  have hheld := held.toNat_lt_size
  have hmax := max.toNat_lt_size
  rw [UInt32.toNat_add, toNat_room]
  apply Nat.mod_eq_of_lt
  change _ < UInt32.size
  omega

theorem add_room_le {held count max : UInt32} (h : held ≤ max) : held + room held count max ≤ max := by
  rw [UInt32.le_iff_toNat_le] at h ⊢
  rw [toNat_add_room, toNat_room]
  omega

theorem room_ne_zero {held count max : UInt32} (hc : count ≠ 0) (h : held < max) : room held count max ≠ 0 := by
  rw [Ne, ← UInt32.toNat_inj, UInt32.toNat_zero] at hc ⊢
  rw [UInt32.lt_iff_toNat_lt] at h
  rw [toNat_room]
  omega

theorem hasAll_iff (r : Record) : r.hasAll ↔
    (∃ item, r.items.contains item) ∧ ∀ item, r.items.contains item → 0 < r.count item := by
  have hentry : ∀ item n, (item, n) ∈ r.items.entries ↔ r.items.get? item = some n := fun item n =>
    Table.mem_toList (t := r.items) (e := (item, n))
  unfold hasAll Table.contains count
  rw [Bool.and_eq_true, Bool.not_eq_true']
  refine and_congr ?_ ?_
  · rw [Table.isEmpty, List.isEmpty_eq_false_iff_exists_mem]
    simp only [Prod.exists, hentry, Option.isSome_iff_exists]
  · simp only [Table.values, List.all_map, List.all_eq_true, Prod.forall, Function.comp, hentry, decide_eq_true_eq]
    refine forall_congr' fun item => ?_
    cases r.items.get? item <;> simp

theorem hasAll_of_count_eq_zero {r : Record} (h : ∀ item, r.count item = 0) : r.hasAll = false := by
  rw [Bool.eq_false_iff]
  intro hall
  obtain ⟨⟨item, hk⟩, hheld⟩ := r.hasAll_iff.1 hall
  have hpos := hheld item hk
  rw [h item] at hpos
  exact absurd hpos (UInt32.lt_irrefl 0)

theorem give_eq (r : Record) (item : ItemId) (count max : UInt32) :
    ∃ items, (r.give item count max).1 = { r with items } := by
  unfold give
  split <;> exact ⟨_, rfl⟩

theorem get?_items_give (r : Record) (item item' : ItemId) (count max : UInt32) :
    (r.give item count max).1.items.get? item' =
      if item = item' then (r.items.get? item').map fun held => held + room held count max
      else r.items.get? item' := by
  unfold give
  split
  · next hn =>
    split
    · next he => rw [← he, hn]; rfl
    · rfl
  · next held hh =>
    simp only
    rw [Table.get?_insert]
    split
    · next he => rw [← he, hh]; rfl
    · rfl

theorem contains_give (r : Record) (item item' : ItemId) (count max : UInt32) :
    (r.give item count max).1.items.contains item' = r.items.contains item' := by
  unfold Table.contains
  rw [get?_items_give]
  split
  · exact Option.isSome_map
  · rfl

theorem count_give_of_ne (r : Record) {item item' : ItemId} (h : item ≠ item') (count max : UInt32) :
    (r.give item count max).1.count item' = r.count item' := by
  unfold Record.count
  rw [get?_items_give, if_neg h]

theorem count_give_le {r : Record} {item : ItemId} {max : UInt32} (h : r.count item ≤ max) (count : UInt32) :
    (r.give item count max).1.count item ≤ max := by
  unfold Record.count at h ⊢
  rw [get?_items_give, if_pos rfl]
  cases hg : r.items.get? item with
  | none =>
    rw [hg] at h
    exact h
  | some held =>
    rw [hg] at h
    exact add_room_le h

/-- Below its cap an item is granted exactly when the record knows it. -/
theorem give_ne_zero_iff {r : Record} {item : ItemId} {count max : UInt32} (hc : count ≠ 0) (h : r.count item < max) :
    (r.give item count max).2 ≠ 0 ↔ r.items.contains item := by
  unfold Record.count at h
  unfold give Table.contains
  cases hg : r.items.get? item with
  | none => simp
  | some held =>
    rw [hg] at h
    exact iff_of_true (room_ne_zero hc h) rfl

theorem contains_of_give {r : Record} {item : ItemId} {count max : UInt32} (h : (r.give item count max).2 ≠ 0) :
    r.items.contains item := by
  cases hg : r.items.get? item with
  | none => simp [give, hg] at h
  | some held => simp [Table.contains, hg]

theorem toNat_count_give (r : Record) (item item' : ItemId) (count max : UInt32) :
    ((r.give item count max).1.count item').toNat =
      (r.count item').toNat + if item = item' then (r.give item count max).2.toNat else 0 := by
  unfold give
  split
  · split <;> rfl
  · next held hh =>
    simp only [Record.count]
    rw [Table.get?_insert]
    split
    · next he =>
      rw [← he, hh, Option.getD_some, Option.getD_some, toNat_add_room]
    · rfl

theorem lt_count_give {r : Record} {item : ItemId} {count max : UInt32} (h : (r.give item count max).2 ≠ 0) :
    r.count item < (r.give item count max).1.count item := by
  have hsum := toNat_count_give r item item count max
  have hpos : 0 < (r.give item count max).2.toNat := UInt32.lt_iff_toNat_lt.1 (UInt32.pos_iff_ne_zero.2 h)
  rw [if_pos rfl] at hsum
  rw [UInt32.lt_iff_toNat_lt]
  omega

/-- What is granted is what the count has grown by. -/
theorem give_eq_sub (r : Record) (item : ItemId) (count max : UInt32) :
    (r.give item count max).2 = (r.give item count max).1.count item - r.count item := by
  have hsum := toNat_count_give r item item count max
  rw [if_pos rfl] at hsum
  have hle : r.count item ≤ (r.give item count max).1.count item := by
    rw [UInt32.le_iff_toNat_le]
    omega
  rw [← UInt32.toNat_inj, UInt32.toNat_sub_of_le _ _ hle]
  omega

/-- Of an item that the record knows, a grant adds what is offered up to the cap. -/
theorem toNat_count_give_of_contains {r : Record} {item : ItemId} {max : UInt32} (hk : r.items.contains item)
    (h : r.count item ≤ max) (count : UInt32) :
    ((r.give item count max).1.count item).toNat = min ((r.count item).toNat + count.toNat) max.toNat := by
  obtain ⟨held, hh⟩ := Option.isSome_iff_exists.1 hk
  have hheld : r.count item = held := by simp [Record.count, hh]
  have hgive : (r.give item count max).1.count item = held + room held count max := by
    simp [Record.count, get?_items_give, hh]
  rw [hheld, UInt32.le_iff_toNat_le] at h
  rw [hgive, hheld, toNat_add_room, toNat_room]
  omega

theorem get?_items_exit (r : Record) (repeatable : Bool) (now : Instant) (item : ItemId) :
    (r.exit repeatable now).1.items.get? item = (r.items.get? item).map fun _ => 0 := by
  have hitems : (r.exit repeatable now).1.items = r.items.mapValues fun _ => 0 := by
    unfold exit
    split <;> rfl
  rw [hitems, Table.get?_mapValues]

theorem contains_exit (r : Record) (repeatable : Bool) (now : Instant) (item : ItemId) :
    (r.exit repeatable now).1.items.contains item = r.items.contains item := by
  unfold Table.contains
  rw [get?_items_exit]
  exact Option.isSome_map

theorem count_exit (r : Record) (repeatable : Bool) (now : Instant) (item : ItemId) :
    (r.exit repeatable now).1.count item = 0 := by
  unfold count
  rw [get?_items_exit]
  cases r.items.get? item <;> rfl

theorem get?_items_fresh (quest : QuestId) (items : List ItemId) (item : ItemId) :
    (fresh quest items).items.get? item = if item ∈ items then some 0 else none :=
  Table.get?_ofList_const items 0 item

theorem contains_fresh (quest : QuestId) (items : List ItemId) (item : ItemId) :
    (fresh quest items).items.contains item ↔ item ∈ items := by
  unfold Table.contains
  rw [get?_items_fresh]
  split <;> simp [*]

theorem count_fresh (quest : QuestId) (items : List ItemId) (item : ItemId) : (fresh quest items).count item = 0 := by
  unfold count
  rw [get?_items_fresh]
  split <;> rfl

end Questline.Record
