import Questline.Proofs.Ledger

/-!
# A record keeps account of its items

Five operations change a record, and none of them looks at how the record came about. In whatever order they come, what a
record counts of an item is what it counted at first, and what was granted since, without what was taken away. The items
that it knows stay the same, a grant stops at the cap that it is given, and a step is noted of a started quest only.
-/

namespace Questline

theorem amountOf_append (item : ItemId) (l l' : List (ItemId × UInt32)) :
    amountOf item (l ++ l') = amountOf item l + amountOf item l' := by
  simp [amountOf]

namespace Record

inductive Operation where
  | start (cond : UInt8) (now : Instant)
  | setCond (cond : UInt8)
  | clearCond
  | give (item : ItemId) (count max : UInt32)
  | exit (repeatable : Bool) (now : Instant)
  deriving DecidableEq, Repr

/-- What comes of operations: the record afterwards, and the items that were granted and taken away on the way, as the
operations report them. -/
structure Course where
  record : Record
  granted : List (ItemId × UInt32)
  taken : List (ItemId × UInt32)
  deriving DecidableEq, Repr

def step (r : Record) : Operation → Course
  | .start cond now => ⟨r.start cond now, [], []⟩
  | .setCond cond => ⟨r.setCond cond, [], []⟩
  | .clearCond => ⟨r.clearCond, [], []⟩
  | .give item count max => ⟨(r.give item count max).1, [(item, (r.give item count max).2)], []⟩
  | .exit repeatable now => ⟨(r.exit repeatable now).1, [], (r.exit repeatable now).2⟩

def course (r : Record) : List Operation → Course
  | [] => ⟨r, [], []⟩
  | op :: rest =>
    let first := r.step op
    let later := first.record.course rest
    ⟨later.record, first.granted ++ later.granted, first.taken ++ later.taken⟩

/-- A step is noted of a started quest only. -/
def StepsOnlyStarted (r : Record) : Prop := r.cond ≠ none → r.phase = .started

variable {r : Record}

theorem count_step (r : Record) (op : Operation) (item : ItemId) :
    ((r.step op).record.count item).toNat + amountOf item (r.step op).taken =
      (r.count item).toNat + amountOf item (r.step op).granted := by
  cases op with
  | start | clearCond => rfl
  | setCond cond =>
    have hitems : (r.setCond cond).items = r.items := by
      unfold setCond
      split <;> rfl
    simp only [step, count, hitems]
  | give item' count max =>
    have hsum := toNat_count_give r item' item count max
    simpa [step, amountOf] using hsum
  | exit repeatable now =>
    show ((r.exit repeatable now).1.count item).toNat + amountOf item r.holdings = (r.count item).toNat + amountOf item []
    rw [count_exit, amountOf_holdings]
    exact Nat.add_comm 0 _

theorem contains_step (r : Record) (op : Operation) (item : ItemId) :
    (r.step op).record.items.contains item = r.items.contains item := by
  cases op with
  | start | clearCond => rfl
  | setCond cond =>
    simp only [step, setCond]
    split <;> rfl
  | give item' count max => exact contains_give r item' item count max
  | exit repeatable now => exact contains_exit r repeatable now item

theorem StepsOnlyStarted.step (h : r.StepsOnlyStarted) (op : Operation) : (r.step op).record.StepsOnlyStarted := by
  cases op with
  | start => exact fun _ => rfl
  | setCond cond =>
    simp only [Record.step, setCond]
    split
    · next hs => exact fun _ => of_decide_eq_true hs
    · exact h
  | clearCond => exact fun hc => absurd rfl hc
  | give item count max =>
    obtain ⟨items, he⟩ := r.give_eq item count max
    simp only [Record.step, he]
    exact h
  | exit repeatable now =>
    have hcond : (r.exit repeatable now).1.cond = none := by
      unfold exit
      cases repeatable <;> rfl
    exact fun hc => absurd hcond hc

theorem toNat_granted_le (r : Record) (item : ItemId) (count cap : UInt32) :
    (r.give item count cap).2.toNat ≤ cap.toNat - (r.count item).toNat := by
  unfold give
  cases hg : r.items.get? item with
  | none => exact Nat.zero_le _
  | some held =>
    have hheld : r.count item = held := by simp [Record.count, hg]
    rw [hheld]
    exact (toNat_room held count cap).trans_le (Nat.min_le_right ..)

/-- A grant takes a count no further than the cap, or leaves it where it is, so the sum is a count again. -/
theorem toNat_count_give_le (r : Record) (item : ItemId) (count cap : UInt32) :
    (r.count item).toNat + (r.give item count cap).2.toNat ≤ max (r.count item).toNat cap.toNat ∧
      (r.count item).toNat + (r.give item count cap).2.toNat < UInt32.size ∧
      ((r.give item count cap).1.count item).toNat = (r.count item).toNat + (r.give item count cap).2.toNat := by
  have hfits := toNat_granted_le r item count cap
  have hsum := toNat_count_give r item item count cap
  have hcount := (r.count item).toNat_lt_size
  have hcap := cap.toNat_lt_size
  rw [if_pos rfl] at hsum
  refine ⟨?_, ?_, hsum⟩ <;> omega

theorem count_course (r : Record) (ops : List Operation) (item : ItemId) :
    ((r.course ops).record.count item).toNat + amountOf item (r.course ops).taken =
      (r.count item).toNat + amountOf item (r.course ops).granted := by
  induction ops generalizing r with
  | nil => rfl
  | cons op rest ih =>
    have hfirst := r.count_step op item
    have hlater := ih (r.step op).record
    simp only [course, amountOf_append]
    omega

theorem contains_course (r : Record) (ops : List Operation) (item : ItemId) :
    (r.course ops).record.items.contains item = r.items.contains item := by
  induction ops generalizing r with
  | nil => rfl
  | cons op rest ih => exact (ih (r.step op).record).trans (r.contains_step op item)

theorem StepsOnlyStarted.course (h : r.StepsOnlyStarted) (ops : List Operation) :
    (r.course ops).record.StepsOnlyStarted := by
  induction ops generalizing r with
  | nil => exact h
  | cons op rest ih => exact ih (h.step op)

/-- Whatever is done to a record, for each item the count afterwards is the count before, and what was granted without what
was taken away; the record knows the same items; and steps are noted of a started quest only, if that was so before. At any
time a grant takes a count at most to the cap, or leaves it where it is when it is beyond, so no count overflows. -/
theorem course_conserves (r : Record) (ops : List Operation) :
    let c := r.course ops
    (∀ item, ((c.record.count item).toNat : Int) =
      (r.count item).toNat + amountOf item c.granted - amountOf item c.taken) ∧
    (∀ item, c.record.items.contains item = r.items.contains item) ∧
    (∀ item count cap,
      (c.record.count item).toNat + (c.record.give item count cap).2.toNat ≤ max (c.record.count item).toNat cap.toNat ∧
      (c.record.count item).toNat + (c.record.give item count cap).2.toNat < UInt32.size ∧
      ((c.record.give item count cap).1.count item).toNat =
        (c.record.count item).toNat + (c.record.give item count cap).2.toNat) ∧
    (r.StepsOnlyStarted → c.record.StepsOnlyStarted) := by
  intro c
  refine ⟨fun item => ?_, contains_course r ops, toNat_count_give_le c.record, fun h => h.course ops⟩
  have hcount : (c.record.count item).toNat + amountOf item c.taken = (r.count item).toNat + amountOf item c.granted :=
    count_course r ops item
  omega

/-- A quest is accepted, and items come to a cap near the largest count; a smaller cap, an item that is not known and a step
after the end change nothing. All that was granted is taken away at the end. -/
theorem course_conserves_near_max :
    let r : Record := .fresh ⟨10280⟩ [⟨13838⟩]
    let ops : List Operation := [.start 1 .epoch, .give ⟨13838⟩ 4294967295 4294967290, .give ⟨13838⟩ 10 4294967295,
      .give ⟨13838⟩ 1 5, .give ⟨57⟩ 5 10, .exit true .epoch, .setCond 2]
    r.StepsOnlyStarted ∧ (r.course ops).record.StepsOnlyStarted ∧ (r.course ops).record = r ∧
      (r.course ops).granted = [(⟨13838⟩, 4294967290), (⟨13838⟩, 5), (⟨13838⟩, 0), (⟨57⟩, 0)] ∧
      (r.course ops).taken = [(⟨13838⟩, 4294967295)] ∧
      ((r.course ops).record.count ⟨13838⟩).toNat + amountOf ⟨13838⟩ (r.course ops).taken =
        amountOf ⟨13838⟩ (r.course ops).granted := by
  intro r ops
  have hsteps : r.StepsOnlyStarted := fun hc => absurd rfl hc
  obtain ⟨hcount, -, -, honly⟩ := course_conserves r ops
  refine ⟨hsteps, honly hsteps, by decide +kernel, by decide +kernel, by decide +kernel, ?_⟩
  have hzero : r.count ⟨13838⟩ = 0 := count_fresh ⟨10280⟩ [⟨13838⟩] ⟨13838⟩
  have hitem := hcount ⟨13838⟩
  rw [hzero, UInt32.toNat_zero] at hitem
  omega

end Record

end Questline
