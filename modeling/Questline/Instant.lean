/-!
Instants of the civil calendar in UTC, to the nanosecond.

An instant is kept in the fields of its written form; a second number 60 is a leap second. So two instants are
equal exactly when they are written alike.
-/

namespace Questline

def isLeapYear (year : Int) : Bool := year % 4 = 0 ∧ (year % 100 ≠ 0 ∨ year % 400 = 0)

def daysIn (year : Int) (month : Nat) : Nat :=
  if month = 2 then if isLeapYear year then 29 else 28
  else if month = 4 ∨ month = 6 ∨ month = 9 ∨ month = 11 then 30
  else 31

/-- The calendar reaches from year `firstYear` to year `lastYear`. -/
def firstYear : Int := -262143

def lastYear : Int := 262142

def IsDate (year : Int) (month day : Nat) : Prop :=
  firstYear ≤ year ∧ year ≤ lastYear ∧ 1 ≤ month ∧ month ≤ 12 ∧ 1 ≤ day ∧ day ≤ daysIn year month

instance (year : Int) (month day : Nat) : Decidable (IsDate year month day) :=
  inferInstanceAs (Decidable (_ ∧ _ ∧ _ ∧ _ ∧ _ ∧ _))

structure Date where
  year : Int
  month : Nat
  day : Nat
  isDate : IsDate year month day
  deriving DecidableEq, Repr

namespace Date

def of? (year : Int) (month day : Nat) : Option Date :=
  if h : IsDate year month day then some ⟨year, month, day, h⟩ else none

def next? (d : Date) : Option Date :=
  if d.day < daysIn d.year d.month then of? d.year d.month (d.day + 1)
  else if d.month < 12 then of? d.year (d.month + 1) 1
  else of? (d.year + 1) 1 1

def previous? (d : Date) : Option Date :=
  if 1 < d.day then of? d.year d.month (d.day - 1)
  else if 1 < d.month then of? d.year (d.month - 1) (daysIn d.year (d.month - 1))
  else of? (d.year - 1) 12 31

end Date

def IsTime (hour minute second nano : Nat) : Prop :=
  hour < 24 ∧ minute < 60 ∧ second ≤ 60 ∧ nano < 1000000000

instance (hour minute second nano : Nat) : Decidable (IsTime hour minute second nano) :=
  inferInstanceAs (Decidable (_ ∧ _ ∧ _ ∧ _))

structure Instant where
  date : Date
  hour : Nat
  minute : Nat
  second : Nat
  nano : Nat
  isTime : IsTime hour minute second nano
  deriving DecidableEq, Repr

namespace Instant

def of? (date : Date) (hour minute second nano : Nat) : Option Instant :=
  if h : IsTime hour minute second nano then some ⟨date, hour, minute, second, nano, h⟩ else none

/-- The instant that a clock shows which is `offset` minutes ahead of UTC, for an offset of less than a day
either way. -/
def back? (t : Instant) (offset : Int) : Option Instant := do
  let minutes : Int := t.hour * 60 + t.minute - offset
  let date ← if minutes < 0 then t.date.previous? else if minutes < 1440 then some t.date else t.date.next?
  let minutes := (minutes % 1440).toNat
  of? date (minutes / 60) (minutes % 60) t.second t.nano

end Instant

end Questline
