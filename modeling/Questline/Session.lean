import Questline.Effect
import Questline.Journal

/-!
One player who is present, and what effects do to what a player owns.

Balances can run out of range. A `Fault` breaks a computation off, and what was changed before that stays changed.
-/

namespace Questline

structure Session where
  level : Int32
  party : Option PartyId
  journal : Journal
  inventory : Table ItemId Int64
  /-- The sounds played, oldest first. -/
  sounds : List Sound
  deriving DecidableEq, Repr

/-- A number that left its range. -/
inductive Fault where
  | balance
  | partyNumber
  deriving DecidableEq, Repr

/-- A computation that changes a state. When a fault breaks it off, it leaves the state that it had reached. -/
abbrev Attempt (σ α : Type) := Except (Fault × σ) α

/-- The state is a part of a larger one. -/
def Attempt.within {σ τ α : Type} (put : σ → τ) (x : Attempt σ α) : Attempt τ α :=
  x.mapError fun (fault, s) => (fault, put s)

namespace Session

def fresh (level : Int32) : Session := ⟨level, none, .empty, .empty, []⟩

def held (p : Session) (item : ItemId) : Int64 := (p.inventory.get? item).getD 0

/-- A balance of 64 bits. -/
def balance (i : Int) : Except Fault Int64 :=
  if Int64.minValue.toInt ≤ i ∧ i ≤ Int64.maxValue.toInt then .ok (.ofInt i) else .error .balance

def credit (p : Session) (item : ItemId) (amount : Int) : Attempt Session Session :=
  ((balance ((p.held item).toInt + amount)).mapError (·, p)).map fun sum =>
    { p with inventory := p.inventory.insert item sum }

/-- Takes items from an entry if there is one; the balance does not go below zero, and an entry of zero goes. -/
def debit (p : Session) (e : ItemId × UInt32) : Attempt Session Session :=
  match p.inventory.get? e.1 with
  | none => .ok p
  | some held =>
    ((balance (held.toInt - e.2.toNat)).mapError (·, p)).map fun left =>
      { p with inventory := if left ≤ 0 then p.inventory.erase e.1 else p.inventory.insert e.1 left }

/-- What an effect does to its player. Items are taken one after another, so a fault comes after some are gone. -/
def receive (p : Session) : Effect → Attempt Session Session
  | .playSound _ sound => .ok { p with sounds := p.sounds ++ [sound] }
  | .itemGiven _ _ item count => p.credit item count.toNat
  | .itemsRemoved _ _ items => items.foldlM debit p
  | .reward _ item amount => p.credit item amount.toInt

end Session

end Questline
