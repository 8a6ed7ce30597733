/-!
Hexadecimal numerals, and the characters that such numbers name.
-/

namespace Questline.Hex

def digit (n : Nat) : Char := Nat.digitChar n

def digitValue? (c : Char) : Option Nat :=
  if '0' ≤ c ∧ c ≤ '9' then some (c.toNat - '0'.toNat)
  else if 'a' ≤ c ∧ c ≤ 'f' then some (c.toNat - 'a'.toNat + 10)
  else if 'A' ≤ c ∧ c ≤ 'F' then some (c.toNat - 'A'.toNat + 10)
  else none

def isDigit (c : Char) : Bool := (digitValue? c).isSome

def valueFrom? : Nat → List Char → Option Nat
  | n, [] => some n
  | n, c :: rest =>
    match digitValue? c with
    | some d => valueFrom? (n * 16 + d) rest
    | none => none

def value? (ds : List Char) : Option Nat := valueFrom? 0 ds

/-- Surrogates and numbers beyond the last character name none. -/
def char? (n : Nat) : Option Char := if n.isValidChar then some (Char.ofNat n) else none

end Questline.Hex
