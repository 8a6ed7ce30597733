/-!
Numbers of the IEEE 754 format binary64, with all NaNs taken as one.

Arithmetic is exact on naturals and integers and is rounded once, by `ofRatio`: to the nearest number of the
format, a tie going to the even significand.
-/

namespace Questline

/-- The format's own choice among the pairs that stand for one value: the significand is full, or the
exponent is as low as it goes. -/
def Binary64.Canonical (significand : Nat) (exponent : Int) : Prop :=
  significand < 1 <<< 53 ∧ -1074 ≤ exponent ∧ exponent ≤ 971 ∧ (1 <<< 52 ≤ significand ∨ exponent = -1074)

instance (significand : Nat) (exponent : Int) : Decidable (Binary64.Canonical significand exponent) :=
  inferInstanceAs (Decidable (_ ∧ _ ∧ _ ∧ _))

/-- A finite number is `± significand · 2 ^ exponent`. -/
inductive Binary64 where
  | nan
  | infinite (negative : Bool)
  | finite (negative : Bool) (significand : Nat) (exponent : Int)
      (canonical : Binary64.Canonical significand exponent)
  deriving DecidableEq, Repr

namespace Binary64

def zero (negative : Bool) : Binary64 := .finite negative 0 (-1074) (by decide)

def one : Binary64 := .finite false (1 <<< 52) (-52) (by decide)

instance : Inhabited Binary64 := ⟨zero false⟩

/-- What does not fit the format is too large for it. -/
def ofParts (negative : Bool) (significand : Nat) (exponent : Int) : Binary64 :=
  if h : Canonical significand exponent then .finite negative significand exponent h
  else .infinite negative

/-- The natural number nearest to `n / d`; of two the even one. -/
def roundDiv (n d : Nat) : Nat :=
  let q := n / d
  let r := n % d
  if d < 2 * r ∨ (2 * r = d ∧ q % 2 = 1) then q + 1 else q

theorem roundDiv_of_dvd {n d : Nat} (hd : 0 < d) (h : d ∣ n) : roundDiv n d = n / d := by
  have : n % d = 0 := Nat.mod_eq_zero_of_dvd h
  simp only [roundDiv, this]
  rw [if_neg]
  omega

/-- The fraction `n / d`, divided by `2 ^ e`, as a numerator and a denominator. -/
def scaleDown (n d : Nat) (e : Int) : Nat × Nat :=
  (n <<< (-e).toNat, d <<< e.toNat)

/-- The exponent at which the significand of `n / d` has 53 bits, unless that is below the format. -/
def exponentFor (n d : Nat) : Int :=
  let e := (n.log2 : Int) - (d.log2 : Int) - 52
  let (n', d') := scaleDown n d e
  max (-1074) (if n' / d' < 1 <<< 52 then e - 1 else e)

def ofRatio (negative : Bool) (n d : Nat) : Binary64 :=
  if n = 0 then zero negative
  else
    let e := exponentFor n d
    let (n', d') := scaleDown n d e
    let s := roundDiv n' d'
    if s = 1 <<< 53 then ofParts negative (1 <<< 52) (e + 1) else ofParts negative s e

def ofScaled (negative : Bool) (s : Nat) (e : Int) : Binary64 :=
  ofRatio negative (s <<< e.toNat) (1 <<< (-e).toNat)

def ofInt (i : Int) : Binary64 := ofRatio (decide (i < 0)) i.natAbs 1

def mul : Binary64 → Binary64 → Binary64
  | .nan, _ => .nan
  | _, .nan => .nan
  | .infinite a, .infinite b => .infinite (a != b)
  | .infinite a, .finite b s _ _ => if s = 0 then .nan else .infinite (a != b)
  | .finite a s _ _, .infinite b => if s = 0 then .nan else .infinite (a != b)
  | .finite a s e _, .finite b t f _ => ofScaled (a != b) (s * t) (e + f)

/-- The greatest integer not above `± s · 2 ^ e`. -/
def floorScaled (negative : Bool) (s : Nat) (e : Int) : Int :=
  let n : Nat := s <<< e.toNat
  let d : Nat := 1 <<< (-e).toNat
  (if negative then -(n : Int) else n) / d

def saturate (i : Int) : Int64 :=
  Int64.ofInt (max Int64.minValue.toInt (min Int64.maxValue.toInt i))

/-- Rounded down, then brought into the range of 64 bits; NaN counts as zero. -/
def floorToInt64 : Binary64 → Int64
  | .nan => 0
  | .infinite negative => if negative then Int64.minValue else Int64.maxValue
  | .finite negative s e _ => saturate (floorScaled negative s e)

def isFinite : Binary64 → Bool
  | .finite .. => true
  | _ => false

/-- Less than zero; `-0` and NaN are not. -/
def isNegative : Binary64 → Bool
  | .nan => false
  | .infinite negative => negative
  | .finite negative s _ _ => negative && s != 0

private theorem canonical_of_bits {biased fraction : Nat} (hf : fraction < 1 <<< 52) (hb : biased < 2047)
    (h0 : biased ≠ 0) : Canonical (1 <<< 52 + fraction) ((biased : Int) - 1075) := by
  refine ⟨?_, ?_, ?_, Or.inl ?_⟩ <;> omega

private theorem canonical_of_fraction {fraction : Nat} (hf : fraction < 1 <<< 52) :
    Canonical fraction (-1074) := by
  refine ⟨?_, ?_, ?_, Or.inr rfl⟩ <;> omega

def ofBits (bits : UInt64) : Binary64 :=
  let negative := 1 <<< 63 ≤ bits.toNat
  let biased : Nat := bits.toNat >>> 52 % 1 <<< 11
  let fraction : Nat := bits.toNat % 1 <<< 52
  have hf : fraction < 1 <<< 52 := Nat.mod_lt _ (by decide)
  if h0 : biased = 0 then .finite negative fraction (-1074) (canonical_of_fraction hf)
  else if hb : biased < 2047 then
    .finite negative (1 <<< 52 + fraction) ((biased : Int) - 1075) (canonical_of_bits hf hb h0)
  else if fraction = 0 then .infinite negative
  else .nan

def toBits : Binary64 → UInt64
  | .nan => 0x7ff8000000000000
  | .infinite negative => if negative then 0xfff0000000000000 else 0x7ff0000000000000
  | .finite negative s e _ =>
    let sign := if negative then 1 <<< 63 else 0
    if s < 1 <<< 52 then UInt64.ofNat (sign + s)
    else UInt64.ofNat (sign + (e + 1075).toNat <<< 52 + (s - 1 <<< 52))

end Binary64

end Questline
