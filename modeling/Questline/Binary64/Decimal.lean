import Questline.Binary64

/-!
Decimal text of binary64 numbers: reading rounds to nearest, and `shortest` gives the fewest digits that
read back.
-/

namespace Questline

/-- The value `digits · 10 ^ exponent`. -/
structure Decimal where
  digits : Nat
  exponent : Int
  deriving DecidableEq, Repr

namespace Decimal

/-- How many digits stand left of the point; the value lies below that power of ten. -/
def magnitude (d : Decimal) : Int := (Nat.toDigits 10 d.digits).length + d.exponent

/-- The nearest number of the format. Beyond the magnitudes tested first every value rounds alike, so no
power of ten larger than the format needs is formed. -/
def toBinary64 (negative : Bool) (d : Decimal) : Binary64 :=
  if d.digits = 0 then .zero negative
  else if 310 < d.magnitude then .infinite negative
  else if d.magnitude < -330 then .zero negative
  else .ofRatio negative (d.digits * Nat.pow 10 d.exponent.toNat) (Nat.pow 10 (-d.exponent).toNat)

def positional (d : Decimal) : String :=
  let ds := Nat.toDigits 10 d.digits
  if 0 ≤ d.exponent then String.ofList (ds ++ List.replicate d.exponent.toNat '0')
  else
    let places := (-d.exponent).toNat
    let ds := List.replicate (places + 1 - ds.length) '0' ++ ds
    let whole := ds.take (ds.length - places)
    let fraction := ((ds.drop (ds.length - places)).reverse.dropWhile (· == '0')).reverse
    String.ofList (if fraction.isEmpty then whole else whole ++ '.' :: fraction)

/-- The two neighbours of `n / d` on the grid of multiples of `10 ^ e`, with the nearer one first and the
upper one first on a tie. -/
def neighbours (n d : Nat) (e : Int) : List Decimal :=
  let n := n * Nat.pow 10 (-e).toNat
  let d := d * Nat.pow 10 e.toNat
  let low : Decimal := ⟨n / d, e⟩
  let high : Decimal := ⟨n / d + 1, e⟩
  if 2 * (n % d) < d then [low, high] else [high, low]

end Decimal

namespace Binary64

/-- How many digits the whole part of `n / d` has, or minus the zeros that follow the point. -/
def decimalMagnitude (n d : Nat) : Int :=
  if d ≤ n then (Nat.toDigits 10 (n / d)).length
  else 1 - (Nat.toDigits 10 ((d + n - 1) / n - 1)).length

/-- The first decimal that reads back, on ever finer grids: the fewest digits, and of those the nearest. -/
def shortestFrom (x : Binary64) (negative : Bool) (n d : Nat) (e : Int) : Nat → Decimal
  | 0 => (Decimal.neighbours n d e).headD ⟨0, 0⟩
  | more + 1 =>
    match (Decimal.neighbours n d e).find? fun c => decide (c.toBinary64 negative = x) with
    | some c => c
    | none => shortestFrom x negative n d (e - 1) more

/-- The decimal with the fewest digits that reads back as the finite number `± s · 2 ^ e`. Seventeen digits
always do. -/
def shortest (negative : Bool) (s : Nat) (e : Int) (h : Canonical s e) : Decimal :=
  if s = 0 then ⟨0, 0⟩
  else
    let n := s <<< e.toNat
    let d := 1 <<< (-e).toNat
    shortestFrom (.finite negative s e h) negative n d (decimalMagnitude n d - 1) 17

def toText : Binary64 → String
  | .nan => "NaN"
  | .infinite negative => if negative then "-inf" else "inf"
  | .finite negative s e h =>
    (if negative then "-" else "") ++ (shortest negative s e h).positional

end Binary64

end Questline
