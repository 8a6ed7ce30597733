import Mathlib.Algebra.Group.Nat.Defs
import Questline.Rates

/-!
# Pay at rates of at least one

Rounding goes to the nearest number of the format, and one is a number of the format. So a value of at least one stays at
or above one: when a fraction is rounded, when two such numbers are multiplied, and when a number goes down to a whole one.
At a rate of at least one, a positive amount is therefore paid as a positive amount.
-/

namespace Questline

namespace Binary64

/-- The value `s · 2 ^ e` is not below one. -/
def ReachesOne (s : Nat) (e : Int) : Prop := 2 ^ (-e).toNat ≤ s * 2 ^ e.toNat

def AtLeastOne : Binary64 → Prop
  | .nan => False
  | .infinite negative => negative = false
  | .finite negative s e _ => negative = false ∧ ReachesOne s e

theorem atLeastOne_one : one.AtLeastOne := by
  refine ⟨rfl, ?_⟩
  unfold ReachesOne
  decide

theorem ReachesOne.pos {s : Nat} {e : Int} (h : ReachesOne s e) : 0 < s := by
  refine Nat.pos_of_ne_zero fun hs => ?_
  unfold ReachesOne at h
  rw [hs, Nat.zero_mul] at h
  exact absurd (Nat.two_pow_pos _) (Nat.not_lt.2 h)

theorem ReachesOne.mono {s t : Nat} {e : Int} (h : ReachesOne s e) (hst : s ≤ t) : ReachesOne t e :=
  Nat.le_trans h (Nat.mul_le_mul_right _ hst)

theorem two_pow_succ (e : Int) :
    2 ^ (e + 1).toNat = 2 * 2 ^ e.toNat ∧ 2 ^ (-(e + 1)).toNat = 2 ^ (-e).toNat ∨
      2 ^ (e + 1).toNat = 2 ^ e.toNat ∧ 2 ^ (-e).toNat = 2 * 2 ^ (-(e + 1)).toNat := by
  by_cases he : 0 ≤ e
  · have hup : (e + 1).toNat = e.toNat + 1 := by omega
    have hdown : (-(e + 1)).toNat = (-e).toNat := by omega
    rw [hup, hdown]
    exact .inl ⟨Nat.pow_succ', rfl⟩
  · have hup : (e + 1).toNat = e.toNat := by omega
    have hdown : (-e).toNat = (-(e + 1)).toNat + 1 := by omega
    rw [hup, hdown]
    exact .inr ⟨rfl, Nat.pow_succ'⟩

/-- Twice the significand is one more in the exponent. -/
theorem ReachesOne.halve {s : Nat} {e : Int} (h : ReachesOne (s * 2) e) : ReachesOne s (e + 1) := by
  unfold ReachesOne at h ⊢
  rw [Nat.mul_assoc] at h
  obtain ⟨hup, hdown⟩ | ⟨hup, hdown⟩ := two_pow_succ e
  · rwa [hup, hdown]
  · rw [hdown, Nat.mul_left_comm] at h
    rw [hup]
    exact Nat.le_of_mul_le_mul_left h (by decide)

theorem ReachesOne.mul {s t : Nat} {e f : Int} (hs : ReachesOne s e) (ht : ReachesOne t f) :
    ReachesOne (s * t) (e + f) := by
  unfold ReachesOne at hs ht ⊢
  have hst := Nat.mul_le_mul hs ht
  -- both sides are compared after they were brought to the common denominator of the factors
  have hexp : (e + f).toNat + ((-e).toNat + (-f).toNat) = (-(e + f)).toNat + (e.toNat + f.toNat) := by omega
  refine Nat.le_of_mul_le_mul_right ?_ (Nat.two_pow_pos ((-e).toNat + (-f).toNat))
  calc 2 ^ (-(e + f)).toNat * 2 ^ ((-e).toNat + (-f).toNat)
      = 2 ^ (-(e + f)).toNat * (2 ^ (-e).toNat * 2 ^ (-f).toNat) := by rw [Nat.pow_add]
    _ ≤ 2 ^ (-(e + f)).toNat * (s * 2 ^ e.toNat * (t * 2 ^ f.toNat)) := Nat.mul_le_mul_left _ hst
    _ = s * t * 2 ^ ((-(e + f)).toNat + (e.toNat + f.toNat)) := by rw [Nat.pow_add, Nat.pow_add]; ac_rfl
    _ = s * t * 2 ^ (e + f).toNat * 2 ^ ((-e).toNat + (-f).toNat) := by rw [← hexp, Nat.pow_add]; ac_rfl

theorem le_roundDiv (n d : Nat) : n / d ≤ roundDiv n d := by
  unfold roundDiv
  dsimp only
  split <;> omega

/-- The exponent is lower than the value allows, unless the value is small. -/
theorem exponentFor_le (n d : Nat) : exponentFor n d ≤ max 0 ((n.log2 : Int) - d.log2 - 1) := by
  unfold exponentFor
  dsimp only
  split <;> omega

/-- A fraction of at least one, divided by the power of its exponent, keeps one within reach. -/
theorem reachesOne_scaleDown {n d : Nat} (hd : 0 < d) (h : d ≤ n) {e : Int}
    (he : e ≤ max 0 ((n.log2 : Int) - d.log2 - 1)) :
    ReachesOne ((scaleDown n d e).1 / (scaleDown n d e).2) e := by
  unfold ReachesOne scaleDown
  dsimp only
  rw [Nat.shiftLeft_eq, Nat.shiftLeft_eq]
  by_cases hneg : e ≤ 0
  · have hup : e.toNat = 0 := by omega
    rw [hup, Nat.pow_zero, Nat.mul_one, Nat.mul_one]
    refine (Nat.le_div_iff_mul_le hd).2 ?_
    rw [Nat.mul_comm]
    exact Nat.mul_le_mul_right _ h
  · have hdown : (-e).toNat = 0 := by omega
    have hlog : d.log2 + 1 + e.toNat ≤ n.log2 := by omega
    have hpos : 0 < d * 2 ^ e.toNat := Nat.mul_pos hd (Nat.two_pow_pos _)
    have hle : d * 2 ^ e.toNat ≤ n := calc
      d * 2 ^ e.toNat ≤ 2 ^ (d.log2 + 1) * 2 ^ e.toNat := Nat.mul_le_mul_right _ (Nat.le_of_lt Nat.lt_log2_self)
      _ = 2 ^ (d.log2 + 1 + e.toNat) := (Nat.pow_add ..).symm
      _ ≤ 2 ^ n.log2 := Nat.pow_le_pow_right (by decide) hlog
      _ ≤ n := Nat.log2_self_le (by omega)
    rw [hdown, Nat.pow_zero, Nat.mul_one]
    exact Nat.mul_pos (Nat.div_pos hle hpos) (Nat.two_pow_pos _)

theorem atLeastOne_ofParts {s : Nat} {e : Int} (h : ReachesOne s e) : (ofParts false s e).AtLeastOne := by
  unfold ofParts
  split
  · exact ⟨rfl, h⟩
  · exact rfl

theorem atLeastOne_ofRatio {n d : Nat} (hd : 0 < d) (h : d ≤ n) : (ofRatio false n d).AtLeastOne := by
  have hreach := (reachesOne_scaleDown hd h (exponentFor_le n d)).mono (le_roundDiv _ _)
  unfold ofRatio
  rw [if_neg (by omega)]
  dsimp only
  split
  · next hs =>
    rw [hs] at hreach
    exact atLeastOne_ofParts hreach.halve
  · exact atLeastOne_ofParts hreach

theorem atLeastOne_ofScaled {s : Nat} {e : Int} (h : ReachesOne s e) : (ofScaled false s e).AtLeastOne := by
  unfold ofScaled
  rw [Nat.shiftLeft_eq, Nat.shiftLeft_eq, Nat.one_mul]
  exact atLeastOne_ofRatio (Nat.two_pow_pos _) h

theorem atLeastOne_ofInt {i : Int} (h : 0 < i) : (ofInt i).AtLeastOne := by
  unfold ofInt
  rw [decide_eq_false (by omega)]
  exact atLeastOne_ofRatio (by decide) (by omega)

theorem AtLeastOne.mul {x y : Binary64} (hx : x.AtLeastOne) (hy : y.AtLeastOne) : (x.mul y).AtLeastOne := by
  cases x with
  | nan => cases hx
  | infinite a =>
    cases hx
    cases y with
    | nan => cases hy
    | infinite b =>
      cases hy
      rfl
    | finite b t f ht =>
      obtain ⟨rfl, hf⟩ := hy
      show (if t = 0 then nan else infinite false).AtLeastOne
      rw [if_neg (Nat.ne_of_gt hf.pos)]
      rfl
  | finite a s e hs =>
    obtain ⟨rfl, he⟩ := hx
    cases y with
    | nan => cases hy
    | infinite b =>
      cases hy
      show (if s = 0 then nan else infinite false).AtLeastOne
      rw [if_neg (Nat.ne_of_gt he.pos)]
      rfl
    | finite b t f ht =>
      obtain ⟨rfl, hf⟩ := hy
      exact atLeastOne_ofScaled (he.mul hf)

theorem saturate_pos {i : Int} (h : 1 ≤ i) : 0 < saturate i := by
  unfold saturate
  rw [Int64.lt_iff_toInt_lt, Int64.toInt_minValue, Int64.toInt_maxValue, Int64.toInt_zero,
    Int64.toInt_ofInt_of_le (by omega) (by omega)]
  omega

theorem AtLeastOne.floorToInt64_pos {x : Binary64} (h : x.AtLeastOne) : 0 < x.floorToInt64 := by
  cases x with
  | nan => cases h
  | infinite negative =>
    cases h
    decide
  | finite negative s e hc =>
    obtain ⟨rfl, he⟩ := h
    refine saturate_pos ?_
    unfold ReachesOne at he
    unfold floorScaled
    dsimp only
    rw [Nat.shiftLeft_eq, Nat.shiftLeft_eq, Nat.one_mul, if_neg Bool.false_ne_true]
    exact Int.le_ediv_of_mul_le (by exact_mod_cast Nat.two_pow_pos _) (by omega)

end Binary64

namespace Rates

theorem scale_pos {r : Rates} (hr : r.currency.AtLeastOne) {amount : Int64} (h : 0 < amount) : 0 < r.scale amount := by
  rw [Int64.lt_iff_toInt_lt, Int64.toInt_zero] at h
  exact ((Binary64.atLeastOne_ofInt h).mul hr).floorToInt64_pos

end Rates

end Questline
