import Mathlib.Data.Int.Order.Basic
import Mathlib.Data.Nat.Prime.Basic
import Mathlib.Tactic.Ring
import Questline.Proofs.Pay

/-!
# Whole numbers in binary64

A whole number is one of the format when all of it but zeros at the end fits into 53 bits, and `nearest` takes any other to
a neighbour that does. Converting and multiplying whole numbers of the format is done in exact numbers and rounded by
`nearest`, as long as the result is not out of reach; going back to a whole number of 64 bits loses nothing more.
-/

namespace Questline.Binary64

/-- But for zeros at the end, the number has 53 bits or less. -/
def Exact (n : Nat) : Prop := ∃ s q, s < 2 ^ 53 ∧ n = s * 2 ^ q

/-- The number of 53 bits that is nearest to `n`; a tie goes to the even significand. -/
def nearest (n : Nat) : Nat := roundDiv n (2 ^ (n.log2 - 52)) * 2 ^ (n.log2 - 52)

theorem roundDiv_le (n d : Nat) : roundDiv n d ≤ n / d + 1 := by
  unfold roundDiv
  dsimp only
  split <;> omega

theorem roundDiv_one (n : Nat) : roundDiv n 1 = n := by
  rw [roundDiv_of_dvd Nat.one_pos (Nat.one_dvd n), Nat.div_one]

theorem roundDiv_mul_right (n d : Nat) {c : Nat} (hc : 0 < c) : roundDiv (n * c) (d * c) = roundDiv n d := by
  unfold roundDiv
  dsimp only
  rw [Nat.mul_div_mul_right _ _ hc, Nat.mul_mod_mul_right, ← Nat.mul_assoc]
  simp only [Nat.mul_lt_mul_right hc, Nat.mul_left_inj (Nat.ne_of_gt hc)]

/-- Brought to 53 bits by a power of two, a number does not need more. -/
theorem scaled_lt (n : Nat) : n * 2 ^ (52 - n.log2) / 2 ^ (n.log2 - 52) < 2 ^ 53 := by
  refine (Nat.div_lt_iff_lt_mul (Nat.two_pow_pos _)).2 ?_
  calc n * 2 ^ (52 - n.log2) < 2 ^ (n.log2 + 1) * 2 ^ (52 - n.log2) :=
        Nat.mul_lt_mul_of_pos_right Nat.lt_log2_self (Nat.two_pow_pos _)
    _ = 2 ^ (n.log2 + 1 + (52 - n.log2)) := (Nat.pow_add ..).symm
    _ = 2 ^ (53 + (n.log2 - 52)) := congrArg _ (by omega)
    _ = 2 ^ 53 * 2 ^ (n.log2 - 52) := Nat.pow_add ..

theorem exact_nearest (n : Nat) : Exact (nearest n) := by
  have hlt : n / 2 ^ (n.log2 - 52) < 2 ^ 53 :=
    Nat.lt_of_le_of_lt (Nat.div_le_div_right (Nat.le_mul_of_pos_right n (Nat.two_pow_pos _))) (scaled_lt n)
  have hle := roundDiv_le n (2 ^ (n.log2 - 52))
  by_cases hs : roundDiv n (2 ^ (n.log2 - 52)) < 2 ^ 53
  · exact ⟨_, _, hs, rfl⟩
  · -- the significand was rounded up to the next power of two
    have hs : roundDiv n (2 ^ (n.log2 - 52)) = 2 ^ 53 := by omega
    refine ⟨1, 53 + (n.log2 - 52), by decide, ?_⟩
    rw [nearest, hs, Nat.one_mul, Nat.pow_add]

theorem Exact.nearest_eq {n : Nat} (h : Exact n) : nearest n = n := by
  obtain ⟨s, q, hs, hn⟩ := h
  have hdvd : 2 ^ (n.log2 - 52) ∣ n := by
    by_cases hzero : n = 0
    · rw [hzero]
      exact Nat.dvd_zero _
    · have hlog : n.log2 < 53 + q := (Nat.log2_lt hzero).2 <| calc
        n = s * 2 ^ q := hn
        _ < 2 ^ 53 * 2 ^ q := Nat.mul_lt_mul_of_pos_right hs (Nat.two_pow_pos q)
        _ = 2 ^ (53 + q) := (Nat.pow_add ..).symm
      calc 2 ^ (n.log2 - 52) ∣ 2 ^ q := Nat.pow_dvd_pow 2 (by omega)
        _ ∣ s * 2 ^ q := Nat.dvd_mul_left ..
        _ = n := hn.symm
  rw [nearest, roundDiv_of_dvd (Nat.two_pow_pos _) hdvd, Nat.div_mul_cancel hdvd]

theorem nearest_eq_iff {n : Nat} : nearest n = n ↔ Exact n := ⟨fun h => h ▸ exact_nearest n, Exact.nearest_eq⟩

theorem exact_of_le {n : Nat} (h : n ≤ 2 ^ 53) : Exact n := by
  by_cases hn : n = 2 ^ 53
  · exact ⟨1, 53, by decide, by rw [hn, Nat.one_mul]⟩
  · exact ⟨n, 0, by omega, (Nat.mul_one n).symm⟩

theorem Exact.of_dvd {m n : Nat} (h : Exact n) (hn : n ≠ 0) (hm : m ∣ n) : Exact m := by
  obtain ⟨s, q, hs, rfl⟩ := h
  obtain ⟨t, p, ht, hp, rfl⟩ := Nat.dvd_mul.1 hm
  obtain ⟨k, -, rfl⟩ := (Nat.dvd_prime_pow Nat.prime_two).1 hp
  have hpos : 0 < s := Nat.pos_of_ne_zero (Nat.ne_zero_of_mul_ne_zero_left hn)
  exact ⟨t, k, Nat.lt_of_le_of_lt (Nat.le_of_dvd hpos ht) hs, rfl⟩

theorem nearest_le (n : Nat) : nearest n ≤ 2 * n := by
  by_cases hzero : n = 0
  · rw [hzero]
    decide
  · have hdiv := Nat.div_mul_le_self n (2 ^ (n.log2 - 52))
    have hunit : 2 ^ (n.log2 - 52) ≤ n := calc
      2 ^ (n.log2 - 52) ≤ 2 ^ n.log2 := Nat.pow_le_pow_right (by decide) (Nat.sub_le ..)
      _ ≤ n := Nat.log2_self_le hzero
    calc nearest n ≤ (n / 2 ^ (n.log2 - 52) + 1) * 2 ^ (n.log2 - 52) := Nat.mul_le_mul_right _ (roundDiv_le ..)
      _ = n / 2 ^ (n.log2 - 52) * 2 ^ (n.log2 - 52) + 2 ^ (n.log2 - 52) := Nat.succ_mul ..
      _ ≤ 2 * n := by omega

def nearestInt (i : Int) : Int := i.sign * nearest i.natAbs

theorem natAbs_nearestInt (i : Int) : (nearestInt i).natAbs = nearest i.natAbs := by
  rw [nearestInt, Int.natAbs_mul, Int.natAbs_natCast]
  by_cases hi : i = 0
  · rw [hi]
    decide
  · rw [Int.natAbs_sign_of_ne_zero hi, Nat.one_mul]

theorem nearestInt_eq_iff {i : Int} : nearestInt i = i ↔ Exact i.natAbs := by
  rw [← nearest_eq_iff]
  constructor
  · intro h
    rw [← natAbs_nearestInt, h]
  · intro h
    rw [nearestInt, h, Int.sign_mul_natAbs]

/-- When rounding twice leaves a product as it is, the factor was not changed, either. -/
theorem nearestInt_mul_eq_iff (i k : Int) : nearestInt (nearestInt i * k) = i * k ↔ Exact (i * k).natAbs := by
  constructor
  · intro h
    rw [← h, natAbs_nearestInt]
    exact exact_nearest _
  · intro h
    by_cases hzero : i * k = 0
    · have hzero' : nearestInt i * k = 0 := by
        rcases Int.mul_eq_zero.1 hzero with hi | hk
        · rw [hi]
          exact Int.zero_mul k
        · rw [hk, Int.mul_zero]
      rw [hzero', hzero]
      rfl
    · have hi : Exact i.natAbs := h.of_dvd (Int.natAbs_ne_zero.2 hzero) (Int.natAbs_dvd_natAbs.2 (Int.dvd_mul_right i k))
      rw [nearestInt_eq_iff.2 hi, nearestInt_eq_iff.2 h]

/-- The value `s · 2 ^ e` is `n`. -/
def HasValue (s : Nat) (e : Int) (n : Nat) : Prop := s * 2 ^ e.toNat = n * 2 ^ (-e).toNat

/-- The sign of `i`; a zero may have either. -/
def HasSign (negative : Bool) (i : Int) : Prop := i = 0 ∨ negative = decide (i < 0)

def Denotes : Binary64 → Int → Prop
  | .finite negative s e _, i => HasValue s e i.natAbs ∧ HasSign negative i
  | _, _ => False

instance (s : Nat) (e : Int) (n : Nat) : Decidable (HasValue s e n) := inferInstanceAs (Decidable (_ = _))

instance (negative : Bool) (i : Int) : Decidable (HasSign negative i) := inferInstanceAs (Decidable (_ ∨ _))

instance : (x : Binary64) → (i : Int) → Decidable (x.Denotes i)
  | .finite .., _ => inferInstanceAs (Decidable (_ ∧ _))
  | .nan, _ | .infinite _, _ => inferInstanceAs (Decidable False)

/-- Twice the significand is one more in the exponent. -/
theorem HasValue.halve {s n : Nat} {e : Int} (h : HasValue (s * 2) e n) : HasValue s (e + 1) n := by
  unfold HasValue at h ⊢
  rw [Nat.mul_assoc] at h
  obtain ⟨hup, hdown⟩ | ⟨hup, hdown⟩ := two_pow_succ e
  · rwa [hup, hdown]
  · rw [hdown, Nat.mul_left_comm, Nat.mul_left_comm n] at h
    rw [hup]
    exact Nat.eq_of_mul_eq_mul_left (by decide) h

theorem HasValue.mul {s t m n : Nat} {e f : Int} (hs : HasValue s e m) (ht : HasValue t f n) :
    HasValue (s * t) (e + f) (m * n) := by
  unfold HasValue at hs ht ⊢
  have hexp : (e + f).toNat + ((-e).toNat + (-f).toNat) = (-(e + f)).toNat + (e.toNat + f.toNat) := by omega
  refine Nat.eq_of_mul_eq_mul_right (Nat.two_pow_pos (e.toNat + f.toNat)) ?_
  calc s * t * 2 ^ (e + f).toNat * 2 ^ (e.toNat + f.toNat)
      = s * 2 ^ e.toNat * (t * 2 ^ f.toNat) * 2 ^ (e + f).toNat := by ring
    _ = m * 2 ^ (-e).toNat * (n * 2 ^ (-f).toNat) * 2 ^ (e + f).toNat := by rw [hs, ht]
    _ = m * n * 2 ^ ((e + f).toNat + ((-e).toNat + (-f).toNat)) := by ring
    _ = m * n * 2 ^ (-(e + f)).toNat * 2 ^ (e.toNat + f.toNat) := by rw [hexp]; ring

theorem HasSign.signed {i : Int} {negative : Bool} (h : HasSign negative i) :
    (if negative then -(i.natAbs : Int) else i.natAbs) = i := by
  rcases h with rfl | rfl
  · cases negative <;> rfl
  · by_cases hi : i < 0
    · rw [decide_eq_true hi, if_pos rfl]
      omega
    · rw [decide_eq_false hi, if_neg Bool.false_ne_true]
      omega

theorem HasSign.mul {i k : Int} {a b : Bool} (hi : HasSign a i) (hk : HasSign b k) : HasSign (a != b) (i * k) := by
  rcases hi with rfl | rfl
  · exact .inl (Int.zero_mul k)
  rcases hk with rfl | rfl
  · exact .inl (Int.mul_zero i)
  by_cases hzero : i * k = 0
  · exact .inl hzero
  · obtain ⟨hi, hk⟩ := Int.mul_ne_zero_iff.1 hzero
    refine .inr ?_
    rw [Bool.eq_iff_iff, bne_iff_ne, ne_eq, decide_eq_decide, decide_eq_true_iff, Int.mul_neg_iff]
    omega

theorem HasSign.nearestInt {i : Int} {negative : Bool} (h : HasSign negative i) : HasSign negative (nearestInt i) := by
  unfold Binary64.nearestInt
  rcases Int.lt_trichotomy i 0 with hi | rfl | hi
  · rw [Int.sign_eq_neg_one_of_neg hi]
    rw [HasSign, decide_eq_true hi] at h
    by_cases hzero : nearest i.natAbs = 0
    · exact .inl (by omega)
    · exact .inr ((h.resolve_left (by omega)).trans (decide_eq_true (by omega)).symm)
  · exact .inl (Int.zero_mul _)
  · rw [Int.sign_eq_one_of_pos hi]
    rw [HasSign, decide_eq_false (by omega)] at h
    exact .inr ((h.resolve_left (by omega)).trans (decide_eq_false (by omega)).symm)

section Rounding

variable {m : Nat} (j : Nat)

/-- Brought to 53 bits, a number fills them. -/
theorem le_scaled (hm : m ≠ 0) : 2 ^ 52 ≤ m * 2 ^ (52 - m.log2) / 2 ^ (m.log2 - 52) := by
  refine (Nat.le_div_iff_mul_le (Nat.two_pow_pos _)).2 ?_
  calc 2 ^ 52 * 2 ^ (m.log2 - 52) = 2 ^ (52 + (m.log2 - 52)) := (Nat.pow_add ..).symm
    _ = 2 ^ (m.log2 + (52 - m.log2)) := congrArg _ (by omega)
    _ = 2 ^ m.log2 * 2 ^ (52 - m.log2) := Nat.pow_add ..
    _ ≤ m * 2 ^ (52 - m.log2) := Nat.mul_le_mul_right _ (Nat.log2_self_le hm)

theorem roundDiv_scaled : roundDiv (m * 2 ^ (52 - m.log2)) (2 ^ (m.log2 - 52)) * 2 ^ (m.log2 - 52) =
    nearest m * 2 ^ (52 - m.log2) := by
  unfold nearest
  rcases Nat.le_total m.log2 52 with hlow | hhigh
  · rw [Nat.sub_eq_zero_of_le hlow, Nat.pow_zero, roundDiv_one, roundDiv_one, Nat.mul_one, Nat.mul_one]
  · rw [Nat.sub_eq_zero_of_le hhigh, Nat.pow_zero, Nat.mul_one, Nat.mul_one]

theorem log2_shifted (hm : m ≠ 0) : (m * 2 ^ j).log2 = m.log2 + j := by
  refine (Nat.log2_eq_iff (Nat.mul_ne_zero hm (Nat.ne_of_gt (Nat.two_pow_pos j)))).2 ⟨?_, ?_⟩
  · rw [Nat.pow_add]
    exact Nat.mul_le_mul_right _ (Nat.log2_self_le hm)
  · rw [Nat.add_right_comm, Nat.pow_add]
    exact Nat.mul_lt_mul_of_pos_right Nat.lt_log2_self (Nat.two_pow_pos j)

theorem scaleDown_shifted : scaleDown (m * 2 ^ j) (2 ^ j) ((m.log2 : Int) - 52) =
    (m * 2 ^ (52 - m.log2) * 2 ^ j, 2 ^ (m.log2 - 52) * 2 ^ j) := by
  have hup : (-((m.log2 : Int) - 52)).toNat = 52 - m.log2 := by omega
  have hdown : ((m.log2 : Int) - 52).toNat = m.log2 - 52 := by omega
  rw [scaleDown, hup, hdown, Nat.shiftLeft_eq, Nat.shiftLeft_eq, Nat.mul_right_comm, Nat.mul_comm (2 ^ j)]

theorem exponentFor_shifted (hm : m ≠ 0) : exponentFor (m * 2 ^ j) (2 ^ j) = (m.log2 : Int) - 52 := by
  have hexp : ((m * 2 ^ j).log2 : Int) - ((2 ^ j).log2 : Int) - 52 = (m.log2 : Int) - 52 := by
    rw [log2_shifted j hm, Nat.log2_two_pow]
    omega
  unfold exponentFor
  dsimp only
  rw [hexp, scaleDown_shifted, Nat.mul_div_mul_right _ _ (Nat.two_pow_pos j), Nat.one_shiftLeft,
    if_neg (Nat.not_lt.2 (le_scaled hm))]
  omega

/-- A whole number that is given as a fraction, both parts of which were multiplied by a power of two, is rounded to the
nearest number of 53 bits. -/
theorem ofRatio_shifted (hm : m ≠ 0) (hlog : m.log2 < 1022) (negative : Bool) :
    ∃ s e h, ofRatio negative (m * 2 ^ j) (2 ^ j) = .finite negative s e h ∧ HasValue s e (nearest m) := by
  have hup : (-((m.log2 : Int) - 52)).toNat = 52 - m.log2 := by omega
  have hdown : ((m.log2 : Int) - 52).toNat = m.log2 - 52 := by omega
  have hlow := Nat.le_trans (le_scaled hm) (le_roundDiv _ _)
  have hhigh := Nat.le_trans (roundDiv_le _ _) (Nat.succ_le_of_lt (scaled_lt m))
  have hvalue := roundDiv_scaled (m := m)
  unfold ofRatio
  rw [if_neg (Nat.mul_ne_zero hm (Nat.ne_of_gt (Nat.two_pow_pos j)))]
  dsimp only
  rw [exponentFor_shifted j hm, scaleDown_shifted]
  dsimp only
  rw [roundDiv_mul_right _ _ (Nat.two_pow_pos j)]
  generalize roundDiv (m * 2 ^ (52 - m.log2)) (2 ^ (m.log2 - 52)) = s at hlow hhigh hvalue
  rw [← hup, ← hdown] at hvalue
  split
  · next hs =>
    have hc : Canonical (1 <<< 52) ((m.log2 : Int) - 52 + 1) := by
      refine ⟨?_, ?_, ?_, .inl ?_⟩ <;> omega
    rw [hs] at hvalue
    exact ⟨_, _, hc, dif_pos hc, HasValue.halve hvalue⟩
  · have hc : Canonical s ((m.log2 : Int) - 52) := by
      refine ⟨?_, ?_, ?_, .inl ?_⟩ <;> omega
    exact ⟨_, _, hc, dif_pos hc, hvalue⟩

end Rounding

theorem denotes_zero (negative : Bool) : (zero negative).Denotes 0 := by
  refine ⟨?_, .inl rfl⟩
  rw [HasValue, Nat.zero_mul, Int.natAbs_zero, Nat.zero_mul]

theorem denotes_ofRatio {i : Int} (hi : i.natAbs.log2 < 1022) (j : Nat) {negative : Bool} (hsign : HasSign negative i) :
    (ofRatio negative (i.natAbs * 2 ^ j) (2 ^ j)).Denotes (nearestInt i) := by
  by_cases hzero : i = 0
  · rw [hzero, Int.natAbs_zero, Nat.zero_mul, ofRatio, if_pos rfl]
    exact denotes_zero negative
  · obtain ⟨s, e, h, heq, hvalue⟩ := ofRatio_shifted j (Int.natAbs_ne_zero.2 hzero) hi negative
    rw [heq]
    rw [← natAbs_nearestInt] at hvalue
    exact ⟨hvalue, hsign.nearestInt⟩

theorem denotes_ofInt {i : Int} (hi : i.natAbs.log2 < 1022) : (ofInt i).Denotes (nearestInt i) := by
  have h := denotes_ofRatio hi 0 (.inr rfl)
  rwa [Nat.pow_zero, Nat.mul_one] at h

theorem Denotes.mul {x y : Binary64} {i k : Int} (hx : x.Denotes i) (hy : y.Denotes k) (h : (i * k).natAbs.log2 < 1022) :
    (x.mul y).Denotes (nearestInt (i * k)) := by
  cases x with
  | nan | infinite => cases hx
  | finite a s e hs =>
    cases y with
    | nan | infinite => cases hy
    | finite b t f ht =>
      have hvalue := hx.1.mul hy.1
      rw [← Int.natAbs_mul, HasValue] at hvalue
      show (ofRatio (a != b) ((s * t) <<< (e + f).toNat) (1 <<< (-(e + f)).toNat)).Denotes _
      rw [Nat.shiftLeft_eq, Nat.one_shiftLeft, hvalue]
      exact denotes_ofRatio h _ (hx.2.mul hy.2)

theorem Denotes.floorToInt64 {x : Binary64} {i : Int} (h : x.Denotes i) : x.floorToInt64 = saturate i := by
  cases x with
  | nan | infinite => cases h
  | finite negative s e hs =>
    obtain ⟨hvalue, hsign⟩ := h
    have hpos : ((2 ^ (-e).toNat : Nat) : Int) ≠ 0 := by exact_mod_cast Nat.ne_of_gt (Nat.two_pow_pos _)
    show saturate (floorScaled negative s e) = saturate i
    unfold floorScaled
    dsimp only
    rw [Nat.shiftLeft_eq, Nat.one_shiftLeft, hvalue, Int.natCast_mul, ← Int.neg_mul, ← ite_mul, hsign.signed,
      Int.mul_ediv_cancel _ hpos]

/-- Both numbers reach the same end of the range of 64 bits. -/
def SameEnd (i k : Int) : Prop :=
  (Int64.maxValue.toInt ≤ i ∧ Int64.maxValue.toInt ≤ k) ∨ (i ≤ Int64.minValue.toInt ∧ k ≤ Int64.minValue.toInt)

theorem toInt_saturate (i : Int) : (saturate i).toInt = max Int64.minValue.toInt (min Int64.maxValue.toInt i) := by
  rw [saturate, Int64.toInt_minValue, Int64.toInt_maxValue, Int64.toInt_ofInt_of_le (by omega) (by omega)]

theorem saturate_eq_iff {i k : Int} : saturate i = saturate k ↔ i = k ∨ SameEnd i k := by
  rw [← Int64.toInt_inj, toInt_saturate, toInt_saturate, SameEnd, Int64.toInt_minValue, Int64.toInt_maxValue]
  omega

theorem saturate_toInt (i : Int64) : saturate i.toInt = i := by
  have hlow := i.minValue_le_toInt
  have hhigh := i.toInt_le
  rw [saturate, Int.min_eq_right hhigh, Int.max_eq_right hlow, Int64.ofInt_toInt]

end Questline.Binary64
