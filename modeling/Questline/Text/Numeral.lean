/-!
Decimal numerals as lists of characters. `value_digits` says that a numeral denotes the number it was made
from, also when zeros were put in front of it. `takeWhile_digits` and `dropWhile_digits` say that a run of digits is
found in a text in which no other digit follows it.
-/

namespace Questline.Numeral

def digits (n : Nat) : List Char := Nat.toDigits 10 n

def value (ds : List Char) : Nat := Nat.ofDigitChars 10 ds 0

def padded (width n : Nat) : List Char :=
  List.replicate (width - (digits n).length) '0' ++ digits n

def ofInt : Int → List Char
  | .ofNat n => digits n
  | .negSucc n => '-' :: digits (n + 1)

/-- The digits at the front of a text, and what follows them. -/
def split (cs : List Char) : List Char × List Char := cs.span Char.isDigit

theorem value_digits (n : Nat) : value (digits n) = n :=
  Nat.ofDigitChars_toDigits (by decide) (by decide)

theorem isDigit_of_mem_digits {n : Nat} {c : Char} (h : c ∈ digits n) : c.isDigit = true :=
  Nat.isDigit_of_mem_toDigits (by decide) (by decide) h

theorem value_replicate_append (k : Nat) (ds : List Char) :
    value (List.replicate k '0' ++ ds) = value ds := by
  induction k with
  | zero => rfl
  | succ k ih => rw [List.replicate_succ, List.cons_append]; exact ih

theorem value_padded (width n : Nat) : value (padded width n) = n := by
  rw [padded, value_replicate_append, value_digits]

theorem value_append_zeros (ds : List Char) (k : Nat) : value (ds ++ List.replicate k '0') = value ds * Nat.pow 10 k := by
  rw [value, Nat.ofDigitChars_append, Nat.ofDigitChars_replicate_zero, Nat.mul_comm]
  rfl

theorem digits_ne_nil (n : Nat) : digits n ≠ [] := List.ne_nil_of_length_pos Nat.length_toDigits_pos

theorem length_digits_le {width n : Nat} (hw : 0 < width) (h : n < Nat.pow 10 width) : (digits n).length ≤ width :=
  (Nat.length_toDigits_le_iff (by decide) hw).2 h

/-- Only the numeral of zero begins with a zero. -/
theorem digits_cases (n : Nat) : digits n = ['0'] ∨ ∃ d ds, digits n = d :: ds ∧ d ≠ '0' := by
  induction n using Nat.strongRecOn with
  | ind n ih =>
    unfold digits at ih ⊢
    rw [Nat.toDigits_eq_if (by decide)]
    split
    · by_cases hn : n = 0
      · exact .inl (by rw [hn]; rfl)
      · exact .inr ⟨_, _, rfl, fun hc => hn (Nat.digitChar_eq_zero.1 hc)⟩
    · next hn =>
      rcases ih (n / 10) (by omega) with hz | ⟨d, ds, hd, hne⟩
      · have hv := value_digits (n / 10)
        unfold digits at hv
        rw [hz] at hv
        have hzero : n / 10 = 0 := hv.symm
        omega
      · exact .inr ⟨d, ds ++ [(n % 10).digitChar], by rw [hd]; rfl, hne⟩

theorem isDigit_of_mem_padded (width n : Nat) : ∀ c ∈ padded width n, c.isDigit = true := by
  intro c h
  rcases List.mem_append.1 h with hz | hd
  · rw [List.eq_of_mem_replicate hz]
    rfl
  · exact isDigit_of_mem_digits hd

theorem padded_ne_nil (width n : Nat) : padded width n ≠ [] :=
  List.append_ne_nil_of_right_ne_nil _ (digits_ne_nil n)

theorem length_padded {width n : Nat} (hw : 0 < width) (h : n < Nat.pow 10 width) : (padded width n).length = width := by
  have hl := length_digits_le hw h
  rw [padded, List.length_append, List.length_replicate]
  omega

/-- No digit stands at the front. -/
def NoDigit (cs : List Char) : Prop := ∀ c ∈ cs.head?, c.isDigit = false

theorem takeWhile_digits {ds rest : List Char} (hd : ∀ c ∈ ds, c.isDigit = true) (hr : NoDigit rest) :
    (ds ++ rest).takeWhile Char.isDigit = ds := by
  rw [List.takeWhile_append_of_pos hd]
  cases rest with
  | nil => exact List.append_nil ds
  | cons c rest => rw [List.takeWhile_cons_of_neg (by simp [hr c rfl]), List.append_nil]

theorem dropWhile_digits {ds rest : List Char} (hd : ∀ c ∈ ds, c.isDigit = true) (hr : NoDigit rest) :
    (ds ++ rest).dropWhile Char.isDigit = rest := by
  rw [List.dropWhile_append_of_pos hd]
  cases rest with
  | nil => rfl
  | cons c rest => exact List.dropWhile_cons_of_neg (by simp [hr c rfl])

end Questline.Numeral
