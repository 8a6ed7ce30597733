import Questline.Instant.Text

/-!
# Reading instants that were written here

The reader of instants is lenient, so it has to be shown that on the one form that is written it takes each number as
far as it goes: years of any size and sign, the fraction in all its lengths, and a leap second like any other.
-/

namespace Questline.Instant

open Text Numeral

theorem exists_cons_padded (width n : Nat) :
    ∃ d ds, padded width n = d :: ds ∧ isBlank d = false ∧ d.isDigit = true := by
  obtain ⟨d, ds, hd⟩ := List.exists_cons_of_ne_nil (padded_ne_nil width n)
  have hdigit : d.isDigit = true := isDigit_of_mem_padded width n d (hd ▸ List.mem_cons_self)
  exact ⟨d, ds, hd, not_isBlank_of_isDigit hdigit, hdigit⟩

theorem readMark_cons {mark : Char} (h : isBlank mark = false) (rest : List Char) :
    readMark mark (mark :: rest) = some rest := by
  unfold readMark
  rw [skipBlanks_cons h]
  exact if_pos rfl

theorem readDigits_append {width : Nat} {ds rest : List Char} (hd : ∀ c ∈ ds, c.isDigit = true) (hn : ds ≠ [])
    (hl : ds.length ≤ width) (hr : NoDigit rest) : readDigits width (ds ++ rest) = some (value ds, rest) := by
  have htake : NoDigit (rest.take (width - ds.length)) := by
    intro c hc
    refine hr c ?_
    cases rest with
    | nil => simp at hc
    | cons a rest =>
      cases hk : width - ds.length with
      | zero => simp [hk] at hc
      | succ k => simpa [hk] using hc
  unfold readDigits
  rw [List.take_append, List.take_of_length_le hl, takeWhile_digits hd htake]
  simp [hn]

theorem readNumber_padded {width n : Nat} (hw : 0 < width) (hn : n < Nat.pow 10 width) {rest : List Char}
    (hr : NoDigit rest) : readNumber width (padded width n ++ rest) = some (n, rest) := by
  obtain ⟨d, ds, hd, hblank, -⟩ := exists_cons_padded width n
  have hread := readDigits_append (isDigit_of_mem_padded width n) (padded_ne_nil width n)
    (Nat.le_of_eq (length_padded hw hn)) hr
  unfold readNumber
  rw [hd, List.cons_append, skipBlanks_cons hblank, ← List.cons_append, ← hd, hread, value_padded]

theorem readYear_writeYear (year : Int) {rest : List Char} (hr : NoDigit rest) :
    readYear (writeYear year ++ rest) = some (year, rest) := by
  unfold writeYear
  split
  · next h =>
    obtain ⟨d, ds, hd, hblank, hdigit⟩ := exists_cons_padded 4 year.toNat
    have hread := readDigits_append (isDigit_of_mem_padded 4 year.toNat) (padded_ne_nil 4 year.toNat)
      (Nat.le_of_eq (length_padded (by decide) (show year.toNat < 10000 by omega))) hr
    rw [hd, List.cons_append] at hread ⊢
    unfold readYear
    rw [skipBlanks_cons hblank]
    split
    · next he => rw [(List.cons.inj he).1] at hdigit; cases hdigit
    · next he => rw [(List.cons.inj he).1] at hdigit; cases hdigit
    · rw [hread, ← hd, value_padded, Option.map_some]
      simp only [Int.toNat_of_nonneg h.1]
  · have hlength : (padded 4 year.natAbs).length ≤ (padded 4 year.natAbs ++ rest).length := by simp
    have hread := readDigits_append (isDigit_of_mem_padded 4 year.natAbs) (padded_ne_nil 4 year.natAbs) hlength hr
    rw [value_padded] at hread
    split
    · rw [List.cons_append, readYear, skipBlanks_cons rfl]
      simp only [hread, Option.map_some]
      congr 2
      omega
    · rw [List.cons_append, readYear, skipBlanks_cons rfl]
      simp only [hread, Option.map_some]
      congr 2
      omega

theorem value_take_nine {width n : Nat} (hw : 0 < width) (hle : width ≤ 9) (hn : n < Nat.pow 10 width) :
    value ((padded width n ++ List.replicate 9 '0').take 9) = n * Nat.pow 10 (9 - width) := by
  rw [List.take_append, length_padded hw hn, List.take_of_length_le (by rw [length_padded hw hn]; exact hle),
    List.take_replicate, Nat.min_eq_left (by omega), value_append_zeros, value_padded]

theorem readFraction_point {width n : Nat} (hw : 0 < width) (hle : width ≤ 9) (hn : n < Nat.pow 10 width)
    {rest : List Char} (hr : NoDigit rest) :
    readFraction ('.' :: (padded width n ++ rest)) = some (n * Nat.pow 10 (9 - width), rest) := by
  have hd := isDigit_of_mem_padded width n
  unfold readFraction
  simp only [takeWhile_digits hd hr, dropWhile_digits hd hr, value_take_nine hw hle hn]
  simp [padded_ne_nil]

theorem readFraction_writeFraction {nano : Nat} (hn : nano < 1000000000) :
    readFraction (writeFraction nano ++ ['Z']) = some (nano, ['Z']) := by
  have hz : NoDigit ['Z'] := by simp [NoDigit]
  unfold writeFraction
  split
  · next h => rw [h]; rfl
  split
  · have hlt : nano / 1000000 < Nat.pow 10 3 := show nano / 1000000 < 1000 by omega
    have hback : nano / 1000000 * Nat.pow 10 (9 - 3) = nano := show nano / 1000000 * 1000000 = nano by omega
    rw [List.cons_append, readFraction_point (by decide) (by decide) hlt hz, hback]
  split
  · have hlt : nano / 1000 < Nat.pow 10 6 := show nano / 1000 < 1000000 by omega
    have hback : nano / 1000 * Nat.pow 10 (9 - 6) = nano := show nano / 1000 * 1000 = nano by omega
    rw [List.cons_append, readFraction_point (by decide) (by decide) hlt hz, hback]
  · have hlt : nano < Nat.pow 10 9 := hn
    have hback : nano * Nat.pow 10 (9 - 9) = nano := Nat.mul_one nano
    rw [List.cons_append, readFraction_point (by decide) (by decide) hlt hz, hback]

theorem of?_date (d : Date) : Date.of? d.year d.month d.day = some d := dif_pos d.isDate

theorem of?_instant (t : Instant) : Instant.of? t.date t.hour t.minute t.second t.nano = some t := dif_pos t.isTime

theorem back?_zero (t : Instant) : t.back? 0 = some t := by
  obtain ⟨hh, hm, -, -⟩ := t.isTime
  have hlow : ¬ (t.hour : Int) * 60 + t.minute - 0 < 0 := by omega
  have hhigh : (t.hour : Int) * 60 + t.minute - 0 < 1440 := by omega
  have hhour : (((t.hour : Int) * 60 + t.minute - 0) % 1440).toNat / 60 = t.hour := by omega
  have hminute : (((t.hour : Int) * 60 + t.minute - 0) % 1440).toNat % 60 = t.minute := by omega
  unfold back?
  simp only [hlow, hhigh, if_true, if_false, hhour, hminute]
  exact of?_instant t

theorem daysIn_le (year : Int) (month : Nat) : daysIn year month ≤ 31 := by
  unfold daysIn
  repeat' split
  all_goals decide

theorem ofChars?_toChars (t : Instant) : ofChars? t.toChars = some t := by
  obtain ⟨-, -, -, hmonth, -, hday⟩ := t.date.isDate
  have hdays := daysIn_le t.date.year t.date.month
  obtain ⟨hhour, hminute, hsecond, hnano⟩ := t.isTime
  have hmark : ∀ c rest, c.isDigit = false → NoDigit (c :: rest) := fun c rest hc => by simp [NoDigit, hc]
  have hfraction : NoDigit (writeFraction t.nano ++ ['Z']) := by
    unfold writeFraction
    repeat' split
    all_goals exact hmark _ _ rfl
  have htwo : ∀ n rest, n < 100 → NoDigit rest → readNumber 2 (padded 2 n ++ rest) = some (n, rest) :=
    fun n rest hn hr => readNumber_padded (by decide) hn hr
  unfold toChars ofChars?
  dsimp only [Option.bind_eq_bind]
  simp only [List.append_assoc, List.cons_append]
  rw [readYear_writeYear _ (hmark _ _ rfl), Option.bind_some, readMark_cons rfl, Option.bind_some,
    htwo _ _ (by omega) (hmark _ _ rfl), Option.bind_some, readMark_cons rfl, Option.bind_some,
    htwo _ _ (by omega) (hmark _ _ rfl), Option.bind_some]
  have hsep : ∀ rest, readSeparator ('T' :: rest) = some rest := fun rest => rfl
  rw [hsep, Option.bind_some, htwo _ _ (by omega) (hmark _ _ rfl), Option.bind_some, readMark_cons rfl,
    Option.bind_some, htwo _ _ (by omega) (hmark _ _ rfl), Option.bind_some, readMark_cons rfl, Option.bind_some,
    htwo _ _ (by omega) hfraction, Option.bind_some, readFraction_writeFraction hnano, Option.bind_some]
  have hoffset : readOffset (skipBlanks ['Z']) = some (0, []) := by decide
  rw [hoffset, Option.bind_some]
  simp only [List.all_nil, if_true, of?_date, of?_instant, Option.bind_some]
  exact back?_zero t

theorem ofText?_toText (t : Instant) : ofText? t.toText = some t := by
  unfold ofText? toText
  rw [String.toList_ofList]
  exact ofChars?_toChars t

end Questline.Instant
