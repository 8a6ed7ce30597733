import Questline.Proofs.Rounding
import Questline.Proofs.Settlement

/-!
# Pay at whole rates

At a rate that is a whole number, an amount is rounded to a number of 53 bits, multiplied, and rounded once more. Nothing is
lost exactly when the product itself is a number of 53 bits, which all products up to `2 ^ 53` are; other products are paid
right only where the product and what it is rounded to reach the same end of the range of 64 bits.
-/

namespace Questline

open Binary64 (Denotes Exact SameEnd nearest nearestInt saturate)

namespace Rates

variable {r : Rates} {k : Nat}

theorem log2_lt_of_le {n : Nat} (h : n ≤ 2 ^ 117) : n.log2 < 1022 := by
  by_cases hn : n = 0
  · rw [hn]
    decide
  · have hlog : n.log2 < 118 := (Nat.log2_lt hn).2 (Nat.lt_of_le_of_lt h (by decide))
    omega

/-- At a whole rate the amount is rounded, and so is the product. -/
theorem scale_eq (hr : r.currency.Denotes k) (hk : k ≤ 2 ^ 53) (amount : Int64) :
    r.scale amount = saturate (nearestInt (nearestInt amount.toInt * k)) := by
  have hlow := amount.le_toInt
  have hhigh := amount.toInt_lt
  have hsize : amount.toInt.natAbs ≤ 2 ^ 63 := by omega
  have hproduct : (nearestInt amount.toInt * k).natAbs ≤ 2 ^ 117 := by
    rw [Int.natAbs_mul, Binary64.natAbs_nearestInt, Int.natAbs_natCast]
    calc nearest amount.toInt.natAbs * k ≤ 2 * 2 ^ 63 * 2 ^ 53 :=
          Nat.mul_le_mul (Nat.le_trans (Binary64.nearest_le _) (Nat.mul_le_mul_left 2 hsize)) hk
      _ = 2 ^ 117 := by decide
  have hamount := Binary64.denotes_ofInt (log2_lt_of_le (Nat.le_trans hsize (by decide)))
  exact (hamount.mul hr (log2_lt_of_le hproduct)).floorToInt64

theorem scale_eq_saturate_iff (hr : r.currency.Denotes k) (hk : k ≤ 2 ^ 53) (amount : Int64) :
    r.scale amount = saturate (amount.toInt * k) ↔
      Exact (amount.toInt * k).natAbs ∨ SameEnd (nearestInt (nearestInt amount.toInt * k)) (amount.toInt * k) := by
  rw [scale_eq hr hk, Binary64.saturate_eq_iff, Binary64.nearestInt_mul_eq_iff]

theorem scale_of_le (hr : r.currency.Denotes k) (hk : k ≤ 2 ^ 53) {amount : Int64}
    (h : (amount.toInt * k).natAbs ≤ 2 ^ 53) : (r.scale amount).toInt = amount.toInt * k := by
  rw [(scale_eq_saturate_iff hr hk amount).2 (.inl (Binary64.exact_of_le h))]
  rw [Binary64.toInt_saturate, Int64.toInt_minValue, Int64.toInt_maxValue]
  omega

theorem denotes_default : Rates.default.currency.Denotes 1 := ⟨by decide, .inr rfl⟩

/-- The least amount is a number of 53 bits and the greatest is not, so only at the upper end rounding does not show. -/
theorem exact_or_eq_of_sameEnd {amount : Int64} {i : Int} (h : SameEnd i amount.toInt) :
    Exact amount.toInt.natAbs ∨ amount = Int64.maxValue := by
  rcases h with ⟨-, hmax⟩ | ⟨-, hmin⟩
  · exact .inr (Int64.toInt_inj.1 (Int.le_antisymm amount.toInt_le hmax))
  · rw [Int.le_antisymm hmin amount.minValue_le_toInt]
    exact .inl ⟨1, 63, by decide, by decide⟩

/-- At the default rate the greatest amount is the only one that is paid right although it is rounded. -/
theorem scale_default_eq_iff (amount : Int64) :
    Rates.default.scale amount = amount ↔ Exact amount.toInt.natAbs ∨ amount = Int64.maxValue := by
  have hscale := scale_eq_saturate_iff denotes_default (by decide) amount
  rw [Nat.cast_one, Int.mul_one, Int.mul_one, Binary64.saturate_toInt] at hscale
  rw [hscale]
  constructor
  · rintro (hexact | hend)
    · exact .inl hexact
    · exact exact_or_eq_of_sameEnd hend
  · rintro (hexact | rfl)
    · exact .inl hexact
    · exact .inr (.inl ⟨by decide, Int.le_refl _⟩)

end Rates

namespace Hunt

theorem reward_mem_turnIn_iff {h : Hunt} {r : Record} (hp : r.phase = .started) (player : PlayerId) (token : String)
    (now : Instant) {player' : PlayerId} {item : ItemId} {amount : Int64} :
    .reward player' item amount ∈ (h.turnIn player token r now).1.effects ↔
      player' = player ∧ item = h.definition.reward.currency ∧ amount = h.rates.scale h.definition.reward.amount := by
  rw [turnIn_of_started hp]
  by_cases hnone : r.holdings = []
  · simp [hnone]
  · simp [hnone]

end Hunt

namespace Rates

/-- At a rate that is a whole number up to `2 ^ 53`, an amount is rounded, multiplied, rounded again and brought into the
range of 64 bits. What comes out is the product brought into that range exactly when the product is a number of 53 bits, or
when it and the rounded one reach the same end of the range; products up to `2 ^ 53` come out as they are. In particular,
whoever hands in at the default rate is paid just the amount of the definition exactly when it is a number of 53 bits, or the
greatest amount of all. -/
theorem scale_exact_iff {r : Rates} {k : Nat} (hr : r.currency.Denotes k) (hk : k ≤ 2 ^ 53) (amount : Int64) :
    r.scale amount = saturate (nearestInt (nearestInt amount.toInt * k)) ∧
    (r.scale amount = saturate (amount.toInt * k) ↔
      Exact (amount.toInt * k).natAbs ∨ SameEnd (nearestInt (nearestInt amount.toInt * k)) (amount.toInt * k)) ∧
    ((amount.toInt * k).natAbs ≤ 2 ^ 53 → (r.scale amount).toInt = amount.toInt * k) ∧
    ∀ (h : Hunt) (player : PlayerId) (token : String) (record : Record) (now : Instant), h.rates = .default →
      record.phase = .started →
        (.reward player h.definition.reward.currency h.definition.reward.amount ∈
            (h.turnIn player token record now).1.effects ↔
          Exact h.definition.reward.amount.toInt.natAbs ∨ h.definition.reward.amount = Int64.maxValue) := by
  refine ⟨scale_eq hr hk amount, scale_eq_saturate_iff hr hk amount, scale_of_le hr hk,
    fun h player token record now hrates hp => ?_⟩
  rw [Hunt.reward_mem_turnIn_iff hp, hrates, ← scale_default_eq_iff, eq_comm (a := h.definition.reward.amount)]
  exact ⟨fun hpaid => hpaid.2.2, fun hpaid => ⟨rfl, rfl, hpaid⟩⟩

/-- Three times a large amount is paid as much as can be paid. At the default rate the last amount before gaps is paid as it
is, and whoever hands in the quest that comes with the program gets what it promises. -/
theorem scale_exact_iff_schuttgart :
    let h := Hunt.schuttgart .default
    let r : Record := { Record.fresh ⟨10280⟩ [⟨13838⟩, ⟨13839⟩] with phase := .started }
    (Binary64.ofInt 3).Denotes 3 ∧ 3 ≤ 2 ^ 53 ∧
      (⟨Binary64.ofInt 3⟩ : Rates).scale 4611686018427387904 = Int64.maxValue ∧
      (Rates.default.scale 9007199254740992).toInt = 9007199254740992 ∧ h.rates = .default ∧ r.phase = .started ∧
      .reward "a" ⟨57⟩ 210000 ∈ (h.turnIn "a" "31972-03.htm" r .epoch).1.effects := by
  intro h r
  have hr : (Binary64.ofInt 3).Denotes (3 : Nat) := by decide +kernel
  obtain ⟨-, hscale, -, hpaid⟩ := scale_exact_iff (r := ⟨Binary64.ofInt 3⟩) hr (by decide) 4611686018427387904
  obtain ⟨-, -, hsmall, -⟩ := scale_exact_iff denotes_default (by decide) 9007199254740992
  have hproduct : Exact (((4611686018427387904 : Int64).toInt * (3 : Nat)).natAbs) := ⟨3, 62, by decide, by decide⟩
  exact ⟨hr, by decide, hscale.2 (.inl hproduct), hsmall (by decide), rfl, rfl,
    (hpaid h "a" "31972-03.htm" r .epoch rfl rfl).2 (.inl (Binary64.exact_of_le (by decide)))⟩

/-- An amount of 54 bits is between two numbers of the format. Of the definition that promises it, which is accepted, more
is paid at the default rate. -/
theorem scale_default_exceeds :
    let promise : Draft := { Draft.schuttgart with reward := ⟨⟨57⟩, 9007199254740995, false⟩ }
    let r : Record := { Record.fresh ⟨10280⟩ [⟨13838⟩, ⟨13839⟩] with phase := .started }
    Rates.default.currency.Denotes 1 ∧ saturate ((9007199254740995 : Int64).toInt * 1) = 9007199254740995 ∧
      Rates.default.scale 9007199254740995 = 9007199254740996 ∧
      ∃ d, Definition.ofDraft promise = .ok d ∧
        (Hunt.turnIn ⟨d, .default⟩ "a" "31972-03.htm" r .epoch).1.effects =
          [.reward "a" ⟨57⟩ 9007199254740996, .playSound "a" .questFinish] :=
  ⟨denotes_default, by decide +kernel, by decide +kernel, _, rfl, by decide +kernel⟩

end Rates

end Questline
