import MatrixScript.Proofs.Double

/-!
# Rounding of doubles

How a result is rounded to a double, told on rational numbers. Its rank is the one nearest to the
exact value (`rank_pack_roundWithAccuracy`, `rank_pack_round`, `rank_pack_normalize`, one for each
way that operations have of rounding). The rank nearest to a value never decreases with the value
(`nearestRank_mono`), and it is zero up to half of the least double (`nearestRank_eq_zero_iff`).

A mantissa is rounded by shifting it right bit by bit, which comes to one rounded division
(`Shifted.roundedMantissa_eq`); it may carry into one more bit, and is then shifted once again
(`rank_pack_settled`).
-/

namespace MatrixScript.Number

open Float.Model Float.Model.UnpackedFloat

/-! ### The nearest rank -/

/-- The pattern nearest to the magnitude of a value. -/
def nearest (v : ℚ) : ℕ :=
  nearestPattern v.num.natAbs v.den

/-- The rank nearest to a value. What is beyond the doubles is nearest to the infinities. -/
def nearestRank (v : ℚ) : ℤ :=
  signed (v < 0) (min infinityPattern (nearest v) : ℕ)

section Nearest

variable {v w : ℚ}

theorem natAbs_num_div_den (v : ℚ) : (v.num.natAbs : ℚ) / v.den = |v| := by
  rw [Nat.cast_natAbs, Int.cast_abs, ← Nat.abs_cast v.den, ← abs_div, Rat.num_div_den]

theorem nearest_eq {q : ℤ} (hq : RoundsAt |v| q) {a b : ℕ} (hb : 0 < b)
    (hab : (a : ℚ) / b = |v| / 2 ^ q) : nearest v = (q + 1074).toNat * 2 ^ 52 + roundDiv a b := by
  rw [← natAbs_num_div_den] at hq hab
  exact nearestPattern_eq v.den_pos hq hb hab

theorem nearest_mono (h : |v| ≤ |w|) : nearest v ≤ nearest w := by
  rw [← natAbs_num_div_den, ← natAbs_num_div_den] at h
  exact nearestPattern_mono v.den_pos w.den_pos h

theorem nearest_eq_zero_iff : nearest v = 0 ↔ |v| ≤ 2 ^ (-1075 : ℤ) := by
  rw [← natAbs_num_div_den]
  exact nearestPattern_eq_zero_iff v.den_pos

theorem nearestRank_of_neg (h : v < 0) :
    nearestRank v = -((min infinityPattern (nearest v) : ℕ) : ℤ) := by
  rw [nearestRank, decide_eq_true h]
  rfl

theorem nearestRank_of_nonneg (h : 0 ≤ v) :
    nearestRank v = (min infinityPattern (nearest v) : ℕ) := by
  rw [nearestRank, decide_eq_false h.not_gt]
  rfl

/-- **Ranks keep the order of values.** -/
theorem nearestRank_mono (h : v ≤ w) : nearestRank v ≤ nearestRank w := by
  rcases lt_or_ge w 0 with hw | hw
  · have hv : v < 0 := h.trans_lt hw
    have hle : nearest w ≤ nearest v := nearest_mono (by
      rw [abs_of_neg hv, abs_of_neg hw]
      exact neg_le_neg h)
    rw [nearestRank_of_neg hv, nearestRank_of_neg hw]
    omega
  · rw [nearestRank_of_nonneg hw]
    rcases lt_or_ge v 0 with hv | hv
    · rw [nearestRank_of_neg hv]
      omega
    · have hle : nearest v ≤ nearest w := nearest_mono (by
        rw [abs_of_nonneg hv, abs_of_nonneg hw]
        exact h)
      rw [nearestRank_of_nonneg hv]
      omega

/-- **Underflow**: the values nearest to zero are those up to half of the least double. -/
theorem nearestRank_eq_zero_iff : nearestRank v = 0 ↔ |v| ≤ 2 ^ (-1075 : ℤ) := by
  have hinfinity := infinityPattern_eq
  rw [nearestRank, signed_eq_zero_iff, ← nearest_eq_zero_iff]
  omega

theorem nearestRank_zero : nearestRank 0 = 0 := by
  rw [nearestRank_eq_zero_iff, abs_zero]
  positivity

theorem abs_signed_mul (negative : Bool) (m : ℕ) (q : ℤ) :
    |(signed negative m : ℚ) * 2 ^ q| = m * 2 ^ q := by
  rw [abs_mul, ← Int.cast_abs, abs_signed, Int.cast_natCast, abs_of_pos (by positivity)]

theorem nearestRank_signed_mul (negative : Bool) {m : ℕ} (hm : 0 < m) (q : ℤ) :
    nearestRank (signed negative m * 2 ^ q) =
      signed negative (min infinityPattern (nearest (signed negative m * 2 ^ q)) : ℕ) := by
  have hpos : (0 : ℚ) < m * 2 ^ q := by positivity
  have hsign : decide ((signed negative m : ℚ) * 2 ^ q < 0) = negative := by
    cases negative
    · simpa [signed] using hpos.le
    · simpa [signed] using hpos
  rw [nearestRank, hsign]

/-- A canonical mantissa and exponent are nearest to their own value. -/
theorem nearest_of_canonical (negative : Bool) {m : ℕ} {q : ℤ} (h : Canonical m q) :
    nearest (signed negative m * 2 ^ q) = (q + 1074).toNat * 2 ^ 52 + m := by
  have habs := abs_signed_mul negative m q
  have hpos : (0 : ℚ) < 2 ^ q := by positivity
  have hround : RoundsAt |(signed negative m : ℚ) * 2 ^ q| q := by
    rw [habs]
    refine ⟨h.least, ?_, h.full.imp_right fun hfull ↦ ?_⟩
    · rw [add_comm, zpow_add₀ (by norm_num)]
      have hlt : (m : ℚ) < 2 ^ (53 : ℤ) := by exact_mod_cast h.lt
      gcongr
    · rw [add_comm, zpow_add₀ (by norm_num)]
      have hle : (2 : ℚ) ^ (52 : ℤ) ≤ m := by exact_mod_cast hfull
      gcongr
  have hvalue : (m : ℚ) / (1 : ℕ) = |(signed negative m : ℚ) * 2 ^ q| / 2 ^ q := by
    rw [habs, mul_div_cancel_right₀ _ hpos.ne', Nat.cast_one, div_one]
  rw [nearest_eq hround Nat.one_pos hvalue, roundDiv_one]

end Nearest

/-! ### Rounding

A mantissa is shifted right one bit at a time, and the last bit and whether there was any bit before
it are kept. That is enough to know on which side of a half the rest is. -/

/-- A mantissa `M` after it has been divided by `b`. -/
structure Shifted (em : ExtendedMantissa) (M b : ℕ) : Prop where
  mantissa : em.mantissa = M / b
  roundBit : em.roundBit = decide (b ≤ 2 * (M % b))
  stickyBit : em.stickyBit = decide (M % b ≠ 0 ∧ 2 * (M % b) ≠ b)

theorem Shifted.shiftRightOne {em : ExtendedMantissa} {M b : ℕ} (h : Shifted em M b) (hb : 0 < b) :
    Shifted em.shiftRightOne M (b * 2) := by
  have hlt : M % b < b := Nat.mod_lt M hb
  have hmod : M % (b * 2) = M % b + b * (M / b % 2) := Nat.mod_mul
  refine ⟨?_, ?_, ?_⟩
  · show em.mantissa / 2 = _
    rw [h.mantissa, Nat.div_div_eq_div_mul]
  · show (em.mantissa % 2 != 0) = _
    rw [h.mantissa, hmod, Bool.eq_iff_iff, bne_iff_ne, decide_eq_true_iff]
    rcases Nat.mod_two_eq_zero_or_one (M / b) with hbit | hbit <;> rw [hbit] <;> omega
  · show (em.roundBit || em.stickyBit) = _
    rw [h.roundBit, h.stickyBit, hmod, Bool.eq_iff_iff, Bool.or_eq_true, decide_eq_true_iff,
      decide_eq_true_iff, decide_eq_true_iff]
    rcases Nat.mod_two_eq_zero_or_one (M / b) with hbit | hbit <;> rw [hbit] <;> omega

theorem shifted_shiftRight (M k : ℕ) :
    Shifted (ExtendedMantissa.ofMantissaAndAccuracy M .exact >>> k) M (2 ^ k) := by
  induction k with
  | zero => exact ⟨(Nat.div_one M).symm, by simp [Nat.mod_one]; rfl, by simp [Nat.mod_one]; rfl⟩
  | succ k ih => exact ih.shiftRightOne (Nat.two_pow_pos k)

/-- **Shifting comes to one rounded division.** -/
theorem Shifted.roundedMantissa_eq {em : ExtendedMantissa} {M b : ℕ} (h : Shifted em M b) :
    em.roundedMantissa = roundDiv M b := by
  obtain ⟨mantissa, roundBit, stickyBit⟩ := em
  obtain ⟨rfl, rfl, rfl⟩ := h
  rw [roundDiv, ExtendedMantissa.roundedMantissa]
  split
  · next hlt =>
    rw [decide_eq_false (by omega : ¬ b ≤ 2 * (M % b))]
    rcases decide (M % b ≠ 0 ∧ 2 * (M % b) ≠ b) with _ | _
    · rfl
    · rfl
  · next hge =>
    rw [decide_eq_true (by omega : b ≤ 2 * (M % b))]
    split
    · next hgt =>
      rw [decide_eq_true (by omega : M % b ≠ 0 ∧ 2 * (M % b) ≠ b)]
      rfl
    · next hle =>
      rw [decide_eq_false (by omega : ¬ (M % b ≠ 0 ∧ 2 * (M % b) ≠ b))]
      rfl

theorem targetExponent_eq (M : ℕ) (E : ℤ) :
    Format.binary64.targetExponent (totalExponent M E) = max (M.log2 + 1 + E - 53) (-1074) := rfl

/-- The target exponent is the one that a value is rounded at. -/
theorem roundsAt_targetExponent {M : ℕ} (hM : 0 < M) (E : ℤ) :
    RoundsAt (M * 2 ^ E) (Format.binary64.targetExponent (totalExponent M E)) := by
  rw [targetExponent_eq]
  refine ⟨le_max_right _ _, ?_, ?_⟩
  · calc (M : ℚ) * 2 ^ E < 2 ^ ((M.log2 : ℤ) + 1) * 2 ^ E := by
          have hlt : (M : ℚ) < 2 ^ ((M.log2 : ℤ) + 1) := lt_zpow_log2_succ
          gcongr
      _ = 2 ^ ((M.log2 : ℤ) + 1 + E) := (zpow_add₀ (by norm_num) _ _).symm
      _ ≤ _ := zpow_two_le (by omega)
  · rcases max_choice ((M.log2 : ℤ) + 1 + E - 53) (-1074) with h | h
    · right
      rw [h]
      calc (2 : ℚ) ^ ((M.log2 : ℤ) + 1 + E - 53 + 52) = 2 ^ (M.log2 : ℤ) * 2 ^ E := by
            rw [← zpow_add₀ (by norm_num)]
            congr 1
            omega
        _ ≤ M * 2 ^ E := by
          have hle : (2 : ℚ) ^ (M.log2 : ℤ) ≤ M := zpow_log2_le hM.ne'
          gcongr
    · exact Or.inl h

/-- A mantissa of at most 53 bits is not shifted any more. -/
theorem shiftToTargetExponent_of_lt {r : ℕ} (hr : r < 2 ^ 53) {t : ℤ} (ht : -1074 ≤ t) :
    shiftToTargetExponent Format.binary64 r t .exact = (⟨r, false, false⟩, t) := by
  have hlog : r.log2 < 53 := by
    rcases Nat.eq_zero_or_pos r with rfl | hpos
    · decide
    · exact (Nat.log2_lt hpos.ne').2 hr
  have hshift : (Format.binary64.targetExponent (totalExponent r t) - t).toNat = 0 := by
    rw [targetExponent_eq]
    omega
  rw [shiftToTargetExponent, shiftToExponent, hshift]
  show (_, t + 0) = _
  rw [add_zero]
  rfl

/-- A carry is shifted once more. -/
theorem shiftToTargetExponent_carry {t : ℤ} (ht : -1074 ≤ t) :
    shiftToTargetExponent Format.binary64 (2 ^ 53) t .exact = (⟨2 ^ 52, false, false⟩, t + 1) := by
  have hshift : (Format.binary64.targetExponent (totalExponent (2 ^ 53) t) - t).toNat = 1 := by
    rw [targetExponent_eq, Nat.log2_two_pow]
    omega
  rw [shiftToTargetExponent, shiftToExponent, hshift]
  rfl

/-- What has been rounded is packed, with one more shift if there was a carry. -/
theorem rank_pack_settled (s : Sign) {r : ℕ} (hr : r ≤ 2 ^ 53) {t : ℤ} (ht : -1074 ≤ t)
    (hfull : t = -1074 ∨ 2 ^ 52 ≤ r) {last : ExtendedMantissa × ℤ}
    (hlast : shiftToTargetExponent Format.binary64 r t .exact = last) :
    rank (.ofModel (.pack (if h : last.1.mantissa = 0 then .zero s
      else .finite s last.1.mantissa last.2 (Nat.pos_of_ne_zero h)))) =
      some (signed (isMinus s) (min infinityPattern ((t + 1074).toNat * 2 ^ 52 + r) : ℕ)) := by
  rcases hr.lt_or_eq with hlt | rfl
  · rw [shiftToTargetExponent_of_lt hlt ht] at hlast
    obtain rfl := hlast
    rcases Nat.eq_zero_or_pos r with rfl | hpos
    · obtain rfl := hfull.resolve_right (by norm_num)
      rw [dif_pos rfl, rank_pack_zero]
      exact congrArg some (signed_eq_zero_iff.2 rfl).symm
    · rw [dif_neg hpos.ne']
      exact rank_pack_finite s hpos ⟨ht, hlt, hfull⟩
  · rw [shiftToTargetExponent_carry ht] at hlast
    obtain rfl := hlast
    have hcanonical : Canonical (2 ^ 52) (t + 1) := ⟨by omega, by norm_num, Or.inr le_rfl⟩
    rw [dif_neg (by norm_num), rank_pack_finite s (by norm_num) hcanonical]
    have hcarry : (t + 1 + 1074).toNat * 2 ^ 52 + 2 ^ 52 = (t + 1074).toNat * 2 ^ 52 + 2 ^ 53 := by
      omega
    rw [hcarry]

/-- **Rounding gives the nearest rank.** -/
theorem rank_pack_roundWithAccuracy (s : Sign) {M : ℕ} (hM : 0 < M) {E : ℤ}
    (hE : E ≤ Format.binary64.targetExponent (totalExponent M E)) :
    rank (.ofModel (.pack (roundWithAccuracy Format.binary64 s M E .exact))) =
      some (nearestRank (signed (isMinus s) M * 2 ^ E)) := by
  have hround := roundsAt_targetExponent hM E
  obtain ⟨k, hk⟩ := Int.le.dest hE
  have hfirst : shiftToTargetExponent Format.binary64 M E .exact =
      (ExtendedMantissa.ofMantissaAndAccuracy M .exact >>> k, E + k) := by
    rw [shiftToTargetExponent, shiftToExponent, ← hk, add_sub_cancel_left, Int.toNat_natCast]
  rw [← hk] at hround
  have hvalue : (M : ℚ) / (2 ^ k : ℕ) = M * 2 ^ E / 2 ^ (E + k) := by
    have hpos : (0 : ℚ) < 2 ^ E := by positivity
    rw [zpow_add₀ (by norm_num), zpow_natCast, mul_comm ((2 : ℚ) ^ E),
      mul_div_mul_right _ _ hpos.ne']
    push_cast
    rfl
  have hle := hround.roundDiv_le (Nat.two_pow_pos k) hvalue
  have hfull : E + k = -1074 ∨ 2 ^ 52 ≤ roundDiv M (2 ^ k) :=
    or_iff_not_imp_left.2 fun hne ↦ hround.le_roundDiv hne (Nat.two_pow_pos k) hvalue
  have hnearest : nearest (signed (isMinus s) M * 2 ^ E) =
      (E + k + 1074).toNat * 2 ^ 52 + roundDiv M (2 ^ k) := by
    refine nearest_eq ?_ (Nat.two_pow_pos k) ?_
    · rwa [abs_signed_mul]
    · rwa [abs_signed_mul]
  rw [nearestRank_signed_mul _ hM, hnearest, roundWithAccuracy, hfirst,
    ← rank_pack_settled s hle hround.least hfull rfl, ← (shifted_shiftRight M k).roundedMantissa_eq]

theorem log2_shiftLeft {M : ℕ} (hM : M ≠ 0) (k : ℕ) : (M <<< k).log2 = M.log2 + k := by
  have hle := Nat.log2_self_le hM
  have hlt := @Nat.lt_log2_self M
  have hpos := Nat.two_pow_pos k
  rw [Nat.shiftLeft_eq, Nat.log2_eq_iff (Nat.mul_pos (Nat.pos_of_ne_zero hM) hpos).ne', pow_add,
    show M.log2 + k + 1 = (M.log2 + 1) + k by omega, pow_add _ _ k]
  exact ⟨Nat.mul_le_mul_right _ hle, Nat.mul_lt_mul_of_pos_right hlt hpos⟩

/-- A mantissa that is shifted left has the same value at the lower exponent. -/
theorem signed_shiftLeft_mul_zpow (negative : Bool) (M k : ℕ) (E : ℤ) :
    (signed negative (M <<< k : ℕ) : ℚ) * 2 ^ (E - k) = signed negative M * 2 ^ E := by
  have hshift : ((M <<< k : ℕ) : ℚ) * 2 ^ (E - k) = M * 2 ^ E := by
    rw [Nat.shiftLeft_eq, zpow_sub₀ (by norm_num), zpow_natCast]
    push_cast
    field_simp
  rcases negative with _ | _
  · exact hshift
  · rw [signed, signed, if_pos rfl, if_pos rfl, Int.cast_neg, Int.cast_neg, neg_mul, neg_mul]
    exact congrArg _ hshift

/-- A mantissa may be shifted left before it is rounded. -/
theorem rank_pack_round (s : Sign) {M : ℕ} (hM : 0 < M) (E : ℤ) :
    rank (.ofModel (.pack (UnpackedFloat.round Format.binary64 s M E))) =
      some (nearestRank (signed (isMinus s) M * 2 ^ E)) := by
  generalize ht : Format.binary64.targetExponent (totalExponent M E) = t
  let k := (E - t).toNat
  have hsame : Format.binary64.targetExponent (totalExponent (M <<< k) (E - k)) = t := by
    rw [← ht, targetExponent_eq, targetExponent_eq, log2_shiftLeft hM.ne']
    congr 1
    omega
  have hround : UnpackedFloat.round Format.binary64 s M E =
      roundWithAccuracy Format.binary64 s (M <<< k) (E - k) .exact := by
    rw [UnpackedFloat.round, ht]
    rfl
  have hpos : 0 < M <<< k := by
    rw [Nat.shiftLeft_eq]
    positivity
  rw [hround, rank_pack_roundWithAccuracy s hpos (by omega), signed_shiftLeft_mul_zpow]

/-- A difference of mantissas at a common exponent is rounded once. -/
theorem rank_pack_normalize (M E : ℤ) :
    rank (.ofModel (.pack (UnpackedFloat.normalize Format.binary64 M E .positive))) =
      some (nearestRank (M * 2 ^ E)) := by
  rw [UnpackedFloat.normalize]
  rcases lt_trichotomy M 0 with hneg | rfl | hpos
  · rw [Int.compare_eq_lt.2 hneg]
    have hM : signed true (-M).toNat = M := by
      show -((-M).toNat : ℤ) = M
      omega
    show rank (.ofModel (.pack (UnpackedFloat.round Format.binary64 .negative (-M).toNat E))) = _
    rw [rank_pack_round .negative (by omega)]
    show some (nearestRank ((signed true (-M).toNat : ℤ) * 2 ^ E)) = _
    rw [hM]
  · rw [Int.cast_zero, zero_mul, nearestRank_zero, Int.compare_eq_eq.2 rfl]
    exact rank_pack_zero .positive
  · rw [Int.compare_eq_gt.2 hpos]
    have hM : signed false M.toNat = M := Int.toNat_of_nonneg hpos.le
    show rank (.ofModel (.pack (UnpackedFloat.round Format.binary64 .positive M.toNat E))) = _
    rw [rank_pack_round .positive (by omega)]
    show some (nearestRank ((signed false M.toNat : ℤ) * 2 ^ E)) = _
    rw [hM]

end MatrixScript.Number
