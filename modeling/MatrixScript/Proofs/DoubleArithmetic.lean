import MatrixScript.Proofs.DoubleRounding

/-!
# Arithmetic of doubles

What multiplication and subtraction of doubles compute, told on rational numbers: the exact
operation, rounded once (`rank_mul`, `rank_sub`). A double is nearest to its own value
(`rank_eq_nearestRank`), so ranks and values are in the same order.

A product is zero exactly if its factors are finite and their exact product is not beyond half of
the least double (`mul_beq_zero_iff`): a product of doubles other than zero may be zero. A
difference is zero exactly if its operands are finite and equal (`sub_beq_zero_iff`), because every
value is a whole multiple of the least double. Multiplying by a positive double keeps the order
(`mul_le_mul_of_pos`), signs can be put before or after a product (`float_neg_mul`), and the factors
of a product can be exchanged (`float_mul_comm`).
-/

namespace MatrixScript.Number

open Float.Model Float.Model.UnpackedFloat

/-! ### Finite doubles -/

theorem value_eq (x : Float) : value x = (Parts.ofUnpacked x.toModel.unpack).value := by
  rw [value, ofFloat_eq_ofUnpacked]

theorem unpack_of_isFinite {x : Float} (h : x.isFinite = true) :
    (∃ s, x.toModel.unpack = .zero s) ∨ ∃ s m q hm, x.toModel.unpack = .finite s m q hm := by
  have hfinite : x.toModel.unpack.isFinite = true := h
  generalize x.toModel.unpack = u at hfinite
  rcases u with s | _ | s | ⟨s, m, q, hm⟩
  · exact absurd hfinite Bool.false_ne_true
  · exact absurd hfinite Bool.false_ne_true
  · exact Or.inl ⟨s, rfl⟩
  · exact Or.inr ⟨s, m, q, hm, rfl⟩

theorem unpack_of_not_isFinite {x : Float} (h : ¬ x.isFinite = true) :
    x.toModel.unpack = .notANumber ∨ ∃ s, x.toModel.unpack = .infinity s := by
  have hfinite : ¬ x.toModel.unpack.isFinite = true := h
  generalize x.toModel.unpack = u at hfinite
  rcases u with s | _ | s | ⟨s, m, q, hm⟩
  · exact Or.inr ⟨s, rfl⟩
  · exact Or.inl rfl
  · exact absurd rfl hfinite
  · exact absurd rfl hfinite

/-- The finite doubles are those between the infinities. -/
theorem isFinite_iff {x : Float} :
    x.isFinite = true ↔ ∃ a, rank x = some a ∧ |a| < infinityPattern := by
  refine ⟨fun h ↦ ?_, ?_⟩
  · have hfits := fits_unpack x
    rw [rank_eq]
    obtain ⟨s, hs⟩ | ⟨s, m, q, hm, hs⟩ := unpack_of_isFinite h
    · rw [hs]
      refine ⟨_, rfl, ?_⟩
      rw [abs_signed]
      decide
    · rw [hs] at hfits ⊢
      refine ⟨_, rfl, ?_⟩
      rw [abs_signed]
      exact_mod_cast (hfits.1.pattern_bounds hm hfits.2).2
  · rintro ⟨a, ha, hlt⟩
    by_contra h
    rw [rank_eq] at ha
    obtain hs | ⟨s, hs⟩ := unpack_of_not_isFinite h
    · rw [hs] at ha
      exact absurd ha.symm (Option.some_ne_none a)
    · rw [hs] at ha
      obtain rfl := Option.some.inj ha
      exact absurd (abs_signed _ _) hlt.ne

/-- **A finite double is nearest to its own value.** -/
theorem rank_eq_nearestRank {x : Float} (h : x.isFinite = true) :
    rank x = some (nearestRank (value x)) := by
  obtain ⟨negative, m, q, hx, hcanonical, hq⟩ := exists_ofFloat_eq_finite h
  rw [rank, value, hx]
  show some (signed negative ((q + 1074).toNat * 2 ^ 52 + m : ℕ)) =
    some (nearestRank (signed negative m * 2 ^ q))
  rcases Nat.eq_zero_or_pos m with rfl | hm
  · obtain rfl := hcanonical.full.resolve_right (by norm_num)
    show some (signed negative 0) = some (nearestRank ((signed negative 0 : ℤ) * 2 ^ (-1074 : ℤ)))
    rw [signed_eq_zero_iff.2 rfl, Int.cast_zero, zero_mul, nearestRank_zero]
  · rw [nearestRank_signed_mul _ hm, nearest_of_canonical _ hcanonical,
      Nat.min_eq_right (hcanonical.pattern_bounds hm hq).2.le]

theorem rank_pack_ne_zero {u : UnpackedFloat} (h : ¬ u.isFinite = true) :
    rank (.ofModel (.pack u)) ≠ some 0 := by
  rcases u with s | _ | s | ⟨s, m, q, hm⟩
  · rw [rank_pack_infinity, ne_eq, Option.some_inj, signed_eq_zero_iff]
    decide
  · exact (Option.some_ne_none 0).symm
  · exact absurd rfl h
  · exact absurd rfl h

theorem rank_zero : rank 0.0 = some 0 :=
  rank_pack_zero .positive

theorem beq_zero_iff {x : Float} : (x == 0.0) = true ↔ rank x = some 0 := by
  rw [beq_iff]
  refine ⟨?_, fun h ↦ ⟨0, h, rank_zero⟩⟩
  rintro ⟨a, ha, ha'⟩
  rw [ha, ← ha', rank_zero]

theorem value_of_not_isFinite {x : Float} (h : ¬ x.isFinite = true) : value x = 0 := by
  rw [value_eq]
  obtain hs | ⟨s, hs⟩ := unpack_of_not_isFinite h
  · rw [hs]
    rfl
  · rw [hs]
    rfl

/-- Doubles of one rank have one value: they are the same, or they are the two zeros. -/
theorem value_eq_of_beq {x y : Float} (h : (x == y) = true) : value x = value y := by
  obtain ⟨a, hx, hy⟩ := beq_iff.1 h
  have hfinite : x.isFinite = true ↔ y.isFinite = true := by
    rw [isFinite_iff, isFinite_iff, hx, hy]
  by_cases hxfinite : x.isFinite = true
  · obtain ⟨s, m, p, hpx, hcx, -⟩ := exists_ofFloat_eq_finite hxfinite
    obtain ⟨s', n, q, hpy, hcy, -⟩ := exists_ofFloat_eq_finite (hfinite.1 hxfinite)
    rw [rank, hpx] at hx
    rw [rank, hpy] at hy
    rw [value, value, hpx, hpy]
    have hrank : signed s ((p + 1074).toNat * 2 ^ 52 + m : ℕ) =
        signed s' ((q + 1074).toNat * 2 ^ 52 + n : ℕ) :=
      Option.some.inj (hx.trans hy.symm)
    have hpattern := congrArg (|·|) hrank
    rw [abs_signed, abs_signed] at hpattern
    obtain ⟨rfl, rfl⟩ := hcx.pattern_inj hcy (Nat.cast_inj.1 hpattern)
    have hsigned : signed s m = signed s' m := by
      rcases Bool.eq_or_eq_not s' s with rfl | rfl
      · rfl
      · -- opposite signs go together at zero only
        rw [signed_not] at hrank ⊢
        have hzero := signed_eq_zero_iff.1 (self_eq_neg.1 hrank)
        have hm : (m : ℤ) = 0 := by omega
        rw [signed_eq_zero_iff.2 hm, neg_zero]
    show (signed s m : ℚ) * 2 ^ p = signed s' m * 2 ^ p
    rw [hsigned]
  · rw [value_of_not_isFinite hxfinite, value_of_not_isFinite (mt hfinite.2 hxfinite)]

/-- The values of doubles are whole multiples of the least one. -/
theorem exists_value_eq (x : Float) : ∃ k : ℤ, value x = k * 2 ^ (-1074 : ℤ) := by
  by_cases hx : x.isFinite = true
  · obtain ⟨negative, m, q, hparts, hcanonical, -⟩ := exists_ofFloat_eq_finite hx
    obtain ⟨k, rfl⟩ := Int.le.dest hcanonical.least
    refine ⟨signed negative m * 2 ^ k, ?_⟩
    rw [value, hparts]
    show (signed negative m : ℚ) * 2 ^ (-1074 + (k : ℤ)) = _
    rw [zpow_add₀ (by norm_num), zpow_natCast]
    rw [Int.cast_mul, Int.cast_pow, Int.cast_ofNat, mul_comm ((2 : ℚ) ^ (-1074 : ℤ)), mul_assoc]
  · refine ⟨0, ?_⟩
    rw [value_of_not_isFinite hx, Int.cast_zero, zero_mul]

/-- A whole multiple of the least double is rounded to zero only if it is zero. -/
theorem nearestRank_mul_eq_zero_iff {k : ℤ} : nearestRank (k * 2 ^ (-1074 : ℤ)) = 0 ↔ k = 0 := by
  refine ⟨fun h ↦ ?_, ?_⟩
  · have hleast : (0 : ℚ) < 2 ^ (-1074 : ℤ) := by positivity
    rw [nearestRank_eq_zero_iff, abs_mul, abs_of_pos hleast] at h
    have hhalf : (2 : ℚ) ^ (-1075 : ℤ) = 2⁻¹ * 2 ^ (-1074 : ℤ) := by
      rw [← zpow_neg_one, ← zpow_add₀ (by norm_num)]
      norm_num
    rw [hhalf] at h
    have hle : |(k : ℚ)| ≤ 2⁻¹ := le_of_mul_le_mul_right h hleast
    have hlt : |(k : ℚ)| < 1 := hle.trans_lt (by norm_num)
    exact Int.abs_lt_one_iff.1 (by exact_mod_cast hlt)
  · rintro rfl
    rw [Int.cast_zero, zero_mul, nearestRank_zero]

theorem beq_zero_iff_value {x : Float} (h : x.isFinite = true) :
    (x == 0.0) = true ↔ value x = 0 := by
  obtain ⟨k, hk⟩ := exists_value_eq x
  rw [beq_zero_iff, rank_eq_nearestRank h, Option.some_inj, hk, nearestRank_mul_eq_zero_iff,
    mul_eq_zero_iff_right (by positivity), Int.cast_eq_zero]

/-- Finite doubles are in the order of their values. -/
theorem value_le_of_le {x y : Float} (hx : x.isFinite = true) (hy : y.isFinite = true)
    (h : x ≤ y) : value x ≤ value y := by
  obtain ⟨a, b, ha, hb, hab⟩ := le_iff.1 h
  by_contra hlt
  -- ranks follow values, so with values the other way round the ranks are equal
  have hba : b ≤ a := by
    rw [rank_eq_nearestRank hx] at ha
    rw [rank_eq_nearestRank hy] at hb
    obtain rfl := Option.some.inj ha
    obtain rfl := Option.some.inj hb
    exact nearestRank_mono (not_le.1 hlt).le
  obtain rfl := hab.antisymm hba
  exact hlt (value_eq_of_beq (beq_iff.2 ⟨a, ha, hb⟩)).le

/-! ### Multiplying -/

/-- A product of mantissas has bits to spare, or too low an exponent. -/
theorem add_le_targetExponent {m n : ℕ} {p q : ℤ} (hm : 0 < m) (hn : 0 < n) (hu : Canonical m p)
    (hv : Canonical n q) :
    p + q ≤ Format.binary64.targetExponent (totalExponent (m * n) (p + q)) := by
  have hpos : m * n ≠ 0 := (Nat.mul_pos hm hn).ne'
  rw [targetExponent_eq]
  by_cases hlow : p = -1074 ∧ q = -1074
  · omega
  · have hfull : 2 ^ 52 ≤ m * n := by
      rcases hu.full with hp | hm'
      · have hn' := hv.full.resolve_left fun hq ↦ hlow ⟨hp, hq⟩
        exact hn'.trans (Nat.le_mul_of_pos_left n hm)
      · exact hm'.trans (Nat.le_mul_of_pos_right m hn)
    have hlog := (Nat.le_log2 hpos).2 hfull
    omega

theorem signed_mul (s s' : Sign) (m n : ℕ) :
    signed (isMinus (s * s')) (m * n : ℕ) = signed (isMinus s) m * signed (isMinus s') n := by
  rw [Nat.cast_mul]
  rcases s with _ | _
  · rcases s' with _ | _
    · exact (neg_mul_neg _ _).symm
    · exact (neg_mul _ _).symm
  · rcases s' with _ | _
    · exact (mul_neg _ _).symm
    · rfl

theorem value_of_unpack_zero {x : Float} {s : Sign} (h : x.toModel.unpack = .zero s) :
    value x = 0 := by
  rw [value_eq, h]
  show ((signed (isMinus s) 0 : ℤ) : ℚ) * _ = 0
  rw [signed_eq_zero_iff.2 rfl, Int.cast_zero, zero_mul]

theorem value_of_unpack_finite {x : Float} {s : Sign} {m : ℕ} {q : ℤ} {hm : 0 < m}
    (h : x.toModel.unpack = .finite s m q hm) : value x = signed (isMinus s) m * 2 ^ q := by
  rw [value_eq, h]
  rfl

/-- **A product is the exact one, rounded.** -/
theorem rank_mul {x y : Float} (hx : x.isFinite = true) (hy : y.isFinite = true) :
    rank (x * y) = some (nearestRank (value x * value y)) := by
  show rank (.ofModel (.pack (UnpackedFloat.mul Format.binary64 x.toModel.unpack
    y.toModel.unpack))) = _
  obtain ⟨s, hs⟩ | ⟨s, m, p, hm, hs⟩ := unpack_of_isFinite hx
  · rw [value_of_unpack_zero hs, zero_mul, nearestRank_zero, hs]
    obtain ⟨s', hs'⟩ | ⟨s', n, q, hn, hs'⟩ := unpack_of_isFinite hy
    · rw [hs']
      exact rank_pack_zero _
    · rw [hs']
      exact rank_pack_zero _
  · obtain ⟨s', hs'⟩ | ⟨s', n, q, hn, hs'⟩ := unpack_of_isFinite hy
    · rw [value_of_unpack_zero hs', mul_zero, nearestRank_zero, hs, hs']
      exact rank_pack_zero _
    · have hexponent := add_le_targetExponent hm hn (canonical_of_unpack hs).1
        (canonical_of_unpack hs').1
      rw [value_of_unpack_finite hs, value_of_unpack_finite hs', hs, hs']
      refine (rank_pack_roundWithAccuracy (s * s') (Nat.mul_pos hm hn) hexponent).trans ?_
      rw [signed_mul, Int.cast_mul, zpow_add₀ (by norm_num), mul_mul_mul_comm]

/-- What is not finite stays so in a product. -/
theorem not_isFinite_mul {u v : UnpackedFloat} (h : ¬ (u.isFinite = true ∧ v.isFinite = true)) :
    ¬ (UnpackedFloat.mul Format.binary64 u v).isFinite = true := by
  rcases u with s | _ | s | ⟨s, m, p, hm⟩
  · rcases v with s' | _ | s' | ⟨s', n, q, hn⟩ <;> exact Bool.false_ne_true
  · exact Bool.false_ne_true
  · rcases v with s' | _ | s' | ⟨s', n, q, hn⟩
    · exact Bool.false_ne_true
    · exact Bool.false_ne_true
    · exact absurd ⟨rfl, rfl⟩ h
    · exact absurd ⟨rfl, rfl⟩ h
  · rcases v with s' | _ | s' | ⟨s', n, q, hn⟩
    · exact Bool.false_ne_true
    · exact Bool.false_ne_true
    · exact absurd ⟨rfl, rfl⟩ h
    · exact absurd ⟨rfl, rfl⟩ h

/-- **A product is zero** if its factors are finite and the exact product is not beyond half of the
least double, and only then. -/
theorem mul_beq_zero_iff {x y : Float} :
    (x * y == 0.0) = true ↔
      x.isFinite = true ∧ y.isFinite = true ∧ |value x * value y| ≤ 2 ^ (-1075 : ℤ) := by
  rw [beq_zero_iff]
  by_cases h : x.isFinite = true ∧ y.isFinite = true
  · rw [rank_mul h.1 h.2, Option.some_inj, nearestRank_eq_zero_iff]
    exact ⟨fun hle ↦ ⟨h.1, h.2, hle⟩, fun hxy ↦ hxy.2.2⟩
  · exact ⟨fun hzero ↦ absurd hzero (rank_pack_ne_zero (not_isFinite_mul h)),
      fun hxy ↦ absurd ⟨hxy.1, hxy.2.1⟩ h⟩

/-- A product that is not zero, but too small for a double: at most half of the least one. -/
structure Underflows (x y : Float) : Prop where
  left_finite : x.isFinite = true
  right_finite : y.isFinite = true
  ne_zero : value x * value y ≠ 0
  small : |value x * value y| ≤ 2 ^ (-1075 : ℤ)

/-- A product with a factor other than zero is zero if the other factor is, or if it underflows. -/
theorem mul_beq_zero_iff_underflows {x y : Float} (hy : ¬ (y == 0.0) = true) :
    (x * y == 0.0) = true ↔ (x == 0.0) = true ∧ y.isFinite = true ∨ Underflows x y := by
  rw [mul_beq_zero_iff]
  refine ⟨fun ⟨hx, hy', hle⟩ ↦ ?_, ?_⟩
  · rw [beq_zero_iff_value hy'] at hy
    rw [beq_zero_iff_value hx]
    rcases eq_or_ne (value x) 0 with hzero | hne
    · exact Or.inl ⟨hzero, hy'⟩
    · exact Or.inr ⟨hx, hy', mul_ne_zero hne hy, hle⟩
  · rintro (⟨hx, hy'⟩ | hunder)
    · have hfinite : x.isFinite = true := isFinite_iff.2 ⟨0, beq_zero_iff.1 hx, by decide⟩
      refine ⟨hfinite, hy', ?_⟩
      rw [(beq_zero_iff_value hfinite).1 hx, zero_mul, abs_zero]
      positivity
    · exact ⟨hunder.left_finite, hunder.right_finite, hunder.small⟩

theorem roundWithAccuracy_neg (s : Sign) (M : ℕ) (E : ℤ) (accuracy : Accuracy) :
    roundWithAccuracy Format.binary64 (-s) M E accuracy =
      (roundWithAccuracy Format.binary64 s M E accuracy).neg := by
  unfold roundWithAccuracy
  rcases shiftToTargetExponent Format.binary64 M E accuracy with ⟨once, q⟩
  dsimp only
  rcases shiftToTargetExponent Format.binary64 once.roundedMantissa q .exact with ⟨twice, q'⟩
  by_cases h : twice.mantissa = 0
  · rw [dif_pos h, dif_pos h]
    rfl
  · rw [dif_neg h, dif_neg h]
    rfl

theorem mul_neg_left (u v : UnpackedFloat) :
    UnpackedFloat.mul Format.binary64 u.neg v = (UnpackedFloat.mul Format.binary64 u v).neg := by
  have hsign : ∀ s s' : Sign, -s * s' = -(s * s') := by
    rintro (_ | _) (_ | _) <;> rfl
  rcases u with s | _ | s | ⟨s, m, p, hm⟩
  · rcases v with s' | _ | s' | ⟨s', n, q, hn⟩
    · exact congrArg UnpackedFloat.infinity (hsign s s')
    · rfl
    · rfl
    · exact congrArg UnpackedFloat.infinity (hsign s s')
  · rfl
  · rcases v with s' | _ | s' | ⟨s', n, q, hn⟩
    · rfl
    · rfl
    · exact congrArg UnpackedFloat.zero (hsign s s')
    · exact congrArg UnpackedFloat.zero (hsign s s')
  · rcases v with s' | _ | s' | ⟨s', n, q, hn⟩
    · exact congrArg UnpackedFloat.infinity (hsign s s')
    · rfl
    · exact congrArg UnpackedFloat.zero (hsign s s')
    · show roundWithAccuracy Format.binary64 (-s * s') (m * n) (p + q) .exact = _
      rw [hsign, roundWithAccuracy_neg]
      rfl

/-- Signs are multiplied apart from the magnitudes. -/
theorem float_neg_mul (x y : Float) : -x * y = -(x * y) := by
  apply ofFloat_injective
  rw [ofFloat_neg]
  show Parts.ofFloat (.ofModel (.pack (UnpackedFloat.mul Format.binary64 (-x).toModel.unpack
    y.toModel.unpack))) = (Parts.ofFloat (.ofModel (.pack (UnpackedFloat.mul Format.binary64
      x.toModel.unpack y.toModel.unpack)))).withSign (!·)
  rw [unpack_neg, mul_neg_left, ofFloat_pack_neg]

/-- Multiplication is commutative before anything is packed: signs, mantissas and exponents are
combined each for themselves, and are rounded together. -/
theorem unpacked_mul_comm (u v : UnpackedFloat) :
    UnpackedFloat.mul Format.binary64 u v = UnpackedFloat.mul Format.binary64 v u := by
  have hsign : ∀ s s' : Sign, s * s' = s' * s := by
    rintro (_ | _) (_ | _) <;> rfl
  rcases u with s | _ | s | ⟨s, m, p, hm⟩
  · rcases v with s' | _ | s' | ⟨s', n, q, hn⟩
    · exact congrArg UnpackedFloat.infinity (hsign s s')
    · rfl
    · rfl
    · exact congrArg UnpackedFloat.infinity (hsign s s')
  · rcases v with s' | _ | s' | ⟨s', n, q, hn⟩ <;> rfl
  · rcases v with s' | _ | s' | ⟨s', n, q, hn⟩
    · rfl
    · rfl
    · exact congrArg UnpackedFloat.zero (hsign s s')
    · exact congrArg UnpackedFloat.zero (hsign s s')
  · rcases v with s' | _ | s' | ⟨s', n, q, hn⟩
    · exact congrArg UnpackedFloat.infinity (hsign s s')
    · rfl
    · exact congrArg UnpackedFloat.zero (hsign s s')
    · show roundWithAccuracy Format.binary64 (s * s') (m * n) (p + q) .exact =
        roundWithAccuracy Format.binary64 (s' * s) (n * m) (q + p) .exact
      rw [hsign, Nat.mul_comm, Int.add_comm]

/-- **Multiplication of doubles is commutative**, to the last bit. -/
theorem float_mul_comm (x y : Float) : x * y = y * x :=
  congrArg (fun u ↦ Float.ofModel (.pack u)) (unpacked_mul_comm x.toModel.unpack y.toModel.unpack)

theorem nonneg_iff {x : Float} : 0.0 ≤ x ↔ ∃ a, rank x = some a ∧ 0 ≤ a := by
  rw [le_iff, rank_zero]
  refine ⟨?_, fun ⟨a, ha, hle⟩ ↦ ⟨0, a, rfl, ha, hle⟩⟩
  rintro ⟨b, a, hb, ha, hle⟩
  obtain rfl := Option.some.inj hb
  exact ⟨a, ha, hle⟩

theorem nonneg_zero : (0.0 : Float) ≤ 0.0 :=
  nonneg_iff.2 ⟨0, rank_zero, le_rfl⟩

theorem nearestRank_le (v : ℚ) : nearestRank v ≤ infinityPattern := by
  refine (le_abs_self _).trans ?_
  rw [nearestRank, abs_signed]
  exact_mod_cast Nat.min_le_left _ _

/-- An infinity stays one when it is multiplied. -/
theorem rank_mul_of_not_isFinite {x c : Float} (hx : 0.0 ≤ x) (hfinite : ¬ x.isFinite = true)
    (hc : c.isFinite = true) (hpos : 0 < value c) : rank (x * c) = some infinityPattern := by
  obtain ⟨a, ha, hnonneg⟩ := nonneg_iff.1 hx
  rw [rank_eq] at ha
  show rank (.ofModel (.pack (UnpackedFloat.mul Format.binary64 x.toModel.unpack
    c.toModel.unpack))) = _
  obtain hs | ⟨s, hs⟩ := unpack_of_not_isFinite hfinite
  · rw [hs] at ha
    exact absurd ha.symm (Option.some_ne_none a)
  · obtain ⟨s', hs'⟩ | ⟨s', n, q, hn, hs'⟩ := unpack_of_isFinite hc
    · exact absurd (value_of_unpack_zero hs') hpos.ne'
    · rw [value_of_unpack_finite hs'] at hpos
      rw [hs] at ha ⊢
      obtain rfl := Option.some.inj ha
      rw [hs']
      rcases s with _ | _
      · exact absurd hnonneg (by decide)
      · rcases s' with _ | _
        · have hneg : ((signed true n : ℤ) : ℚ) * 2 ^ q ≤ 0 := by
            have hle : (0 : ℚ) ≤ n * 2 ^ q := by positivity
            rw [signed, if_pos rfl, Int.cast_neg, neg_mul]
            exact neg_nonpos.2 hle
          exact absurd hpos hneg.not_gt
        · exact rank_pack_infinity .positive

/-- **Multiplying by a positive double keeps the order**, of infinities too. -/
theorem mul_le_mul_of_pos {x y c : Float} (hx : 0.0 ≤ x) (hxy : x ≤ y) (hc : c.isFinite = true)
    (hpos : 0 < value c) : x * c ≤ y * c := by
  obtain ⟨a, ha, hnonneg⟩ := nonneg_iff.1 hx
  obtain ⟨a', b, ha', hb, hab⟩ := le_iff.1 hxy
  obtain rfl := Option.some.inj (ha.symm.trans ha')
  have hy : 0.0 ≤ y := nonneg_iff.2 ⟨b, hb, hnonneg.trans hab⟩
  by_cases hfinite : y.isFinite = true
  · have hx' : x.isFinite = true := by
      obtain ⟨b', hb', hlt⟩ := isFinite_iff.1 hfinite
      obtain rfl := Option.some.inj (hb.symm.trans hb')
      refine isFinite_iff.2 ⟨a, ha, ?_⟩
      rw [abs_of_nonneg hnonneg]
      exact hab.trans_lt ((le_abs_self b).trans_lt hlt)
    refine le_iff.2 ⟨_, _, rank_mul hx' hc, rank_mul hfinite hc, nearestRank_mono ?_⟩
    exact mul_le_mul_of_nonneg_right (value_le_of_le hx' hfinite hxy) hpos.le
  · have hproduct := rank_mul_of_not_isFinite hy hfinite hc hpos
    by_cases hx' : x.isFinite = true
    · exact le_iff.2 ⟨_, _, rank_mul hx' hc, hproduct, nearestRank_le _⟩
    · exact le_iff.2 ⟨_, _, rank_mul_of_not_isFinite hx hx' hc hpos, hproduct, le_rfl⟩

/-! ### Subtracting -/

theorem rank_pack_canonical (s : Sign) {m : ℕ} {q : ℤ} (hm : 0 < m) (h : Canonical m q) :
    rank (.ofModel (.pack (.finite s m q hm))) =
      some (nearestRank (signed (isMinus s) m * 2 ^ q)) := by
  rw [rank_pack_finite s hm h, nearestRank_signed_mul _ hm, nearest_of_canonical _ h]

theorem isMinus_neg (s : Sign) : isMinus (-s) = !isMinus s := by
  rcases s with _ | _ <;> rfl

theorem apply_eq_signed (s : Sign) (n : ℤ) : s.apply n = signed (isMinus s) n := by
  rcases s with _ | _ <;> rfl

/-- Mantissas are subtracted at the lower one of two exponents. -/
theorem rank_pack_sub_finite (s s' : Sign) {m n : ℕ} (hm : 0 < m) (hn : 0 < n) (p q : ℤ) :
    rank (.ofModel (.pack (UnpackedFloat.sub Format.binary64 (.finite s m p hm)
      (.finite s' n q hn)))) =
      some (nearestRank (signed (isMinus s) m * 2 ^ p - signed (isMinus s') n * 2 ^ q)) := by
  let k := (p - min p q).toNat
  let l := (q - min p q).toNat
  have hk : min p q = p - k := by omega
  have hl : min p q = q - l := by omega
  show rank (.ofModel (.pack (UnpackedFloat.normalize Format.binary64
    (s.apply (m <<< k : ℕ) - s'.apply (n <<< l : ℕ)) (min p q) .positive))) = _
  rw [rank_pack_normalize, apply_eq_signed, apply_eq_signed, Int.cast_sub, sub_mul,
    ← signed_shiftLeft_mul_zpow _ m k, ← signed_shiftLeft_mul_zpow _ n l, ← hk, ← hl]

/-- **A difference is the exact one, rounded.** -/
theorem rank_sub {x y : Float} (hx : x.isFinite = true) (hy : y.isFinite = true) :
    rank (x - y) = some (nearestRank (value x - value y)) := by
  show rank (.ofModel (.pack (UnpackedFloat.sub Format.binary64 x.toModel.unpack
    y.toModel.unpack))) = _
  obtain ⟨s, hs⟩ | ⟨s, m, p, hm, hs⟩ := unpack_of_isFinite hx
  · obtain ⟨s', hs'⟩ | ⟨s', n, q, hn, hs'⟩ := unpack_of_isFinite hy
    · rw [value_of_unpack_zero hs, value_of_unpack_zero hs', sub_zero, nearestRank_zero, hs, hs']
      rcases s with _ | _ <;> rcases s' with _ | _ <;> exact rank_pack_zero _
    · rw [value_of_unpack_zero hs, value_of_unpack_finite hs', zero_sub, ← neg_mul, ← Int.cast_neg,
        ← signed_not, ← isMinus_neg, hs, hs']
      exact rank_pack_canonical (-s') hn (canonical_of_unpack hs').1
  · obtain ⟨s', hs'⟩ | ⟨s', n, q, hn, hs'⟩ := unpack_of_isFinite hy
    · rw [value_of_unpack_finite hs, value_of_unpack_zero hs', sub_zero, hs, hs']
      exact rank_pack_canonical s hm (canonical_of_unpack hs).1
    · rw [value_of_unpack_finite hs, value_of_unpack_finite hs', hs, hs']
      exact rank_pack_sub_finite s s' hm hn p q

/-- What is not finite stays so in a difference. -/
theorem not_isFinite_sub {u v : UnpackedFloat} (h : ¬ (u.isFinite = true ∧ v.isFinite = true)) :
    ¬ (UnpackedFloat.sub Format.binary64 u v).isFinite = true := by
  rcases u with s | _ | s | ⟨s, m, p, hm⟩
  · rcases v with s' | _ | s' | ⟨s', n, q, hn⟩
    · rcases s with _ | _ <;> rcases s' with _ | _ <;> exact Bool.false_ne_true
    · exact Bool.false_ne_true
    · exact Bool.false_ne_true
    · exact Bool.false_ne_true
  · exact Bool.false_ne_true
  · rcases v with s' | _ | s' | ⟨s', n, q, hn⟩
    · exact Bool.false_ne_true
    · exact Bool.false_ne_true
    · exact absurd ⟨rfl, rfl⟩ h
    · exact absurd ⟨rfl, rfl⟩ h
  · rcases v with s' | _ | s' | ⟨s', n, q, hn⟩
    · exact Bool.false_ne_true
    · exact Bool.false_ne_true
    · exact absurd ⟨rfl, rfl⟩ h
    · exact absurd ⟨rfl, rfl⟩ h

/-- **A difference is zero** if its operands are finite and equal, and only then. -/
theorem sub_beq_zero_iff {x y : Float} :
    (x - y == 0.0) = true ↔ x.isFinite = true ∧ (x == y) = true := by
  rw [beq_zero_iff]
  by_cases h : x.isFinite = true ∧ y.isFinite = true
  · obtain ⟨k, hk⟩ := exists_value_eq x
    obtain ⟨l, hl⟩ := exists_value_eq y
    -- the exact difference is on the same grid, where nothing but zero is rounded to zero
    have hvalue : value x - value y = (k - l : ℤ) * 2 ^ (-1074 : ℤ) := by
      rw [hk, hl, Int.cast_sub, sub_mul]
    rw [rank_sub h.1 h.2, Option.some_inj, hvalue, nearestRank_mul_eq_zero_iff, sub_eq_zero]
    refine ⟨fun heq ↦ ⟨h.1, beq_iff.2 ⟨_, rank_eq_nearestRank h.1, ?_⟩⟩, fun hxy ↦ ?_⟩
    · rw [rank_eq_nearestRank h.2, hk, hl, heq]
    · have heq := value_eq_of_beq hxy.2
      rw [hk, hl] at heq
      exact_mod_cast mul_right_cancel₀ (by positivity) heq
  · refine ⟨fun hzero ↦ absurd hzero (rank_pack_ne_zero (not_isFinite_sub h)), fun hxy ↦ ?_⟩
    obtain ⟨a, ha, hlt⟩ := isFinite_iff.1 hxy.1
    obtain ⟨b, hb, hb'⟩ := beq_iff.1 hxy.2
    obtain rfl := Option.some.inj (ha.symm.trans hb)
    exact absurd ⟨hxy.1, isFinite_iff.2 ⟨a, hb', hlt⟩⟩ h

end MatrixScript.Number
