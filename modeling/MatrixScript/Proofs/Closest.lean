import MatrixScript.Number.Fixed
import MatrixScript.Proofs.Numeral

/-!
# The closest double

Rounding told by distances. A natural number is a value rounded (`RoundsTo`) if it is no further
away than a half, and even if it is exactly a half away. There is one such number (`RoundsTo.eq`),
and it is also what any value that is closer to it is rounded to (`RoundsTo.of_closer`).

A value is rounded to a multiple of a power of two, and among the doubles there may be finer ones.
They are all below the value where that power of two is not the least, and not above the least
multiple that has 53 bits, so the double that is found is still the closest of all
(`RoundsAt.abs_sub_le`). A value next to a finite double does not round beyond the doubles
(`nearestPattern_lt_infinityPattern`).
-/

namespace MatrixScript.Number

/-! ### Rounding to a natural number -/

/-- A natural number that a value is rounded to: the closest one, and an even one if there are
two. -/
structure RoundsTo (v : ℚ) (n : ℕ) : Prop where
  near : |(n : ℚ) - v| ≤ 1 / 2
  even : |(n : ℚ) - v| = 1 / 2 → Even n

theorem one_le_abs_natCast_sub {n k : ℕ} (hne : n ≠ k) (v : ℚ) :
    1 ≤ |(n : ℚ) - v| + |(k : ℚ) - v| := by
  have hone : (1 : ℤ) ≤ |(n : ℤ) - k| := Int.one_le_abs (by omega)
  calc (1 : ℚ) ≤ |(n : ℚ) - k| := by exact_mod_cast hone
    _ ≤ |(n : ℚ) - v| + |v - k| := abs_sub_le _ _ _
    _ = |(n : ℚ) - v| + |(k : ℚ) - v| := by rw [abs_sub_comm v]

namespace RoundsTo

variable {v w : ℚ} {n k : ℕ}

/-- No natural number is closer. -/
theorem closest (h : RoundsTo v n) (k : ℕ) : |(n : ℚ) - v| ≤ |(k : ℚ) - v| := by
  rcases eq_or_ne n k with rfl | hne
  · exact le_rfl
  · linarith [h.near, one_le_abs_natCast_sub hne v]

/-- A value is rounded to one number only. -/
theorem eq (h : RoundsTo v n) (h' : RoundsTo v k) : n = k := by
  by_contra hne
  have hsum := one_le_abs_natCast_sub hne v
  -- both numbers are a half away, so they are even and next to each other
  have hn : |(n : ℚ) - v| = 1 / 2 := by linarith [h.near, h'.near]
  have hk : |(k : ℚ) - v| = 1 / 2 := by linarith [h.near, h'.near]
  have hdist : |(n : ℚ) - k| ≤ 1 := by
    calc |(n : ℚ) - k| ≤ |(n : ℚ) - v| + |v - k| := abs_sub_le _ _ _
      _ = 1 := by rw [abs_sub_comm v, hn, hk]; norm_num
  have hdist' : |(n : ℤ) - k| ≤ 1 := by exact_mod_cast hdist
  obtain ⟨i, hi⟩ := h.even hn
  obtain ⟨j, hj⟩ := h'.even hk
  rw [abs_le] at hdist'
  omega

/-- A value that is closer to the rounded number is rounded to the same one. -/
theorem of_closer (h : RoundsTo v n) (hw : |(n : ℚ) - w| ≤ |(n : ℚ) - v|) : RoundsTo w n := by
  refine ⟨hw.trans h.near, fun heq ↦ h.even ?_⟩
  exact le_antisymm h.near (heq ▸ hw)

end RoundsTo

theorem roundsTo_natCast (n : ℕ) : RoundsTo n n := by
  constructor <;> norm_num

/-- A quotient that is half a unit away from its rounding is half way between two numbers, of
which the even one is taken. -/
theorem even_roundDiv_of_half {a b : ℕ} (hb : 0 < b)
    (h : 2 * (roundDiv a b * b) = 2 * a + b ∨ 2 * a = 2 * (roundDiv a b * b) + b) :
    Even (roundDiv a b) := by
  have ha : a / b * b + a % b = a := Nat.div_add_mod' a b
  have hmod : a % b < b := Nat.mod_lt a hb
  have hsucc : (a / b + 1) * b = a / b * b + b := Nat.succ_mul _ _
  rcases lt_trichotomy (2 * (a % b)) b with hlt | heq | hgt
  · rw [roundDiv, if_pos hlt] at h
    omega
  · rw [roundDiv, if_neg (by omega), if_neg (by omega), Nat.even_iff]
    omega
  · rw [roundDiv, if_neg (by omega), if_pos hgt] at h
    omega

theorem abs_mul_sub (x v : ℚ) {c : ℚ} (hc : 0 < c) : |x * c - v| = |x - v / c| * c := by
  rw [← abs_of_pos hc, ← abs_mul, abs_of_pos hc, sub_mul, div_mul_cancel₀ _ hc.ne']

theorem roundsTo_roundDiv (a : ℕ) {b : ℕ} (hb : 0 < b) : RoundsTo (a / b) (roundDiv a b) := by
  have hb' : (0 : ℚ) < b := by exact_mod_cast hb
  have hup : (2 * (roundDiv a b * b) : ℚ) ≤ 2 * a + b := by
    exact_mod_cast two_mul_roundDiv_mul_le a b
  have hdown : (2 * a : ℚ) ≤ 2 * (roundDiv a b * b) + b := by
    exact_mod_cast two_mul_le_roundDiv_mul hb a
  have hscale := abs_mul_sub (roundDiv a b) a hb'
  constructor
  · rw [← mul_le_mul_iff_left₀ hb', ← hscale, abs_le]
    constructor <;> linarith
  · intro hhalf
    refine even_roundDiv_of_half hb ?_
    rw [hhalf] at hscale
    rcases eq_or_eq_neg_of_abs_eq hscale with h | h
    · have hcast : (2 * (roundDiv a b * b) : ℚ) = 2 * a + b := by linarith
      exact .inl (by exact_mod_cast hcast)
    · have hcast : (2 * a : ℚ) = 2 * (roundDiv a b * b) + b := by linarith
      exact .inr (by exact_mod_cast hcast)

/-- A magnitude counted in units of a decimal place is rounded. -/
theorem roundsTo_unitsOf (p m : ℕ) (q : ℤ) : RoundsTo (m * 2 ^ q * 10 ^ p) (unitsOf p m q) := by
  rw [unitsOf]
  split
  · next hq =>
    obtain ⟨k, rfl⟩ := Int.eq_ofNat_of_zero_le hq
    have hexact : (m : ℚ) * 2 ^ (k : ℤ) * 10 ^ p = (m * 2 ^ k * 10 ^ p : ℕ) := by
      rw [zpow_natCast]
      push_cast
      rfl
    rw [hexact]
    exact roundsTo_natCast _
  · next hq =>
    obtain ⟨k, hk⟩ := Int.eq_ofNat_of_zero_le (a := -q) (by omega)
    obtain rfl : q = -(k : ℤ) := by omega
    have hquotient : (m : ℚ) * 2 ^ (-(k : ℤ)) * 10 ^ p = (m * 10 ^ p : ℕ) / (2 ^ k : ℕ) := by
      rw [zpow_neg, zpow_natCast]
      push_cast
      ring
    rw [hquotient, neg_neg, Int.toNat_natCast]
    exact roundsTo_roundDiv _ (Nat.two_pow_pos k)

/-! ### Rounding to a double -/

section Closest

variable {v : ℚ} {q : ℤ} {r : ℕ}

/-- No multiple of the power of two that a value is rounded at is closer. -/
theorem RoundsTo.abs_mul_sub_le (hr : RoundsTo (v / 2 ^ q) r) (k : ℕ) :
    |r * 2 ^ q - v| ≤ |k * 2 ^ q - v| := by
  have hpos : (0 : ℚ) < 2 ^ q := by positivity
  rw [abs_mul_sub _ _ hpos, abs_mul_sub _ _ hpos]
  exact mul_le_mul_of_nonneg_right (hr.closest k) hpos.le

/-- **No double is closer.** -/
theorem RoundsAt.abs_sub_le (h : RoundsAt v q) (hr : RoundsTo (v / 2 ^ q) r) {m : ℕ} {p : ℤ}
    (hm : Canonical m p) : |r * 2 ^ q - v| ≤ |m * 2 ^ p - v| := by
  rcases le_or_gt q p with hle | hlt
  · obtain ⟨k, hk⟩ := Int.eq_ofNat_of_zero_le (sub_nonneg.2 hle)
    obtain rfl : p = k + q := by omega
    have hmultiple : (m : ℚ) * 2 ^ ((k : ℤ) + q) = (m * 2 ^ k : ℕ) * 2 ^ q := by
      rw [zpow_add₀ (by norm_num), zpow_natCast]
      push_cast
      ring
    rw [hmultiple]
    exact hr.abs_mul_sub_le _
  · -- a finer double is below the least multiple with 53 bits, and that is not above the value
    have hleast := hm.least
    have hv : (2 ^ 52 : ℕ) * 2 ^ q ≤ v := by
      refine le_trans (le_of_eq ?_) (h.le.resolve_left (by omega))
      rw [add_comm q, zpow_add₀ (by norm_num)]
      norm_num
    have hfine : (m : ℚ) * 2 ^ p ≤ (2 ^ 52 : ℕ) * 2 ^ q := by
      have hm' : (m : ℚ) ≤ 2 ^ (53 : ℤ) := by exact_mod_cast hm.lt.le
      calc (m : ℚ) * 2 ^ p ≤ 2 ^ (53 : ℤ) * 2 ^ p := by gcongr
        _ = 2 ^ (53 + p) := (zpow_add₀ (by norm_num) _ _).symm
        _ ≤ 2 ^ (52 + q) := zpow_two_le (by omega)
        _ = (2 ^ 52 : ℕ) * 2 ^ q := by rw [zpow_add₀ (by norm_num)]; norm_num
    refine (hr.abs_mul_sub_le (2 ^ 52)).trans ?_
    rw [abs_sub_comm, abs_sub_comm _ v, abs_of_nonneg (sub_nonneg.2 hv),
      abs_of_nonneg (sub_nonneg.2 (hfine.trans hv))]
    exact sub_le_sub_left hfine v

end Closest

/-- A canonical mantissa and exponent with the pattern of a rounded value have this value, also if
rounding has carried. -/
theorem Canonical.mul_zpow_eq {m r : ℕ} {p q : ℤ} (hm : Canonical m p) (hq : -1074 ≤ q)
    (hr : r ≤ 2 ^ 53) (hfull : q = -1074 ∨ 2 ^ 52 ≤ r)
    (h : (p + 1074).toNat * 2 ^ 52 + m = (q + 1074).toNat * 2 ^ 52 + r) :
    (m : ℚ) * 2 ^ p = r * 2 ^ q := by
  have hleast := hm.least
  have hlt := hm.lt
  have hfull' := hm.full
  rcases hr.lt_or_eq with hr | rfl
  · obtain ⟨rfl, rfl⟩ : m = r ∧ p = q := by omega
    rfl
  · obtain ⟨rfl, rfl⟩ : m = 2 ^ 52 ∧ p = 1 + q := by omega
    rw [zpow_add₀ (by norm_num)]
    push_cast
    ring

/-- What the nearest pattern is made of. -/
theorem exists_roundsTo (num : ℕ) {den : ℕ} (hden : 0 < den) :
    ∃ (q : ℤ) (r : ℕ), RoundsAt (num / den) q ∧ RoundsTo (num / den / 2 ^ q) r ∧ r ≤ 2 ^ 53 ∧
      (q = -1074 ∨ 2 ^ 52 ≤ r) ∧ nearestPattern num den = (q + 1074).toNat * 2 ^ 52 + r := by
  obtain ⟨q, a, b, hq, hb, hab, heq⟩ := exists_nearestPattern_eq num hden
  refine ⟨q, roundDiv a b, hq, hab ▸ roundsTo_roundDiv a hb, hq.roundDiv_le hb hab, ?_, heq⟩
  exact (eq_or_ne q (-1074)).imp_right fun hne ↦ hq.le_roundDiv hne hb hab

/-- **The nearest pattern is of the closest double.** -/
theorem closest_of_ofPattern? {negative : Bool} {num den : ℕ} (hden : 0 < den) {y : Float}
    (h : ofPattern? negative (nearestPattern num den) = some y) :
    ∃ (m : ℕ) (q : ℤ), Parts.ofFloat y = .finite negative m q ∧
      ∀ {n : ℕ} {p : ℤ}, Canonical n p →
        |(m : ℚ) * 2 ^ q - num / den| ≤ |(n : ℚ) * 2 ^ p - num / den| := by
  obtain ⟨m, p, hparts, hm, -, hpattern⟩ := ofFloat_of_ofPattern? h
  obtain ⟨q, r, hq, hr, hle, hfull, heq⟩ := exists_roundsTo num hden
  refine ⟨m, p, hparts, fun hn ↦ ?_⟩
  rw [hm.mul_zpow_eq hq.least hle hfull (hpattern.trans heq)]
  exact hq.abs_sub_le hr hn

/-- A value next to a finite double does not round beyond the doubles. -/
theorem nearestPattern_lt_infinityPattern {num den : ℕ} (hden : 0 < den) {m : ℕ} {p : ℤ}
    (hm : Canonical m p) (hp : p ≤ 971) (hnear : |(m : ℚ) * 2 ^ p - num / den| ≤ 1) :
    nearestPattern num den < infinityPattern := by
  obtain ⟨q, r, hq, hr, hle, hfull, heq⟩ := exists_roundsTo num hden
  have hleast := hq.least
  by_contra hinfinite
  rw [heq, infinityPattern_eq, not_lt] at hinfinite
  -- the pattern stands for `2 ^ 53` of the greatest units at least, and the double is below it
  obtain ⟨u, hu, hgap⟩ : ∃ u : ℚ, u = 2 ^ (971 : ℤ) ∧ 2 < u := by
    refine ⟨_, rfl, lt_of_lt_of_le ?_ (zpow_two_le (p := 2) (by norm_num))⟩
    norm_num
  have hpos : 0 < u := two_pos.trans hgap
  have hbeyond : 2 ^ 53 * u ≤ r * 2 ^ q := by
    rcases eq_or_lt_of_le (show 971 ≤ q by omega) with rfl | hlt
    · obtain rfl : r = 2 ^ 53 := by omega
      rw [hu, Nat.cast_pow, Nat.cast_ofNat]
    · have hr' : (2 : ℚ) ^ 52 ≤ r := by exact_mod_cast hfull.resolve_left (by omega)
      have hpow : 2 * u ≤ 2 ^ q := by
        rw [hu, ← zpow_one_add₀ (by norm_num)]
        exact zpow_two_le (by omega)
      calc 2 ^ 53 * u = 2 ^ 52 * (2 * u) := by ring
        _ ≤ (r : ℚ) * 2 ^ q := mul_le_mul hr' hpow (mul_pos two_pos hpos).le r.cast_nonneg
  have hfinite : m * 2 ^ p ≤ (2 ^ 53 - 1) * u := by
    have hm' : (m : ℚ) ≤ 2 ^ 53 - 1 := by
      rw [le_sub_iff_add_le]
      exact_mod_cast hm.lt
    have hpow : 2 ^ p ≤ u := hu ▸ zpow_two_le hp
    exact mul_le_mul hm' hpow (by positivity) (by norm_num)
  have hclosest := hq.abs_sub_le hr hm
  have hrounded := le_abs_self ((r : ℚ) * 2 ^ q - num / den)
  have hvalue := neg_abs_le ((m : ℚ) * 2 ^ p - num / den)
  linarith only [hbeyond, hfinite, hgap, hnear, hclosest, hrounded, hvalue]

end MatrixScript.Number
