import Mathlib.Algebra.Order.Field.Power
import Mathlib.Algebra.Order.Ring.Rat
import Mathlib.Tactic.FieldSimp
import Mathlib.Tactic.Linarith
import Mathlib.Tactic.Positivity
import Mathlib.Tactic.Ring
import MatrixScript.Number.Binary64

/-!
# The nearest double

What `Number.nearestPattern` computes, told on rational numbers. A quotient is rounded at the
exponent that leaves it below `2 ^ 53`, and not below `2 ^ 52` unless the exponent is the least one;
there is one such exponent (`RoundsAt.le`), so that the pattern depends on the value of the quotient
only, however it is written (`nearestPattern_eq`).

Patterns are in the order of the values they are nearest to (`nearestPattern_mono`), and the values
that are nearest to zero are those up to half of the least double (`nearestPattern_eq_zero_iff`).
-/

namespace MatrixScript.Number

/-! ### Rounding a quotient -/

section Quotient

variable {a b c d : Nat}

theorem roundDiv_mul_right (hc : 0 < c) (a b : Nat) : roundDiv (a * c) (b * c) = roundDiv a b := by
  have hlt : ∀ {x y : Nat}, x * c < y * c ↔ x < y := Nat.mul_lt_mul_right hc
  simp only [roundDiv, Nat.mul_div_mul_right _ _ hc, Nat.mul_mod_mul_right, ← Nat.mul_assoc, hlt]

/-- Rounding depends on the value of the quotient only. -/
theorem roundDiv_congr (hb : 0 < b) (hd : 0 < d) (h : a * d = c * b) :
    roundDiv a b = roundDiv c d := by
  rw [← roundDiv_mul_right hd a b, ← roundDiv_mul_right hb c d, h, Nat.mul_comm b d]

/-- Rounding keeps the order. -/
theorem roundDiv_mono (hb : 0 < b) (hd : 0 < d) (h : a * d ≤ c * b) :
    roundDiv a b ≤ roundDiv c d := by
  rcases h.eq_or_lt with heq | hlt
  · exact (roundDiv_congr hb hd heq).le
  · -- a greater result for the smaller quotient would put more than half a unit between the
    -- two results and their quotients
    by_contra hgt
    have hup := Nat.mul_le_mul_right d (two_mul_roundDiv_mul_le a b)
    have hdown := Nat.mul_le_mul_right b (two_mul_le_roundDiv_mul hd c)
    have hstep := Nat.mul_le_mul_right (b * d) (Nat.succ_le_of_lt (not_le.1 hgt))
    nlinarith

theorem roundDiv_one (a : Nat) : roundDiv a 1 = a := by
  simpa using roundDiv_mul_left Nat.one_pos a

/-- Up to a half, a quotient is rounded to zero. -/
theorem roundDiv_eq_zero_iff (hb : 0 < b) : roundDiv a b = 0 ↔ 2 * a ≤ b := by
  constructor
  · intro h
    have hdown := two_mul_le_roundDiv_mul hb a
    rwa [h, Nat.zero_mul, Nat.mul_zero, Nat.zero_add] at hdown
  · intro h
    have hlt : a < b := by omega
    rw [roundDiv, Nat.div_eq_of_lt hlt, Nat.mod_eq_of_lt hlt]
    split
    · rfl
    · rw [if_neg (by omega)]

end Quotient

/-! ### The exponent -/

/-- A positive value `v` is rounded to a multiple of `2 ^ q`. -/
structure RoundsAt (v : ℚ) (q : ℤ) : Prop where
  least : -1074 ≤ q
  lt : v < 2 ^ (q + 53)
  le : q = -1074 ∨ 2 ^ (q + 52) ≤ v

theorem zpow_two_le {p q : ℤ} (h : p ≤ q) : (2 : ℚ) ^ p ≤ 2 ^ q :=
  zpow_le_zpow_right₀ (by norm_num) h

/-- A greater value is rounded at no smaller exponent. -/
theorem RoundsAt.exponent_le {v w : ℚ} {p q : ℤ} (hv : RoundsAt v p) (hw : RoundsAt w q)
    (h : v ≤ w) : p ≤ q := by
  rcases hv.le with rfl | hle
  · exact hw.least
  · by_contra hlt
    have hpow : (2 : ℚ) ^ (q + 53) ≤ 2 ^ (p + 52) := zpow_two_le (by omega)
    exact absurd (hw.lt.trans_le (hpow.trans hle)) h.not_gt

theorem RoundsAt.exponent_eq {v : ℚ} {p q : ℤ} (hp : RoundsAt v p) (hq : RoundsAt v q) : p = q :=
  le_antisymm (hp.exponent_le hq le_rfl) (hq.exponent_le hp le_rfl)

/-- A quotient divided by a power of two. -/
theorem scaleDown_spec (num : Nat) {den : Nat} (hden : 0 < den) (q : ℤ) :
    0 < (scaleDown num den q).2 ∧
      ((scaleDown num den q).1 : ℚ) / (scaleDown num den q).2 = num / den / 2 ^ q := by
  rw [scaleDown]
  split
  · next hq =>
    obtain ⟨k, rfl⟩ := Int.eq_ofNat_of_zero_le hq
    refine ⟨Nat.mul_pos hden (Nat.two_pow_pos k), ?_⟩
    show (num : ℚ) / ((den * 2 ^ k : Nat) : ℚ) = num / den / 2 ^ (k : ℤ)
    rw [zpow_natCast, div_div]
    push_cast
    rfl
  · next hq =>
    obtain ⟨k, hk⟩ := Int.eq_ofNat_of_zero_le (a := -q) (by omega)
    obtain rfl : q = -(k : ℤ) := by omega
    refine ⟨hden, ?_⟩
    show ((num * 2 ^ (- -(k : ℤ)).toNat : Nat) : ℚ) / den = num / den / 2 ^ (-(k : ℤ))
    rw [neg_neg, Int.toNat_natCast, zpow_neg, zpow_natCast, div_inv_eq_mul]
    push_cast
    ring

theorem lt_zpow_log2_succ {n : Nat} : (n : ℚ) < 2 ^ ((n.log2 : ℤ) + 1) := by
  have h : n < 2 ^ (n.log2 + 1) := Nat.lt_log2_self
  exact_mod_cast h

theorem zpow_log2_le {n : Nat} (hn : n ≠ 0) : (2 : ℚ) ^ (n.log2 : ℤ) ≤ n := by
  have h : 2 ^ n.log2 ≤ n := Nat.log2_self_le hn
  exact_mod_cast h

/-- Comparing lengths in bits leaves two candidates, of which the right one is taken. -/
theorem roundsAt_roundingExponent {num den : Nat} (hnum : num ≠ 0) (hden : den ≠ 0) :
    RoundsAt (num / den) (roundingExponent num den) := by
  have hden' : (0 : ℚ) < den := by exact_mod_cast Nat.pos_of_ne_zero hden
  -- the quotient is known up to a factor of four
  let l : ℤ := (num.log2 : ℤ) - den.log2
  have hbelow : (num : ℚ) / den < 2 ^ (l + 1) := by
    rw [div_lt_iff₀ hden']
    calc (num : ℚ) < 2 ^ ((num.log2 : ℤ) + 1) := lt_zpow_log2_succ
      _ = 2 ^ (l + 1) * 2 ^ (den.log2 : ℤ) := by
        rw [← zpow_add₀ (by norm_num)]
        congr 1
        omega
      _ ≤ 2 ^ (l + 1) * den := by gcongr; exact zpow_log2_le hden
  have habove : (2 : ℚ) ^ (l - 1) ≤ num / den := by
    rw [le_div_iff₀ hden']
    calc (2 : ℚ) ^ (l - 1) * den ≤ 2 ^ (l - 1) * 2 ^ ((den.log2 : ℤ) + 1) := by
          gcongr
          exact lt_zpow_log2_succ.le
      _ = 2 ^ (num.log2 : ℤ) := by
        rw [← zpow_add₀ (by norm_num)]
        congr 1
        omega
      _ ≤ num := zpow_log2_le hnum
  let q : ℤ := max (l - 53) (-1074)
  obtain ⟨hb, hab⟩ := scaleDown_spec num (Nat.pos_of_ne_zero hden) q
  -- whether the first candidate is too small is seen from the integer part
  have htest : pow2 53 ≤ (scaleDown num den q).1 / (scaleDown num den q).2 ↔
      2 ^ (q + 53) ≤ (num : ℚ) / den := by
    have hcast : (pow2 53 : ℚ) = 2 ^ (53 : ℤ) := by norm_num [pow2]
    rw [Nat.le_div_iff_mul_le hb, add_comm, zpow_add₀ (by norm_num), ← le_div_iff₀ (by positivity),
      ← hab, le_div_iff₀ (by exact_mod_cast hb), ← hcast]
    exact_mod_cast Iff.rfl
  show RoundsAt _ (if pow2 53 ≤ (scaleDown num den q).1 / (scaleDown num den q).2 then q + 1 else q)
  split
  · next h =>
    refine ⟨by omega, ?_, Or.inr ?_⟩
    · exact hbelow.trans_le (zpow_two_le (by omega))
    · rw [add_assoc]
      exact htest.1 h
  · next h =>
    refine ⟨by omega, not_le.1 fun hle ↦ h (htest.2 hle), ?_⟩
    rcases max_choice (l - 53) (-1074) with hq | hq
    · right
      refine le_trans (zpow_two_le ?_) habove
      omega
    · exact Or.inl hq

/-! ### The pattern -/

theorem natCast_div_le_iff {a b c d : Nat} (hb : 0 < b) (hd : 0 < d) :
    (a : ℚ) / b ≤ c / d ↔ a * d ≤ c * b := by
  rw [div_le_div_iff₀ (by exact_mod_cast hb) (by exact_mod_cast hd)]
  exact_mod_cast Iff.rfl

/-- **The pattern of a value**, at the exponent that it is rounded at and from any quotient that
has the value in units of that exponent. -/
theorem nearestPattern_eq {num den : Nat} (hden : 0 < den) {q : ℤ} (hq : RoundsAt (num / den) q)
    {a b : Nat} (hb : 0 < b) (hab : (a : ℚ) / b = num / den / 2 ^ q) :
    nearestPattern num den = (q + 1074).toNat * 2 ^ 52 + roundDiv a b := by
  rcases Nat.eq_zero_or_pos num with rfl | hnum
  · have hq' : q = -1074 := hq.le.resolve_right fun hle ↦ by
      have hpos : (0 : ℚ) < 2 ^ (q + 52) := by positivity
      rw [Nat.cast_zero, zero_div] at hle
      exact absurd hpos hle.not_gt
    have ha : a = 0 := by
      rw [Nat.cast_zero, zero_div, zero_div, div_eq_zero_iff] at hab
      exact_mod_cast hab.resolve_right (by exact_mod_cast hb.ne')
    rw [nearestPattern, if_pos rfl, ha, (roundDiv_eq_zero_iff hb).2 (Nat.zero_le b), hq']
    rfl
  · obtain rfl := (roundsAt_roundingExponent hnum.ne' hden.ne').exponent_eq hq
    obtain ⟨hb', hab'⟩ := scaleDown_spec num hden (roundingExponent num den)
    have hsame := hab'.trans hab.symm
    rw [div_eq_div_iff (by exact_mod_cast hb'.ne') (by exact_mod_cast hb.ne')] at hsame
    rw [nearestPattern, if_neg hnum.ne', ← roundDiv_congr hb' hb (by exact_mod_cast hsame)]
    rfl

/-- Every value is rounded at some exponent. -/
theorem exists_nearestPattern_eq (num : Nat) {den : Nat} (hden : 0 < den) :
    ∃ (q : ℤ) (a b : Nat), RoundsAt (num / den) q ∧ 0 < b ∧ (a : ℚ) / b = num / den / 2 ^ q ∧
      nearestPattern num den = (q + 1074).toNat * 2 ^ 52 + roundDiv a b := by
  obtain ⟨q, hq⟩ : ∃ q, RoundsAt ((num : ℚ) / den) q := by
    rcases Nat.eq_zero_or_pos num with rfl | hnum
    · exact ⟨-1074, le_rfl, by simp, Or.inl rfl⟩
    · exact ⟨_, roundsAt_roundingExponent hnum.ne' hden.ne'⟩
  obtain ⟨hb, hab⟩ := scaleDown_spec num hden q
  exact ⟨q, _, _, hq, hb, hab, nearestPattern_eq hden hq hb hab⟩

/-- Rounded at its exponent, a value has at most 53 bits or is the next power of two. -/
theorem RoundsAt.roundDiv_le {v : ℚ} {q : ℤ} (h : RoundsAt v q) {a b : Nat} (hb : 0 < b)
    (hab : (a : ℚ) / b = v / 2 ^ q) : roundDiv a b ≤ 2 ^ 53 := by
  have hle : (a : ℚ) / b ≤ (2 ^ 53 : Nat) / (1 : Nat) := by
    rw [hab, div_le_iff₀ (by positivity), Nat.cast_one, div_one]
    refine h.lt.le.trans_eq ?_
    rw [add_comm, zpow_add₀ (by norm_num)]
    norm_num
  exact (roundDiv_mono hb Nat.one_pos ((natCast_div_le_iff hb Nat.one_pos).1 hle)).trans_eq
    (roundDiv_one _)

/-- Rounded at an exponent that is not the least one, a value has 53 bits. -/
theorem RoundsAt.le_roundDiv {v : ℚ} {q : ℤ} (h : RoundsAt v q) (hq : q ≠ -1074) {a b : Nat}
    (hb : 0 < b) (hab : (a : ℚ) / b = v / 2 ^ q) : 2 ^ 52 ≤ roundDiv a b := by
  have hle : ((2 ^ 52 : Nat) : ℚ) / (1 : Nat) ≤ a / b := by
    rw [hab, le_div_iff₀ (by positivity), Nat.cast_one, div_one]
    refine le_trans (le_of_eq ?_) (h.le.resolve_left hq)
    rw [add_comm q, zpow_add₀ (by norm_num)]
    norm_num
  exact (roundDiv_one _).symm.le.trans
    (roundDiv_mono Nat.one_pos hb ((natCast_div_le_iff Nat.one_pos hb).1 hle))

/-- **Patterns are in the order of the values.** -/
theorem nearestPattern_mono {num den num' den' : Nat} (hden : 0 < den) (hden' : 0 < den')
    (h : (num : ℚ) / den ≤ num' / den') : nearestPattern num den ≤ nearestPattern num' den' := by
  obtain ⟨q, a, b, hq, hb, hab, heq⟩ := exists_nearestPattern_eq num hden
  obtain ⟨q', a', b', hq', hb', hab', heq'⟩ := exists_nearestPattern_eq num' hden'
  rw [heq, heq']
  rcases (hq.exponent_le hq' h).eq_or_lt with rfl | hlt
  · refine Nat.add_le_add_left (roundDiv_mono hb hb' ((natCast_div_le_iff hb hb').1 ?_)) _
    rw [hab, hab']
    gcongr
  · -- the smaller exponent makes up for a carry
    have hleast := hq.least
    have hcarry := hq.roundDiv_le hb hab
    have hfull := hq'.le_roundDiv (by omega) hb' hab'
    omega

/-- **Underflow**: the values nearest to zero are those up to half of the least double. -/
theorem nearestPattern_eq_zero_iff {num den : Nat} (hden : 0 < den) :
    nearestPattern num den = 0 ↔ (num : ℚ) / den ≤ 2 ^ (-1075 : ℤ) := by
  obtain ⟨q, a, b, hq, hb, hab, heq⟩ := exists_nearestPattern_eq num hden
  have hb' : (0 : ℚ) < b := by exact_mod_cast hb
  rcases eq_or_ne q (-1074) with rfl | hne
  · have hhalf : (2 : ℚ) ^ (-1075 : ℤ) = 1 / 2 * 2 ^ (-1074 : ℤ) := by
      rw [show (-1075 : ℤ) = -1 + -1074 from rfl, zpow_add₀ (by norm_num)]
      norm_num
    have hpattern : nearestPattern num den = roundDiv a b := by simpa using heq
    rw [hpattern, roundDiv_eq_zero_iff hb, hhalf, ← div_le_iff₀ (by positivity), ← hab,
      div_le_div_iff₀ hb' (by norm_num)]
    rw [one_mul, mul_comm (a : ℚ)]
    exact_mod_cast Iff.rfl
  · have hfull := hq.le_roundDiv hne hb hab
    have hlarge : (2 : ℚ) ^ (-1075 : ℤ) < num / den := by
      refine lt_of_lt_of_le ?_ (hq.le.resolve_left hne)
      have hleast := hq.least
      exact zpow_lt_zpow_right₀ (by norm_num) (by omega)
    exact ⟨fun h ↦ by omega, fun h ↦ absurd hlarge h.not_gt⟩

end MatrixScript.Number
