/-!
# Rounding a quotient

Every inexact step of the number texts is one division of natural numbers rounded to the
nearest integer, a half going to the even neighbour. Writing a double with a fixed number of
decimals and reading a decimal numeral as a double both reduce to `roundDiv`.
-/

namespace MatrixScript.Number

/-- Two to the power `n`. -/
def pow2 (n : Nat) : Nat :=
  Nat.pow 2 n

/-- Ten to the power `n`. -/
def pow10 (n : Nat) : Nat :=
  Nat.pow 10 n

/-- The integer nearest to `a / b`, the even one of the two if `a / b` is half way between. -/
def roundDiv (a b : Nat) : Nat :=
  if 2 * (a % b) < b then a / b
  else if b < 2 * (a % b) then a / b + 1
  else a / b + a / b % 2

/-- An exact quotient is not changed by rounding. -/
theorem roundDiv_mul_left {b : Nat} (hb : 0 < b) (q : Nat) : roundDiv (b * q) b = q := by
  simp [roundDiv, Nat.mul_mod_right, hb]

/-- Rounding goes up by half a unit at most. -/
theorem two_mul_roundDiv_mul_le (a b : Nat) : 2 * (roundDiv a b * b) ≤ 2 * a + b := by
  have ha : a / b * b + a % b = a := Nat.div_add_mod' a b
  have hsucc : (a / b + 1) * b = a / b * b + b := Nat.succ_mul _ _
  unfold roundDiv
  split
  · omega
  · split
    · omega
    · rcases Nat.mod_two_eq_zero_or_one (a / b) with hq | hq <;> rw [hq]
      · rw [Nat.add_zero]
        omega
      · omega

/-- Rounding goes down by half a unit at most. -/
theorem two_mul_le_roundDiv_mul {b : Nat} (hb : 0 < b) (a : Nat) :
    2 * a ≤ 2 * (roundDiv a b * b) + b := by
  have ha : a / b * b + a % b = a := Nat.div_add_mod' a b
  have hmod : a % b < b := Nat.mod_lt a hb
  have hsucc : (a / b + 1) * b = a / b * b + b := Nat.succ_mul _ _
  unfold roundDiv
  split
  · omega
  · split
    · omega
    · rcases Nat.mod_two_eq_zero_or_one (a / b) with hq | hq <;> rw [hq]
      · rw [Nat.add_zero]
        omega
      · omega

end MatrixScript.Number
