import Mathlib.Algebra.Order.Ring.Abs
import MatrixScript.Proofs.Rounds

/-!
# Systems of equations in other units

Multiplying all entries of a system by one number other than zero changes none of its solutions.
Over the rationals, it changes nothing in how the system is solved either: every pivot is found in
the same row and accepted or refused as before, and every unknown gets the same value.

Each step is compared with the same step on the multiplied grid. Magnitudes are multiplied by the
magnitude of the factor, and so are thresholds, because they are fractions of a magnitude; hence
comparisons come out the same (`pivotRow_scale`, `atMost_scale_iff`). A quotient of two entries
does not change, so a round leaves the multiplied grid of what it left before (`eliminate_scale`).
The determinant has one factor for each round, and none of them is zero (`det_scale`).
-/

namespace MatrixScript.Grid

variable {rows cols n : Nat}

/-! ### Multiplied grids -/

theorem get_scale (g : Grid ℚ rows cols) (c : ℚ) (i : Fin rows) (j : Fin cols) :
    (g.scale c).get i j = g.get i j * c :=
  get_map _ g i j

theorem isZero_iff {x : ℚ} : Arith.isZero x = true ↔ x = 0 :=
  beq_iff_eq.trans Rat.num_eq_zero

theorem swapRows_scale (g : Grid ℚ rows cols) (c : ℚ) (a b : Fin rows) :
    (g.scale c).swapRows a b = (g.swapRows a b).scale c := by
  ext i j
  rw [get_swapRows, get_scale, get_scale, get_swapRows]

theorem dropLastCol_scale (g : Grid ℚ rows (cols + 1)) (c : ℚ) :
    (g.scale c).dropLastCol = g.dropLastCol.scale c := by
  ext i j
  rw [get_dropLastCol, get_scale, get_scale, get_dropLastCol]

/-- A round on the multiplied grid. -/
def Round.scale (r : Round ℚ rows cols) (c : ℚ) : Round ℚ rows cols :=
  ⟨r.source, r.pivot * c, r.grid.scale c⟩

/-- What is left of a right-hand side is multiplied with it. -/
theorem residual_scale (g : Grid ℚ n (n + 1)) (c : ℚ) (x : Vector ℚ n) (i : Fin n) :
    (g.scale c).residual x i = g.residual x i * c := by
  rw [residual_eq, residual_eq, sub_mul, Finset.sum_mul, get_scale]
  refine congrArg _ (Finset.sum_congr rfl fun j _ ↦ ?_)
  rw [get_scale, mul_right_comm]

section Factor

variable {c : ℚ} (hc : c ≠ 0)

include hc

/-! ### Comparisons -/

theorem larger_mul (found x : ℚ) : larger (found * |c|) (x * |c|) = larger found x * |c| := by
  have hbelow : Arith.below (found * |c|) (x * |c|) = true ↔ Arith.below found x = true :=
    mul_lt_mul_iff_left₀ (abs_pos.2 hc)
  unfold larger
  by_cases h : Arith.below found x = true
  · rw [if_pos h, if_pos (hbelow.2 h)]
  · rw [if_neg h, if_neg fun h' ↦ h (hbelow.1 h')]

/-- The largest coefficient is multiplied by the magnitude of the factor. -/
theorem magnitude_scale (g : Grid ℚ rows cols) (width : Nat) :
    (g.scale c).magnitude width = g.magnitude width * |c| := by
  have hcell : ∀ (acc : ℚ) (i : Fin rows) (j : Fin cols),
      larger (acc * |c|) (Arith.abs ((g.scale c).get i j)) =
        larger acc (Arith.abs (g.get i j)) * |c| := by
    intro acc i j
    rw [get_scale, rat_abs_eq, abs_mul, rat_abs_eq]
    exact larger_mul hc _ _
  -- the folds go over the rows and over the cells of a row, and both start from multiples
  have hstart : (Arith.zero : ℚ) * |c| = Arith.zero := zero_mul |c|
  unfold magnitude
  conv_lhs => rw [← hstart]
  refine List.foldl_hom (· * |c|) (fun acc i ↦ ?_)
  exact List.foldl_hom (· * |c|) fun acc j ↦ hcell acc i j

theorem threshold_scale (g : Grid ℚ rows cols) (width : Nat) :
    (g.scale c).threshold width = g.threshold width * |c| := by
  show (g.scale c).magnitude width * (Arith.tolerance : ℚ) =
    g.magnitude width * (Arith.tolerance : ℚ) * |c|
  rw [magnitude_scale hc, mul_right_comm]

/-- **The pivot is found in the same row.** -/
theorem pivotRow_scale (g : Grid ℚ rows cols) (top : Fin rows) (col : Fin cols) :
    (g.scale c).pivotRow top col = g.pivotRow top col := by
  unfold pivotRow
  congr 1
  funext best i
  refine if_congr ?_ rfl rfl
  rw [ranksAtMost_abs_iff, ranksAtMost_abs_iff, get_scale, get_scale, abs_mul, abs_mul]
  exact mul_le_mul_iff_left₀ (abs_pos.2 hc)

/-- **It is refused as before.** -/
theorem atMost_scale_iff (x limit : ℚ) :
    Arith.atMost (Arith.abs (x * c)) (limit * |c|) = true ↔
      Arith.atMost (Arith.abs x) limit = true := by
  rw [atMost_abs_iff, atMost_abs_iff, abs_mul]
  exact mul_le_mul_iff_left₀ (abs_pos.2 hc)

/-! ### Rounds -/

theorem clearBelow_scale (g : Grid ℚ rows cols) (top : Fin rows) (col : Fin cols) :
    (g.scale c).clearBelow top col = (g.clearBelow top col).scale c := by
  ext i j
  rw [get_scale, get_clearBelow, get_clearBelow]
  simp only [get_scale]
  split
  · show g.get i j * c - g.get i col * c / (g.get top col * c) * (g.get top j * c) =
      (g.get i j - g.get i col / g.get top col * g.get top j) * c
    rw [mul_div_mul_right _ _ hc]
    ring
  · rfl

/-- **One round.** -/
theorem eliminate_scale (g : Grid ℚ rows cols) (limit : ℚ) (top : Fin rows) (col : Fin cols) :
    (g.scale c).eliminate (limit * |c|) top col =
      (g.eliminate limit top col).map (·.scale c) := by
  simp only [eliminate, pivotRow_scale hc, get_scale, swapRows_scale, clearBelow_scale hc]
  by_cases h : Arith.atMost (Arith.abs (g.get (g.pivotRow top col) col)) limit = true
  · rw [if_pos h, if_pos ((atMost_scale_iff hc _ _).2 h)]
    rfl
  · rw [if_neg h, if_neg fun h' ↦ h ((atMost_scale_iff hc _ _).1 h')]
    rfl

/-- **Any number of rounds of forward elimination.** -/
theorem reduceTo_scale (g : Grid ℚ rows cols) (limit : ℚ) {k : Nat} (hrows : k ≤ rows)
    (hcols : k ≤ cols) :
    (g.scale c).reduceTo (limit * |c|) k hrows hcols =
      (g.reduceTo limit k hrows hcols).map (·.scale c) := by
  induction k with
  | zero => rfl
  | succ k ih =>
    rw [reduceTo, reduceTo, ih]
    rcases g.reduceTo limit k (Nat.le_of_succ_le hrows) (Nat.le_of_succ_le hcols) with _ | m
    · rfl
    · show ((m.scale c).eliminate (limit * |c|) ⟨k, hrows⟩ ⟨k, hcols⟩).map _ = _
      rw [eliminate_scale hc, Option.map_map, Option.map_map]
      rfl

theorem reduce_scale (g : Grid ℚ rows cols) : (g.scale c).reduce = g.reduce.map (·.scale c) := by
  rw [reduce, threshold_scale hc, reduceTo_scale hc]
  rfl

/-- **Any number of rounds of the determinant**, each of which multiplies the product once more. -/
theorem detTo_scale (g : Grid ℚ n n) (limit : ℚ) {k : Nat} (h : k ≤ n) :
    (g.scale c).detTo (limit * |c|) k h =
      (g.detTo limit k h).map fun p ↦ (p.1.scale c, p.2 * c ^ k) := by
  induction k with
  | zero =>
    show some (g.scale c, (1 : ℚ)) = some (g.scale c, 1 * c ^ 0)
    rw [pow_zero, mul_one]
  | succ k ih =>
    rw [detTo_succ, detTo_succ, ih]
    rcases g.detTo limit k (Nat.le_of_succ_le h) with _ | ⟨m, d⟩
    · rfl
    · show ((m.scale c).eliminate (limit * |c|) ⟨k, h⟩ ⟨k, h⟩).map _ =
        ((m.eliminate limit ⟨k, h⟩ ⟨k, h⟩).map _).map _
      rw [eliminate_scale hc, Option.map_map, Option.map_map]
      congr 1
      funext r
      refine Prod.ext rfl ?_
      show (if r.source ≠ ⟨k, h⟩ then -(d * c ^ k) else d * c ^ k) * (r.pivot * c) =
        (if r.source ≠ ⟨k, h⟩ then -d else d) * r.pivot * c ^ (k + 1)
      split
      · ring
      · ring

/-- The determinant is multiplied once for each row. -/
theorem det_scale (g : Grid ℚ n n) : (g.scale c).det = g.det * c ^ n := by
  rw [det, det, threshold_scale hc, detTo_scale hc]
  rcases g.detTo (g.threshold n) n le_rfl with _ | ⟨m, d⟩
  · exact (zero_mul (c ^ n)).symm
  · rfl

/-! ### Back substitution -/

/-- **Every unknown gets the same value.** -/
theorem substituteTo_scale (g : Grid ℚ n (n + 1)) (limit : ℚ) {k : Nat} (h : k ≤ n) :
    (g.scale c).substituteTo (limit * |c|) k h = g.substituteTo limit k h := by
  induction k with
  | zero => rfl
  | succ k ih =>
    rw [substituteTo, substituteTo, ih]
    rcases g.substituteTo limit k (Nat.le_of_succ_le h) with _ | x
    · rfl
    · have hi : n - (k + 1) < n := by omega
      have hquotient : ∀ a p : ℚ, a * c / (p * c) = a / p := fun a p ↦ mul_div_mul_right a p hc
      simp only [get_scale, residual_scale]
      refine if_congr (atMost_scale_iff hc _ _) rfl (congrArg some ?_)
      exact congrArg (fun y ↦ x.set (n - (k + 1)) y hi) (hquotient _ _)

theorem substitute_scale (g : Grid ℚ n (n + 1)) : (g.scale c).substitute = g.substitute := by
  rw [substitute, substitute, threshold_scale hc, substituteTo_scale hc]

/-- **Solving.** -/
theorem solve_scale (g : Grid ℚ n (n + 1)) : (g.scale c).solve = g.solve := by
  have hzero : Arith.isZero (g.scale c).dropLastCol.det = Arith.isZero g.dropLastCol.det := by
    rw [dropLastCol_scale, det_scale hc, Bool.eq_iff_iff, isZero_iff, isZero_iff]
    exact mul_eq_zero_iff_right (pow_ne_zero n hc)
  have hsubstitute : (g.scale c).reduce.bind substitute = g.reduce.bind substitute := by
    rw [reduce_scale hc, Option.bind_map]
    congr 1
    funext m
    exact substitute_scale hc m
  rw [solve, solve, hzero, hsubstitute]

end Factor

end MatrixScript.Grid

namespace MatrixScript.Table

/-- **Solving does not depend on the scale.** Over the rationals, a system of `n` equations in `n`
unknowns and the same system with every entry multiplied by a number other than zero are either both
solved, with the same result, or both refused as singular. -/
theorem solve_scale_invariant {n : Nat} (S : Grid ℚ n (n + 1)) {c : ℚ} (hc : c ≠ 0) :
    (∃ u : Grid ℚ n 1, ((⟨n, n + 1, S⟩ : Table ℚ).scale c).solve = .ok ⟨n, 1, u⟩ ∧
      (⟨n, n + 1, S⟩ : Table ℚ).solve = .ok ⟨n, 1, u⟩) ∨
    ((⟨n, n + 1, S⟩ : Table ℚ).scale c).solve = .error .singular ∧
      (⟨n, n + 1, S⟩ : Table ℚ).solve = .error .singular := by
  simp only [scale, solve, dite_true, Grid.cast_rfl, Grid.solve_scale hc]
  rcases S.solve with _ | u
  · exact Or.inr ⟨rfl, rfl⟩
  · exact Or.inl ⟨u, rfl, rfl⟩

/-- With a negative factor, for a system whose first pivot has to be brought up, and for one whose
equations are multiples of each other. -/
theorem solve_scale_invariant_negated :
    let S : Grid ℚ 2 3 := ⟨#v[0, 1, 3, 2, 1, 5]⟩
    let S' : Grid ℚ 2 3 := ⟨#v[1, 2, 3, 2, 4, 6]⟩
    ((-1 / 3 : ℚ) ≠ 0) ∧
      ((⟨2, 3, S⟩ : Table ℚ).scale (-1 / 3)).solve = .ok ⟨2, 1, ⟨#v[1, 3]⟩⟩ ∧
      ((⟨2, 3, S'⟩ : Table ℚ).scale (-1 / 3)).solve = .error .singular := by
  intro S S'
  have hc : (-1 / 3 : ℚ) ≠ 0 := by norm_num
  have hS : (⟨2, 3, S⟩ : Table ℚ).solve = .ok ⟨2, 1, ⟨#v[1, 3]⟩⟩ := by decide +kernel
  have hS' : (⟨2, 3, S'⟩ : Table ℚ).solve = .error .singular := by decide +kernel
  refine ⟨hc, ?_, ?_⟩
  · obtain ⟨u, hscaled, hu⟩ | ⟨-, hsingular⟩ := solve_scale_invariant S hc
    · rw [hscaled, ← hu, hS]
    · rw [hS] at hsingular
      exact absurd hsingular (by rintro ⟨⟩)
  · obtain ⟨u, -, hu⟩ | ⟨hscaled, -⟩ := solve_scale_invariant S' hc
    · rw [hS'] at hu
      exact absurd hu (by rintro ⟨⟩)
    · exact hscaled

end MatrixScript.Table
