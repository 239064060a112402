import MatrixScript.Proofs.DoubleArithmetic
import MatrixScript.Proofs.Rounds

/-!
# Systems that are refused after all

A system of equations can come through forward elimination, with every pivot accepted, and still be
refused as singular by the step before it or by the step after it. Both are told here in full, for
doubles as they are.

* The determinant is a product of pivots. The pivots are measured against the coefficients, the
  product is not measured against anything, so it may underflow to zero
  (`Table.det_beq_zero_iff`).
* Back substitution measures the pivots again, against a threshold that it takes from the reduced
  matrix. Elimination may have made a coefficient larger, and a pivot that was beyond the first
  threshold may be within the second one (`Table.substitute_after_reduce`).

An accepted pivot is never zero, since no threshold is negative (`threshold_nonneg_float`).
-/

namespace MatrixScript.Grid

open Number

variable {α : Type} [Arith α] {rows cols n : Nat}

/-! ### Thresholds -/

theorem larger_nonneg_float {found : Float} (h : 0.0 ≤ found) (x : Float) :
    0.0 ≤ larger found x := by
  unfold larger
  split
  · next hbelow =>
    have hlt : found < x := of_decide_eq_true hbelow
    exact float_le_trans h (float_le_of_lt hlt)
  · exact h

theorem magnitude_nonneg (g : Grid Float rows cols) (width : Nat) : 0.0 ≤ g.magnitude width := by
  refine List.foldlRecOn _ _ nonneg_zero fun acc hacc i _ ↦ ?_
  exact List.foldlRecOn _ _ hacc fun acc hacc j _ ↦ larger_nonneg_float hacc _

theorem ofFloat_tolerance :
    Parts.ofFloat Arith.tolerance = .finite false 4951760157141521 (-92) := by
  decide +kernel

theorem isFinite_tolerance : (Arith.tolerance : Float).isFinite = true := by
  refine isFinite_iff.2 ⟨_, by rw [rank, ofFloat_tolerance]; rfl, ?_⟩
  rw [abs_signed]
  decide

theorem value_tolerance_pos : 0 < value Arith.tolerance := by
  rw [value, ofFloat_tolerance]
  show (0 : ℚ) < (4951760157141521 : ℤ) * 2 ^ (-92 : ℤ)
  positivity

/-- **A matrix with no larger coefficient has no greater threshold.** -/
theorem threshold_le_of_magnitude_le {rows' cols' : Nat} {g : Grid Float rows cols}
    {g' : Grid Float rows' cols'} {width width' : Nat}
    (h : g.magnitude width ≤ g'.magnitude width') : g.threshold width ≤ g'.threshold width' :=
  mul_le_mul_of_pos (g.magnitude_nonneg width) h isFinite_tolerance value_tolerance_pos

theorem threshold_nonneg_float (g : Grid Float rows cols) (width : Nat) :
    0.0 ≤ g.threshold width := by
  have hle : 0.0 * Arith.tolerance ≤ g.threshold width :=
    mul_le_mul_of_pos nonneg_zero (g.magnitude_nonneg width) isFinite_tolerance value_tolerance_pos
  have hne : ¬ (Arith.tolerance == (0.0 : Float)) = true := by
    rw [beq_zero_iff_value isFinite_tolerance]
    exact value_tolerance_pos.ne'
  have hzero : (0.0 * Arith.tolerance == (0.0 : Float)) = true :=
    (mul_beq_zero_iff_underflows hne).2 (Or.inl ⟨beq_zero_iff.2 rank_zero, isFinite_tolerance⟩)
  exact float_le_trans (nonneg_iff.2 ⟨0, beq_zero_iff.1 hzero, le_rfl⟩) hle

/-- A pivot that is accepted is not zero. -/
theorem Accepted.not_beq_zero {limit x : Float} (h : Accepted limit x) (hlimit : 0.0 ≤ limit) :
    ¬ (x == 0.0) = true := by
  intro hx
  refine h (decide_eq_true ?_)
  obtain ⟨a, ha, hnonneg⟩ := nonneg_iff.1 hlimit
  refine le_iff.2 ⟨0, a, ?_, ha, hnonneg⟩
  show rank x.abs = some 0
  rw [rank_abs, beq_zero_iff.1 hx]
  rfl

/-- An accepted pivot that compares with anything is beyond the limit. -/
theorem Accepted.lt_abs {limit x bound : Float} (h : Accepted limit x) (hlimit : 0.0 ≤ limit)
    (hx : x.abs ≤ bound) : limit < x.abs := by
  obtain ⟨a, -, ha, -, -⟩ := le_iff.1 hx
  obtain ⟨b, hb, -⟩ := nonneg_iff.1 hlimit
  refine lt_iff.2 ⟨b, a, hb, ha, ?_⟩
  by_contra hle
  exact h (decide_eq_true (le_iff.2 ⟨a, b, ha, hb, not_lt.1 hle⟩))

/-! ### Products of pivots -/

/-- The product of the first `k` entries on the diagonal, each factor in its turn. -/
def diagonalProduct (R : Grid α n (n + 1)) (k : Nat) (h : k ≤ n) : α :=
  Fin.foldl k (fun d i ↦ d * R.get (i.castLE h) (i.castLE h).castSucc) Arith.one

theorem diagonalProduct_succ (R : Grid α n (n + 1)) {k : Nat} (h : k + 1 ≤ n) :
    R.diagonalProduct (k + 1) h =
      R.diagonalProduct k (Nat.le_of_succ_le h) * R.get ⟨k, h⟩ (Fin.castSucc ⟨k, h⟩) := by
  rw [diagonalProduct, Fin.foldl_succ_last]
  rfl

/-- The exchanges of rows have no say but in the sign of a determinant. -/
theorem productTo_eq_or_eq_neg (stage : Fin n → Grid Float n (n + 1)) (R : Grid Float n (n + 1))
    {k : Nat} (h : k ≤ n) :
    productTo stage R k h = R.diagonalProduct k h ∨
      productTo stage R k h = -R.diagonalProduct k h := by
  induction k with
  | zero =>
    left
    rw [productTo, diagonalProduct, Fin.foldl_zero, Fin.foldl_zero]
  | succ k ih =>
    rw [productTo_succ, diagonalProduct_succ]
    generalize R.get ⟨k, h⟩ (Fin.castSucc ⟨k, h⟩) = p
    split
    · obtain hk | hk := ih (Nat.le_of_succ_le h)
      · exact Or.inr (by rw [hk, float_neg_mul])
      · exact Or.inl (by rw [hk, float_neg_neg])
    · obtain hk | hk := ih (Nat.le_of_succ_le h)
      · exact Or.inl (by rw [hk])
      · exact Or.inr (by rw [hk, float_neg_mul])

/-- **How a product of pivots gets to zero**: by an underflow, with none but finite pivots after
it. -/
theorem diagonalProduct_beq_zero_iff {R : Grid Float n (n + 1)}
    (hne : ∀ i : Fin n, ¬ (R.get i i.castSucc == 0.0) = true) {k : Nat} (h : k ≤ n) :
    (R.diagonalProduct k h == 0.0) = true ↔
      ∃ j : Fin n, j.val < k ∧ Underflows (R.diagonalProduct j j.isLt.le) (R.get j j.castSucc) ∧
        ∀ i : Fin n, j < i → i.val < k → (R.get i i.castSucc).isFinite = true := by
  induction k with
  | zero =>
    have hone : ¬ ((1.0 : Float) == 0.0) = true := by decide +kernel
    refine ⟨fun hzero ↦ absurd hzero hone, ?_⟩
    rintro ⟨j, hj, -⟩
    exact absurd hj (Nat.not_lt_zero _)
  | succ k ih =>
    -- a zero lasts as long as the pivots are finite; a new one can only come from an underflow
    rw [diagonalProduct_succ, mul_beq_zero_iff_underflows (hne ⟨k, h⟩), ih (Nat.le_of_succ_le h)]
    refine ⟨?_, ?_⟩
    · rintro (⟨⟨j, hj, hunder, hfinite⟩, hlast⟩ | hunder)
      · refine ⟨j, Nat.lt_succ_of_lt hj, hunder, fun i hji hi ↦ ?_⟩
        rcases Nat.lt_succ_iff_lt_or_eq.1 hi with hlt | heq
        · exact hfinite i hji hlt
        · obtain rfl : i = ⟨k, h⟩ := Fin.ext heq
          exact hlast
      · refine ⟨⟨k, h⟩, Nat.lt_succ_self k, hunder, fun i hji hi ↦ ?_⟩
        exact absurd (Fin.lt_def.1 hji) (Nat.not_lt.2 (Nat.lt_succ_iff.1 hi))
    · rintro ⟨j, hj, hunder, hfinite⟩
      rcases Nat.lt_succ_iff_lt_or_eq.1 hj with hlt | heq
      · refine Or.inl ⟨⟨j, hlt, hunder, fun i hji hi ↦ hfinite i hji (Nat.lt_succ_of_lt hi)⟩, ?_⟩
        exact hfinite ⟨k, h⟩ (Fin.lt_def.2 hlt) (Nat.lt_succ_self k)
      · obtain rfl : j = ⟨k, h⟩ := Fin.ext heq
        exact Or.inr hunder

/-- The diagonal of what forward elimination leaves has no zero. -/
theorem not_beq_zero_of_reduce {S R : Grid Float n (n + 1)} (h : S.reduce = some R) (i : Fin n) :
    ¬ (R.get i i.castSucc == 0.0) = true := by
  rw [reduce_eq_reduceTo] at h
  exact (accepted_diagonal_of_reduceTo i.isLt h).not_beq_zero (S.threshold_nonneg_float n)

/-- The determinant of a system that comes through is zero exactly if the product underflows. -/
theorem det_dropLastCol_beq_zero_iff {S R : Grid Float n (n + 1)} (h : S.reduce = some R) :
    (S.dropLastCol.det == 0.0) = true ↔
      ∃ j : Fin n, Underflows (R.diagonalProduct j j.isLt.le) (R.get j j.castSucc) ∧
        ∀ i : Fin n, j < i → (R.get i i.castSucc).isFinite = true := by
  obtain ⟨stage, hstage⟩ := exists_stages h
  have hsign : (S.dropLastCol.det == 0.0) = true ↔
      (R.diagonalProduct n (le_refl n) == 0.0) = true := by
    rw [det_dropLastCol_of_reduce_eq_some h hstage]
    obtain hproduct | hproduct := productTo_eq_or_eq_neg stage R (le_refl n)
    · rw [hproduct]
    · rw [hproduct, beq_zero_iff, beq_zero_iff, rank_neg, Option.map_eq_some_iff]
      refine ⟨?_, fun hzero ↦ ⟨0, hzero, neg_zero⟩⟩
      rintro ⟨a, ha, hzero⟩
      rw [ha, neg_eq_zero.1 hzero]
  rw [hsign, diagonalProduct_beq_zero_iff (not_beq_zero_of_reduce h)]
  refine ⟨?_, ?_⟩
  · rintro ⟨j, -, hunder, hfinite⟩
    exact ⟨j, hunder, fun i hji ↦ hfinite i hji i.isLt⟩
  · rintro ⟨j, hunder, hfinite⟩
    exact ⟨j, j.isLt, hunder, fun i hji _ ↦ hfinite i hji⟩

/-! ### Back substitution -/

/-- **Back substitution goes as far as pivots are accepted.** -/
theorem substituteTo_eq_none_iff (g : Grid α n (n + 1)) (limit : α) {k : Nat} (h : k ≤ n) :
    g.substituteTo limit k h = none ↔
      ∃ i : Fin n, n ≤ i.val + k ∧ ¬ Accepted limit (g.get i i.castSucc) := by
  induction k with
  | zero =>
    refine ⟨fun hnone ↦ absurd hnone (Option.some_ne_none _), ?_⟩
    rintro ⟨i, hi, -⟩
    exact absurd i.isLt (Nat.not_lt.2 hi)
  | succ k ih =>
    have hbefore := ih (Nat.le_of_succ_le h)
    have hlt : n - (k + 1) < n := by omega
    rw [substituteTo]
    rcases hx : g.substituteTo limit k (Nat.le_of_succ_le h) with _ | x
    · obtain ⟨i, hi, hrefused⟩ := hbefore.1 hx
      exact ⟨fun _ ↦ ⟨i, by omega, hrefused⟩, fun _ ↦ rfl⟩
    · have hall : ∀ i : Fin n, n ≤ i.val + k → Accepted limit (g.get i i.castSucc) := by
        intro i hi
        by_contra hrefused
        exact absurd (hx.symm.trans (hbefore.2 ⟨i, hi, hrefused⟩)) (Option.some_ne_none x)
      have hlast : ∀ i : Fin n, n ≤ i.val + (k + 1) → ¬ Accepted limit (g.get i i.castSucc) →
          i = ⟨n - (k + 1), hlt⟩ := by
        intro i hi hrefused
        refine Fin.ext ?_
        by_contra hne
        have hi' : n ≤ i.val + k := by
          have hval : i.val ≠ n - (k + 1) := hne
          omega
        exact hrefused (hall i hi')
      show (if Arith.atMost (Arith.abs (g.get ⟨n - (k + 1), hlt⟩
        (Fin.castSucc ⟨n - (k + 1), hlt⟩))) limit then none else some _) = none ↔ _
      split
      · next hatMost =>
        refine ⟨fun _ ↦ ⟨⟨n - (k + 1), hlt⟩, ?_, fun haccepted ↦ haccepted hatMost⟩, fun _ ↦ rfl⟩
        show n ≤ n - (k + 1) + (k + 1)
        omega
      · next haccepted =>
        refine ⟨fun hnone ↦ absurd hnone (Option.some_ne_none _), ?_⟩
        rintro ⟨i, hi, hrefused⟩
        obtain rfl := hlast i hi hrefused
        exact absurd haccepted hrefused

theorem substitute_eq_none_iff (g : Grid α n (n + 1)) :
    g.substitute = none ↔ ∃ i : Fin n, ¬ Accepted (g.threshold n) (g.get i i.castSucc) := by
  rw [substitute, Option.map_eq_none_iff, substituteTo_eq_none_iff]
  refine exists_congr fun i ↦ and_iff_right ?_
  exact Nat.le_add_left n i

/-- What has been accepted by forward elimination is refused between the two thresholds. -/
theorem substitute_eq_none_iff_of_reduce {S R : Grid Float n (n + 1)} (h : S.reduce = some R) :
    R.substitute = none ↔
      ∃ i : Fin n, S.threshold n < (R.get i i.castSucc).abs ∧
        (R.get i i.castSucc).abs ≤ R.threshold n := by
  rw [reduce_eq_reduceTo] at h
  rw [substitute_eq_none_iff]
  refine exists_congr fun i ↦ ⟨fun hrefused ↦ ?_, fun hbetween haccepted ↦ ?_⟩
  · have hle : (R.get i i.castSucc).abs ≤ R.threshold n := of_decide_eq_true (not_not.1 hrefused)
    have haccepted := accepted_diagonal_of_reduceTo i.isLt h
    exact ⟨haccepted.lt_abs (S.threshold_nonneg_float n) hle, hle⟩
  · exact haccepted (decide_eq_true hbetween.2)

/-- No entry is between the thresholds if the second one is not the greater one. -/
theorem not_between_of_magnitude_le {S R : Grid Float n (n + 1)}
    (h : R.magnitude n ≤ S.magnitude n) (x : Float) :
    ¬ (S.threshold n < x ∧ x ≤ R.threshold n) := by
  rintro ⟨hlt, hle⟩
  exact float_not_lt_of_le (float_le_trans hle (threshold_le_of_magnitude_le h)) hlt

end MatrixScript.Grid

namespace MatrixScript.Table

open Number

variable {n : Nat}

/-- **When the determinant comes out as zero.** Either forward elimination refuses the system, or it
leaves a diagonal whose product underflows at some entry, with finite entries after it. A system
whose determinant comes out as zero is never solved. -/
theorem det_beq_zero_iff (S : Grid Float n (n + 1)) :
    ((∃ d, (⟨n, n, S.dropLastCol⟩ : Table Float).det = .ok d ∧ (d == 0.0) = true) ↔
      (⟨n, n + 1, S⟩ : Table Float).reduce = .error .singular ∨
        ∃ R : Grid Float n (n + 1), (⟨n, n + 1, S⟩ : Table Float).reduce = .ok ⟨n, n + 1, R⟩ ∧
          ∃ k : Fin n, Underflows (R.diagonalProduct k k.isLt.le) (R.get k k.castSucc) ∧
            ∀ i : Fin n, k < i → (R.get i i.castSucc).isFinite = true) ∧
      ∀ d, (⟨n, n, S.dropLastCol⟩ : Table Float).det = .ok d → (d == 0.0) = true →
        (⟨n, n + 1, S⟩ : Table Float).solve = .error .singular := by
  have hdet : (⟨n, n, S.dropLastCol⟩ : Table Float).det = .ok S.dropLastCol.det := by
    rw [det, dif_pos rfl, Grid.cast_rfl]
  refine ⟨?_, fun d hd hzero ↦ ?_⟩
  · have hexists : (∃ d, (⟨n, n, S.dropLastCol⟩ : Table Float).det = .ok d ∧ (d == 0.0) = true) ↔
        (S.dropLastCol.det == 0.0) = true := by
      rw [hdet]
      refine ⟨?_, fun hzero ↦ ⟨_, rfl, hzero⟩⟩
      rintro ⟨d, hd, hzero⟩
      rwa [Except.ok.inj hd]
    rw [hexists, reduce]
    rcases hreduce : S.reduce with _ | R
    · have hzero : (S.dropLastCol.det == 0.0) = true := by
        rw [Grid.det_dropLastCol_of_reduce_eq_none hreduce]
        exact beq_zero_iff.2 rank_zero
      exact ⟨fun _ ↦ Or.inl rfl, fun _ ↦ hzero⟩
    · rw [Grid.det_dropLastCol_beq_zero_iff hreduce]
      refine ⟨fun hunder ↦ Or.inr ⟨R, rfl, hunder⟩, ?_⟩
      rintro (herror | ⟨R', hR', hunder⟩)
      · exact absurd herror (by rintro ⟨⟩)
      · obtain rfl : R = R' := by injection Except.ok.inj hR'
        exact hunder
  · obtain rfl := Except.ok.inj (hdet.symm.trans hd)
    have hsolve : S.solve = none := if_pos hzero
    simp only [solve, dite_true, Grid.cast_rfl, hsolve]

theorem tiny_evaluates :
    let S : Grid Float 2 3 := ⟨#v[1e-200, 0, 1e-200, 0, 1e-200, 1e-200]⟩
    (∀ i j, (S.get i j).isFinite = true) ∧
      (⟨2, 3, S⟩ : Table Float).reduce = .ok ⟨2, 3, S⟩ ∧
      (⟨2, 2, S.dropLastCol⟩ : Table Float).det = .ok 0.0 := by
  decide +kernel

/-- The equations `1e-200 x = 1e-200` and `1e-200 y = 1e-200`: elimination leaves them as they are,
the product of the two pivots underflows, and the system is not solved. -/
theorem det_beq_zero_iff_tiny :
    let S : Grid Float 2 3 := ⟨#v[1e-200, 0, 1e-200, 0, 1e-200, 1e-200]⟩
    (⟨2, 3, S⟩ : Table Float).reduce = .ok ⟨2, 3, S⟩ ∧
      (∃ k : Fin 2, Underflows (S.diagonalProduct k k.isLt.le) (S.get k k.castSucc)) ∧
      (⟨2, 3, S⟩ : Table Float).solve = .error .singular := by
  intro S
  obtain ⟨-, hreduce, hdet⟩ := tiny_evaluates
  have hzero : ((0.0 : Float) == 0.0) = true := beq_zero_iff.2 rank_zero
  refine ⟨hreduce, ?_, (det_beq_zero_iff S).2 0.0 hdet hzero⟩
  obtain hsingular | ⟨R, hR, k, hunder, -⟩ := (det_beq_zero_iff S).1.1 ⟨0.0, hdet, hzero⟩
  · rw [hreduce] at hsingular
    exact absurd hsingular (by rintro ⟨⟩)
  · obtain rfl : S = R := by injection Except.ok.inj (hreduce.symm.trans hR)
    exact ⟨k, hunder⟩

/-- Not every system with a determinant of zero is refused by forward elimination. -/
theorem not_singular_of_det_beq_zero :
    ¬ ∀ (n : Nat) (S : Grid Float n (n + 1)), (∀ i j, (S.get i j).isFinite = true) →
      ∀ d, (⟨n, n, S.dropLastCol⟩ : Table Float).det = .ok d → (d == 0.0) = true →
        (⟨n, n + 1, S⟩ : Table Float).reduce = .error .singular := by
  intro h
  let S : Grid Float 2 3 := ⟨#v[1e-200, 0, 1e-200, 0, 1e-200, 1e-200]⟩
  obtain ⟨hfinite, hreduce, hdet⟩ := tiny_evaluates
  have hsingular : (⟨2, 3, S⟩ : Table Float).reduce = .error .singular :=
    h 2 S hfinite 0.0 hdet (beq_zero_iff.2 rank_zero)
  rw [hreduce] at hsingular
  exact absurd hsingular (by rintro ⟨⟩)

/-- **When back substitution refuses what elimination has accepted.** It solves the reduced system
unless some entry on the diagonal is beyond the threshold of the system and within that of the
reduced system. If no coefficient of the reduced system is larger than the largest one of the
system, there is no such entry. -/
theorem substitute_after_reduce {S R : Grid Float n (n + 1)}
    (h : (⟨n, n + 1, S⟩ : Table Float).reduce = .ok ⟨n, n + 1, R⟩) :
    ((∃ T, (⟨n, n + 1, R⟩ : Table Float).substitute = .ok T) ↔
      ¬ ∃ i : Fin n, S.threshold n < (R.get i i.castSucc).abs ∧
        (R.get i i.castSucc).abs ≤ R.threshold n) ∧
      (R.magnitude n ≤ S.magnitude n →
        ∃ T, (⟨n, n + 1, R⟩ : Table Float).substitute = .ok T) := by
  obtain ⟨R', hreduce, hR⟩ := reduce_eq_ok_iff.1 h
  obtain rfl : R = R' := by injection hR
  have hsolved : (∃ T, (⟨n, n + 1, R⟩ : Table Float).substitute = .ok T) ↔
      ¬ ∃ i : Fin n, S.threshold n < (R.get i i.castSucc).abs ∧
        (R.get i i.castSucc).abs ≤ R.threshold n := by
    rw [← Grid.substitute_eq_none_iff_of_reduce hreduce]
    simp only [substitute, dite_true, Grid.cast_rfl]
    rcases R.substitute with _ | x
    · refine ⟨?_, fun hnone ↦ absurd rfl hnone⟩
      rintro ⟨T, ⟨⟩⟩
    · exact ⟨fun _ ↦ Option.some_ne_none x, fun _ ↦ ⟨_, rfl⟩⟩
  refine ⟨hsolved, fun hmagnitude ↦ hsolved.2 ?_⟩
  rintro ⟨i, hbetween⟩
  exact Grid.not_between_of_magnitude_le hmagnitude _ hbetween

/-- Elimination doubles the largest coefficient of `x + y = 3` and `x - y = 1` and leaves that of
`2 y = 6` and `4 x + y = 5`. Both are solved. -/
theorem substitute_after_reduce_grown :
    let S : Grid Float 2 3 := ⟨#v[1, 1, 3, 1, -1, 1]⟩
    let R : Grid Float 2 3 := ⟨#v[1, -1, 1, 0, 2, 2]⟩
    let S' : Grid Float 2 3 := ⟨#v[0, 2, 6, 4, 1, 5]⟩
    let R' : Grid Float 2 3 := ⟨#v[4, 1, 5, 0, 2, 6]⟩
    ((⟨2, 3, S⟩ : Table Float).reduce = .ok ⟨2, 3, R⟩ ∧ S.magnitude 2 < R.magnitude 2 ∧
      ∃ T, (⟨2, 3, R⟩ : Table Float).substitute = .ok T) ∧
    ((⟨2, 3, S'⟩ : Table Float).reduce = .ok ⟨2, 3, R'⟩ ∧ R'.magnitude 2 ≤ S'.magnitude 2 ∧
      ∃ T, (⟨2, 3, R'⟩ : Table Float).substitute = .ok T) := by
  intro S R S' R'
  have hS : (⟨2, 3, S⟩ : Table Float).reduce = .ok ⟨2, 3, R⟩ := by decide +kernel
  have hS' : (⟨2, 3, S'⟩ : Table Float).reduce = .ok ⟨2, 3, R'⟩ := by decide +kernel
  have hmagnitude : R'.magnitude 2 ≤ S'.magnitude 2 := by decide +kernel
  exact ⟨⟨hS, by decide +kernel, (substitute_after_reduce hS).1.2 (by decide +kernel)⟩,
    hS', hmagnitude, (substitute_after_reduce hS').2 hmagnitude⟩

/-- With `p` the double `2 ^ (-39)`, the equations `p x + y = 1 + p` and `p x - y = p - 1` have the
pivots `p` and `2`. The first one is beyond the threshold of the system, `1e-12`, and within that of
the reduced system, `2e-12`. -/
theorem not_substitute_of_reduce :
    ¬ ∀ (n : Nat) (S R : Grid Float n (n + 1)), (∀ i j, (S.get i j).isFinite = true) →
      (⟨n, n + 1, S⟩ : Table Float).reduce = .ok ⟨n, n + 1, R⟩ →
        (∀ i j, (R.get i j).isFinite = true) →
          ∃ T, (⟨n, n + 1, R⟩ : Table Float).substitute = .ok T := by
  intro h
  let p : Float := 1 / 549755813888
  let S : Grid Float 2 3 := ⟨#v[p, 1, 1 + p, p, -1, p - 1]⟩
  let R : Grid Float 2 3 := ⟨#v[p, -1, p - 1, 0, 2, 2]⟩
  have hS : ∀ i j, (S.get i j).isFinite = true := by decide +kernel
  have hR : ∀ i j, (R.get i j).isFinite = true := by decide +kernel
  have hreduce : (⟨2, 3, S⟩ : Table Float).reduce = .ok ⟨2, 3, R⟩ := by decide +kernel
  have hrefused : (⟨2, 3, R⟩ : Table Float).substitute = .error .singular := by decide +kernel
  obtain ⟨T, hT⟩ := h 2 S R hS hreduce hR
  rw [hrefused] at hT
  exact absurd hT (by rintro ⟨⟩)

end MatrixScript.Table
