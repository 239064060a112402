import Mathlib.LinearAlgebra.Matrix.Block
import Mathlib.LinearAlgebra.Matrix.Determinant.Basic
import MatrixScript.Proofs.Rounds

/-!
# The determinant over the rationals

The determinant by elimination against the sum over all permutations, where nothing is rounded.

A round of elimination exchanges two rows, which negates the determinant of the grid at hand, and
subtracts multiples of a row from others, which leaves it as it is. So up to a sign, which is
counted as the rounds go, the grid at hand has the determinant of the grid at the start; and with
the same sign, the product that has been computed is that of the first entries on its diagonal
(`TracksDet`). After all rounds the grid is triangular, and its whole diagonal is in the product.

The result is zero in one case only: some round finds nothing in its column that is beyond the
threshold (`detTo_eq_none_iff`). The pivot is the entry of greatest magnitude in its column
(`abs_le_abs_pivotRow`), so this can be said of all entries at once.
-/

namespace MatrixScript.Grid

variable {rows cols n : Nat}

/-! ### Refused pivots -/

/-- **The pivot has the greatest magnitude** of the entries from its row down. -/
theorem abs_le_abs_pivotRow (g : Grid ℚ rows cols) {top i : Fin rows} (h : top ≤ i)
    (col : Fin cols) : |g.get i col| ≤ |g.get (g.pivotRow top col) col| := by
  let better (best next : Fin rows) : Fin rows :=
    if Arith.ranksAtMost (Arith.abs (g.get best col)) (Arith.abs (g.get next col)) then next
    else best
  have hbetter : ∀ best next, |g.get best col| ≤ |g.get (better best next) col| ∧
      |g.get next col| ≤ |g.get (better best next) col| := by
    intro best next
    by_cases hranks : |g.get best col| ≤ |g.get next col|
    · have hnext : better best next = next := if_pos (ranksAtMost_abs_iff.2 hranks)
      rw [hnext]
      exact ⟨hranks, le_rfl⟩
    · have hsame : better best next = best := if_neg fun h ↦ hranks (ranksAtMost_abs_iff.1 h)
      rw [hsame]
      exact ⟨le_rfl, (not_le.1 hranks).le⟩
  -- a row that has been passed is no greater than the best one so far
  have hfold : ∀ (is : List (Fin rows)) (best : Fin rows),
      |g.get i col| ≤ |g.get best col| ∨ i ∈ is →
        |g.get i col| ≤ |g.get (is.foldl better best) col| := by
    intro is
    induction is with
    | nil => exact fun best hi ↦ hi.resolve_right List.not_mem_nil
    | cons next is ih =>
      intro best hi
      refine ih _ ?_
      obtain hbest | hmem := hi
      · exact Or.inl (hbest.trans (hbetter best next).1)
      · obtain rfl | hmem := List.mem_cons.1 hmem
        · exact Or.inl (hbetter best i).2
        · exact Or.inr hmem
  refine hfold _ top ?_
  obtain rfl | hlt := h.eq_or_lt
  · exact Or.inl le_rfl
  · exact Or.inr (List.mem_filter.2 ⟨List.mem_finRange i, decide_eq_true hlt⟩)

/-- A round refuses its pivot if nothing in the column is beyond the limit. -/
theorem eliminate_eq_none_iff {g : Grid ℚ rows cols} {limit : ℚ} {top : Fin rows}
    {col : Fin cols} :
    g.eliminate limit top col = none ↔ ∀ i, top ≤ i → |g.get i col| ≤ limit := by
  have hpivot : g.eliminate limit top col = none ↔ |g.get (g.pivotRow top col) col| ≤ limit := by
    rw [← atMost_abs_iff, eliminate]
    simp only [ite_eq_left_iff, reduceCtorEq, imp_false, not_not]
  rw [hpivot]
  refine ⟨fun hle i hi ↦ (g.abs_le_abs_pivotRow hi col).trans hle, fun hall ↦ ?_⟩
  exact hall _ (g.le_pivotRow top col)

theorem detTo_succ_eq_some_iff {g m : Grid ℚ n n} {d limit : ℚ} {k : Nat} {h : k + 1 ≤ n} :
    g.detTo limit (k + 1) h = some (m, d) ↔
      ∃ m' d', g.detTo limit k (Nat.le_of_succ_le h) = some (m', d') ∧
        ∃ r, m'.eliminate limit ⟨k, h⟩ ⟨k, h⟩ = some r ∧ r.grid = m ∧
          (if r.source ≠ ⟨k, h⟩ then -d' else d') * r.pivot = d := by
  rw [detTo_succ]
  rcases g.detTo limit k (Nat.le_of_succ_le h) with _ | ⟨m', d'⟩
  · refine ⟨fun hnone ↦ absurd hnone.symm (Option.some_ne_none _), ?_⟩
    rintro ⟨m', d', hm', -⟩
    exact absurd hm'.symm (Option.some_ne_none _)
  · refine Option.map_eq_some_iff.trans ⟨?_, ?_⟩
    · rintro ⟨r, hr, heq⟩
      obtain ⟨hm, hd⟩ := Prod.mk.inj heq
      exact ⟨m', d', rfl, r, hr, hm, hd⟩
    · rintro ⟨_, _, hm', r, hr, hm, hd⟩
      obtain ⟨rfl, rfl⟩ := Prod.mk.inj (Option.some.inj hm')
      exact ⟨r, hr, Prod.ext hm hd⟩

/-- The rounds come to an end before their time if one of them finds nothing beyond the limit. -/
theorem detTo_eq_none_iff {g : Grid ℚ n n} {limit : ℚ} {k : Nat} {h : k ≤ n} :
    g.detTo limit k h = none ↔
      ∃ (j : Fin n) (m : Grid ℚ n n) (d : ℚ), j.val < k ∧
        g.detTo limit j j.isLt.le = some (m, d) ∧ ∀ i, j ≤ i → |m.get i j| ≤ limit := by
  induction k with
  | zero =>
    refine ⟨fun hnone ↦ absurd hnone (Option.some_ne_none _), ?_⟩
    rintro ⟨j, m, d, hj, -⟩
    exact absurd hj (Nat.not_lt_zero _)
  | succ k ih =>
    have hbefore := ih (h := Nat.le_of_succ_le h)
    rw [detTo_succ]
    rcases hk : g.detTo limit k (Nat.le_of_succ_le h) with _ | ⟨m, d⟩
    · obtain ⟨j, m, d, hj, hrefused⟩ := hbefore.1 hk
      exact ⟨fun _ ↦ ⟨j, m, d, Nat.lt_succ_of_lt hj, hrefused⟩, fun _ ↦ rfl⟩
    · refine Option.map_eq_none_iff.trans (eliminate_eq_none_iff.trans ⟨?_, ?_⟩)
      · exact fun hrefused ↦ ⟨⟨k, h⟩, m, d, Nat.lt_succ_self k, hk, hrefused⟩
      · rintro ⟨j, m', d', hj, hm', hrefused⟩
        obtain hlt | heq := Nat.lt_succ_iff_lt_or_eq.1 hj
        · exact absurd (hbefore.2 ⟨j, m', d', hlt, hm', hrefused⟩) (hk ▸ Option.some_ne_none _)
        · obtain rfl : j = ⟨k, h⟩ := Fin.ext heq
          obtain ⟨rfl, -⟩ := Prod.mk.inj (Option.some.inj (hk.symm.trans hm'))
          exact hrefused

/-! ### Determinants of grids -/

/-- A square grid as a matrix. -/
def toMatrix (g : Grid ℚ n n) : Matrix (Fin n) (Fin n) ℚ :=
  Matrix.of g.get

/-- Exchanging two different rows negates the determinant. -/
theorem det_toMatrix_swapRows (g : Grid ℚ n n) (a b : Fin n) :
    (g.swapRows a b).toMatrix.det = if b ≠ a then -g.toMatrix.det else g.toMatrix.det := by
  have hpermute : (g.swapRows a b).toMatrix = g.toMatrix.submatrix (Equiv.swap a b) id := by
    ext i j
    show (g.swapRows a b).get i j = g.get (Equiv.swap a b i) j
    rw [get_swapRows, Equiv.swap_apply_def]
  rw [hpermute, Matrix.det_permute]
  split
  · next hne =>
    rw [Equiv.Perm.sign_swap (Ne.symm hne)]
    simp
  · next heq =>
    rw [not_not.1 heq, Equiv.swap_self]
    simp

/-- Subtracting multiples of a row from other rows leaves the determinant as it is. -/
theorem det_toMatrix_clearBelow {g : Grid ℚ n n} {top : Fin n}
    (hleading : ∀ j < top, g.get top j = 0) :
    (g.clearBelow top top).toMatrix.det = g.toMatrix.det := by
  refine Matrix.det_eq_of_forall_row_eq_smul_add_const
    (fun i ↦ -(if top < i then g.get i top / g.get top top else 0)) top ?_ fun i j ↦ ?_
  · rw [if_neg (lt_irrefl top), neg_zero]
  · show (g.clearBelow top top).get i j = g.get i j + _ * g.get top j
    rw [get_clearBelow_of_leading hleading, neg_mul, sub_eq_add_neg]

/-- A triangular grid has the product of its diagonal as its determinant. -/
theorem det_toMatrix_of_clearedTo {g : Grid ℚ n n} (h : ClearedTo n g) :
    g.toMatrix.det = ∏ i, g.get i i :=
  Matrix.det_of_isUpperTriangular fun i j hji ↦ h i j j.isLt hji

/-! ### Rounds -/

/-- What `k` rounds have made of a grid `g`, with the product `d` of pivots: the first columns are
cleared, the first entries on the diagonal are not zero, and up to one sign `s`, the determinant is
that of `g` and the product of these entries is `d`. -/
structure TracksDet (k : Nat) (g m : Grid ℚ n n) (s : ℤˣ) (d : ℚ) : Prop where
  cleared : ClearedTo k m
  pivot : ∀ i : Fin n, i.val < k → m.get i i ≠ 0
  det_eq : g.toMatrix.det = s * m.toMatrix.det
  product_eq : d = s * ∏ i with i.val < k, m.get i i

/-- The diagonal that is settled grows by the pivot. -/
theorem prod_diagonal_eliminate {m : Grid ℚ n n} {limit : ℚ} {top : Fin n} {r : Round ℚ n n}
    (hr : m.eliminate limit top top = some r) :
    ∏ i with i.val < top.val + 1, r.grid.get i i =
      (∏ i with i.val < top.val, m.get i i) * r.pivot := by
  have hinsert : ({i | i.val < top.val + 1} : Finset (Fin n)) =
      insert top ({i | i.val < top.val} : Finset (Fin n)) := by
    ext i
    simp only [Finset.mem_filter, Finset.mem_univ, true_and, Finset.mem_insert, Fin.ext_iff]
    omega
  rw [hinsert, Finset.prod_insert (by simp), get_eliminate_top hr, mul_comm]
  congr 1
  refine Finset.prod_congr rfl fun i hi ↦ ?_
  exact get_eliminate_of_lt hr (Finset.mem_filter.1 hi).2 i

/-- **One round.** -/
theorem TracksDet.eliminate {g m : Grid ℚ n n} {top : Fin n} {s : ℤˣ} {d : ℚ}
    (h : TracksDet top.val g m s d) {limit : ℚ} (hlimit : 0 ≤ limit) {r : Round ℚ n n}
    (hr : m.eliminate limit top top = some r) :
    TracksDet (top.val + 1) g r.grid (if r.source ≠ top then -s else s)
      ((if r.source ≠ top then -d else d) * r.pivot) := by
  have hpivot : r.pivot ≠ 0 := ne_zero_of_not_atMost hlimit (accepted_of_eliminate hr)
  have htop := get_eliminate_top hr
  have hgrid : r.grid = (m.swapRows top r.source).clearBelow top top := by
    rw [(eliminate_eq_some_iff.1 hr).2]
  have hle : top ≤ r.source := by
    rw [source_eq_of_eliminate hr]
    exact m.le_pivotRow top top
  have hswapped := h.cleared.swapRows hle
  have hdet : r.grid.toMatrix.det =
      if r.source ≠ top then -m.toMatrix.det else m.toMatrix.det := by
    rw [hgrid, det_toMatrix_clearBelow fun j hj ↦ hswapped top j hj hj, det_toMatrix_swapRows]
  -- the sign of the determinant and the sign of the product change in the same rounds
  refine ⟨?_, fun i hi ↦ ?_, ?_, ?_⟩
  · rw [hgrid]
    refine hswapped.clearBelow rfl ?_
    rw [hgrid, get_clearBelow, if_neg fun hc ↦ lt_irrefl top hc.1] at htop
    rwa [htop]
  · obtain hlt | heq := Nat.lt_succ_iff_lt_or_eq.1 hi
    · rw [get_eliminate_of_lt hr hlt]
      exact h.pivot i hlt
    · obtain rfl : i = top := Fin.ext heq
      rw [htop]
      exact hpivot
  · rw [hdet, h.det_eq]
    split
    · rw [Units.val_neg, Int.cast_neg, neg_mul_neg]
    · rfl
  · rw [prod_diagonal_eliminate hr, h.product_eq]
    split
    · rw [Units.val_neg, Int.cast_neg, neg_mul, neg_mul, mul_assoc]
    · rw [mul_assoc]

/-- **Any number of rounds.** -/
theorem exists_tracksDet_of_detTo {g m : Grid ℚ n n} {limit d : ℚ} (hlimit : 0 ≤ limit) {k : Nat}
    {hk : k ≤ n} (h : g.detTo limit k hk = some (m, d)) : ∃ s, TracksDet k g m s d := by
  induction k generalizing m d with
  | zero =>
    obtain ⟨rfl, rfl⟩ := Prod.mk.inj (Option.some.inj h)
    refine ⟨1, fun i j hj ↦ absurd hj (Nat.not_lt_zero _), fun i hi ↦ absurd hi (Nat.not_lt_zero _),
      ?_, ?_⟩
    · rw [Units.val_one, Int.cast_one, one_mul]
    · show (1 : ℚ) = _
      simp
  | succ k ih =>
    obtain ⟨m', d', hm', r, hr, rfl, rfl⟩ := detTo_succ_eq_some_iff.1 h
    obtain ⟨s, hs⟩ := ih hm'
    have hbefore : TracksDet (⟨k, hk⟩ : Fin n).val g m' s d' := hs
    exact ⟨_, hbefore.eliminate hlimit hr⟩

/-- After all rounds the product is the determinant. -/
theorem TracksDet.eq_det {g m : Grid ℚ n n} {s : ℤˣ} {d : ℚ} (h : TracksDet n g m s d) :
    d = g.toMatrix.det := by
  rw [h.det_eq, det_toMatrix_of_clearedTo h.cleared, h.product_eq]
  simp

theorem TracksDet.ne_zero {k : Nat} {g m : Grid ℚ n n} {s : ℤˣ} {d : ℚ}
    (h : TracksDet k g m s d) : d ≠ 0 := by
  rw [h.product_eq]
  refine mul_ne_zero (Int.cast_ne_zero.2 s.ne_zero) (Finset.prod_ne_zero_iff.2 fun i hi ↦ ?_)
  exact h.pivot i (Finset.mem_filter.1 hi).2

/-- **The determinant of a grid** is zero if its rounds come to an end before their time. Otherwise
it is that of the matrix, and not zero. -/
theorem det_cases (g : Grid ℚ n n) :
    g.detTo (g.threshold n) n le_rfl = none ∧ g.det = 0 ∨
      g.detTo (g.threshold n) n le_rfl ≠ none ∧ g.det = g.toMatrix.det ∧ g.det ≠ 0 := by
  rcases hg : g.detTo (g.threshold n) n le_rfl with _ | ⟨m, d⟩
  · exact Or.inl ⟨rfl, by rw [det, hg]; rfl⟩
  · obtain ⟨s, hs⟩ := exists_tracksDet_of_detTo (g.threshold_nonneg_rat n) hg
    have hdet : g.det = d := by rw [det, hg]
    exact Or.inr ⟨Option.some_ne_none _, hdet.trans hs.eq_det, hdet ▸ hs.ne_zero⟩

end MatrixScript.Grid

namespace MatrixScript.Table

variable {n : Nat}

/-- **The determinant is exact over the rationals.** Every square table has one. If the sum over the
permutations is zero, so is the determinant; a determinant other than zero is this sum. It is zero
exactly if some round `k` starts from a grid whose column `k` has nothing beyond the threshold from
row `k` down. -/
theorem det_exact (M : Grid ℚ n n) :
    ∃ d, (⟨n, n, M⟩ : Table ℚ).det = .ok d ∧
      (∑ σ : Equiv.Perm (Fin n), (Equiv.Perm.sign σ : ℤ) * ∏ i, M.get (σ i) i = 0 → d = 0) ∧
      (d ≠ 0 → d = ∑ σ : Equiv.Perm (Fin n), (Equiv.Perm.sign σ : ℤ) * ∏ i, M.get (σ i) i) ∧
      (d = 0 ↔ ∃ (k : Fin n) (m : Grid ℚ n n) (e : ℚ),
        M.detTo (M.threshold n) k k.isLt.le = some (m, e) ∧
          ∀ i, k ≤ i → |m.get i k| ≤ M.threshold n) := by
  have hdet : (⟨n, n, M⟩ : Table ℚ).det = .ok M.det := by rw [det, dif_pos rfl, Grid.cast_rfl]
  have hleibniz : M.toMatrix.det =
      ∑ σ : Equiv.Perm (Fin n), (Equiv.Perm.sign σ : ℤ) * ∏ i, M.get (σ i) i :=
    Matrix.det_apply' _
  have hrefused : M.detTo (M.threshold n) n le_rfl = none ↔
      ∃ (k : Fin n) (m : Grid ℚ n n) (e : ℚ),
        M.detTo (M.threshold n) k k.isLt.le = some (m, e) ∧
          ∀ i, k ≤ i → |m.get i k| ≤ M.threshold n := by
    rw [Grid.detTo_eq_none_iff]
    exact exists_congr fun k ↦ exists_congr fun m ↦ exists_congr fun e ↦ and_iff_right k.isLt
  rw [← hleibniz, ← hrefused]
  refine ⟨M.det, hdet, ?_⟩
  obtain ⟨hnone, hzero⟩ | ⟨hsome, heq, hne⟩ := M.det_cases
  · exact ⟨fun _ ↦ hzero, fun hne ↦ absurd hzero hne, fun _ ↦ hnone, fun _ ↦ hzero⟩
  · exact ⟨fun hzero ↦ heq.trans hzero, fun _ ↦ heq, fun hzero ↦ absurd hzero hne,
      fun hnone ↦ absurd hnone hsome⟩

/-- The first pivot of `M` has to be brought up from the second row, so the sign changes once. The
rows of `N` are multiples of each other, and the second round finds nothing but a zero. -/
theorem det_exact_exchanged :
    let M : Grid ℚ 2 2 := ⟨#v[0, 2, 4, 1]⟩
    let N : Grid ℚ 2 2 := ⟨#v[1, 2, 2, 4]⟩
    ((⟨2, 2, M⟩ : Table ℚ).det = .ok (-8) ∧
      ∑ σ : Equiv.Perm (Fin 2), (Equiv.Perm.sign σ : ℤ) * ∏ i, M.get (σ i) i = -8) ∧
    (∑ σ : Equiv.Perm (Fin 2), (Equiv.Perm.sign σ : ℤ) * ∏ i, N.get (σ i) i = 0 ∧
      (⟨2, 2, N⟩ : Table ℚ).det = .ok 0) := by
  intro M N
  have hM : (⟨2, 2, M⟩ : Table ℚ).det = .ok (-8) := by decide +kernel
  have hN : ∑ σ : Equiv.Perm (Fin 2), (Equiv.Perm.sign σ : ℤ) * ∏ i, N.get (σ i) i = 0 := by
    decide +kernel
  obtain ⟨d, hd, -, hexact, -⟩ := det_exact M
  obtain rfl : -8 = d := Except.ok.inj (hM.symm.trans hd)
  obtain ⟨e, he, hzero, -, -⟩ := det_exact N
  rw [hzero hN] at he
  exact ⟨⟨hM, (hexact (by norm_num)).symm⟩, hN, he⟩

end MatrixScript.Table
