import Mathlib.Algebra.BigOperators.Fin
import Mathlib.Algebra.Order.Ring.Rat
import Mathlib.Tactic.Linarith
import Mathlib.Tactic.Ring
import MatrixScript.Table.Operations

/-!
# Solutions of systems of equations

Elimination and back substitution over the rationals, where nothing is rounded. An augmented grid
stands for a system of equations, one for each row, and `Grid.Satisfies` says that a vector meets
all of them.

A round of elimination exchanges two equations and subtracts a multiple of one from others, so the
same vectors satisfy the system before and after it. What makes the second step a step on whole
equations is that the columns before the pivot's have been cleared already; so the two facts go
through the rounds together (`ReducedTo`), and with them that no pivot is zero. A pivot is accepted
only if its magnitude is beyond a threshold, and no threshold is negative.

In a triangular system a row says what its diagonal unknown is, given the unknowns after it
(`satisfies_iff_residual`). Back substitution takes the rows at their word, from the last one up,
and there is no other vector that they leave room for.
-/

namespace MatrixScript.Grid

variable {rows cols n : Nat}

/-! ### Accepted pivots -/

/-- The pivot is looked for at or below the row at hand. -/
theorem le_pivotRow {α : Type} [Arith α] (g : Grid α rows cols) (top : Fin rows) (col : Fin cols) :
    top ≤ g.pivotRow top col := by
  refine List.foldlRecOn _ _ (le_refl top) fun best hbest i hi ↦ ?_
  obtain ⟨-, hlt⟩ := List.mem_filter.1 hi
  split
  · exact le_of_lt (of_decide_eq_true hlt)
  · exact hbest

theorem larger_nonneg_rat {found : ℚ} (h : 0 ≤ found) (x : ℚ) : 0 ≤ larger found x := by
  unfold larger
  split
  · next hbelow =>
    have hlt : found < x := hbelow
    exact h.trans hlt.le
  · exact h

theorem threshold_nonneg_rat (g : Grid ℚ rows cols) (width : Nat) : 0 ≤ g.threshold width := by
  have hmagnitude : 0 ≤ g.magnitude width := by
    refine List.foldlRecOn _ _ (le_refl (0 : ℚ)) fun acc hacc i _ ↦ ?_
    exact List.foldlRecOn _ _ hacc fun acc hacc j _ ↦ larger_nonneg_rat hacc _
  have htolerance : (0 : ℚ) ≤ 1 / 1000000000000 := by norm_num
  exact mul_nonneg hmagnitude htolerance

theorem rat_abs_eq (x : ℚ) : Arith.abs x = |x| := by
  show (if 0 ≤ x then x else -x) = |x|
  split
  · next h => rw [abs_of_nonneg h]
  · next h => rw [abs_of_neg (not_le.1 h)]

theorem not_blt_iff {x y : ℚ} : (!y.blt x) = true ↔ x ≤ y := by
  rw [Bool.not_eq_true', ← not_lt, ← Bool.not_eq_true]
  rfl

/-- A pivot is refused if its magnitude is not beyond the limit. -/
theorem atMost_abs_iff {limit x : ℚ} : Arith.atMost (Arith.abs x) limit = true ↔ |x| ≤ limit := by
  rw [rat_abs_eq]
  exact not_blt_iff

theorem ranksAtMost_abs_iff {x y : ℚ} :
    Arith.ranksAtMost (Arith.abs x) (Arith.abs y) = true ↔ |x| ≤ |y| := by
  rw [rat_abs_eq, rat_abs_eq]
  exact not_blt_iff

/-- A pivot that is not refused is not zero. -/
theorem ne_zero_of_not_atMost {limit x : ℚ} (hlimit : 0 ≤ limit)
    (h : ¬ Arith.atMost (Arith.abs x) limit = true) : x ≠ 0 := by
  rintro rfl
  rw [atMost_abs_iff, abs_zero] at h
  exact h hlimit

/-! ### Equations -/

/-- A vector meets the equations of an augmented grid: in every row the coefficients times the
unknowns add up to the last entry. -/
def Satisfies (g : Grid ℚ rows (n + 1)) (x : Fin n → ℚ) : Prop :=
  ∀ i, ∑ j : Fin n, g.get i j.castSucc * x j = g.get i (Fin.last n)

/-- The order of the equations does not matter. -/
theorem satisfies_swapRows (g : Grid ℚ rows (n + 1)) (a b : Fin rows) (x : Fin n → ℚ) :
    (g.swapRows a b).Satisfies x ↔ g.Satisfies x := by
  unfold Satisfies
  simp only [get_swapRows, ← Equiv.swap_apply_def]
  exact (Equiv.swap a b).forall_congr_right
    (q := fun i ↦ ∑ j : Fin n, g.get i j.castSucc * x j = g.get i (Fin.last n))

/-- Where the row of the pivot has nothing before the pivot, clearing subtracts multiples of the
whole row. -/
theorem get_clearBelow_of_leading {g : Grid ℚ rows cols} {top : Fin rows} {col : Fin cols}
    (hleading : ∀ j < col, g.get top j = 0) (i : Fin rows) (j : Fin cols) :
    (g.clearBelow top col).get i j =
      g.get i j - (if top < i then g.get i col / g.get top col else 0) * g.get top j := by
  have hclear : (g.clearBelow top col).get i j =
      if top < i ∧ col ≤ j then g.get i j - g.get i col / g.get top col * g.get top j
      else g.get i j := get_clearBelow g top i col j
  rw [hclear]
  by_cases hi : top < i
  · by_cases hj : col ≤ j
    · rw [if_pos ⟨hi, hj⟩, if_pos hi]
    · rw [if_neg fun h ↦ hj h.2, hleading j (not_le.1 hj)]
      ring
  · rw [if_neg fun h ↦ hi h.1, if_neg hi]
    ring

/-- Subtracting multiples of one equation from others changes no solution. -/
theorem satisfies_clearBelow {g : Grid ℚ rows (n + 1)} {top : Fin rows} {col : Fin (n + 1)}
    (hleading : ∀ j < col, g.get top j = 0) (x : Fin n → ℚ) :
    (g.clearBelow top col).Satisfies x ↔ g.Satisfies x := by
  -- the multiple of the pivot's row that is subtracted from row `i`
  let factor (i : Fin rows) : ℚ := if top < i then g.get i col / g.get top col else 0
  have hrow : ∀ i, ∑ j : Fin n, (g.clearBelow top col).get i j.castSucc * x j =
      ∑ j : Fin n, g.get i j.castSucc * x j -
        factor i * ∑ j : Fin n, g.get top j.castSucc * x j := by
    intro i
    rw [Finset.mul_sum, ← Finset.sum_sub_distrib]
    refine Finset.sum_congr rfl fun j _ ↦ ?_
    rw [get_clearBelow_of_leading hleading]
    ring
  have hlast : ∀ i, (g.clearBelow top col).get i (Fin.last n) =
      g.get i (Fin.last n) - factor i * g.get top (Fin.last n) :=
    fun i ↦ get_clearBelow_of_leading hleading i _
  have htop : factor top = 0 := if_neg (lt_irrefl top)
  constructor
  · intro h i
    have heqTop := h top
    have heq := h i
    rw [hrow, hlast, htop, zero_mul, zero_mul, sub_zero, sub_zero] at heqTop
    rw [hrow, hlast, heqTop] at heq
    linarith
  · intro h i
    rw [hrow, hlast, h i, h top]

/-! ### Rounds of elimination -/

/-- The first `k` columns are zero below the diagonal. -/
def ClearedTo (k : Nat) (g : Grid ℚ rows cols) : Prop :=
  ∀ (i : Fin rows) (j : Fin cols), j.val < k → j.val < i.val → g.get i j = 0

/-- Bringing up a row from further down keeps the columns that are cleared. -/
theorem ClearedTo.swapRows {g : Grid ℚ rows cols} {top source : Fin rows}
    (h : ClearedTo top.val g) (hle : top ≤ source) : ClearedTo top.val (g.swapRows top source) := by
  intro i j hj hji
  rw [get_swapRows]
  split
  · exact h source j hj (hj.trans_le hle)
  · split
    · exact h top j hj hj
    · exact h i j hj hji

/-- With a pivot that is not zero one more column is cleared. -/
theorem ClearedTo.clearBelow {g : Grid ℚ rows cols} {top : Fin rows} {col : Fin cols}
    (heq : col.val = top.val) (h : ClearedTo top.val g) (hpivot : g.get top col ≠ 0) :
    ClearedTo (top.val + 1) (g.clearBelow top col) := by
  have hleading : ∀ j < col, g.get top j = 0 := by
    intro j hj
    have hlt : j.val < top.val := heq ▸ Fin.lt_def.1 hj
    exact h top j hlt hlt
  intro i j hj hji
  rw [get_clearBelow_of_leading hleading]
  rcases Nat.lt_succ_iff_lt_or_eq.1 hj with hlt | hval
  · -- the columns before have been cleared, and the row of the pivot has nothing there either
    rw [hleading j (Fin.lt_def.2 (heq ▸ hlt)), mul_zero, sub_zero]
    exact h i j hlt hji
  · obtain rfl : j = col := Fin.ext (hval.trans heq.symm)
    have hi : top < i := Fin.lt_def.2 (hval ▸ hji)
    rw [if_pos hi, div_mul_cancel₀ _ hpivot, sub_self]

/-- What `k` rounds have made of a system: the same vectors satisfy it, the first `k` columns are
zero below the diagonal, and the first `k` entries on the diagonal are not zero. -/
structure ReducedTo (k : Nat) (g m : Grid ℚ n (n + 1)) : Prop where
  satisfies_iff : ∀ x, m.Satisfies x ↔ g.Satisfies x
  below : ∀ (i : Fin n) (j : Fin (n + 1)), j.val < k → j.val < i.val → m.get i j = 0
  pivot : ∀ i : Fin n, i.val < k → m.get i i.castSucc ≠ 0

/-- Bringing up a row from further down keeps what the rounds so far have made. -/
theorem ReducedTo.swapRows {g m : Grid ℚ n (n + 1)} {top source : Fin n}
    (h : ReducedTo top.val g m) (hle : top ≤ source) :
    ReducedTo top.val g (m.swapRows top source) := by
  refine ⟨fun x ↦ (satisfies_swapRows m top source x).trans (h.satisfies_iff x),
    ClearedTo.swapRows h.below hle, ?_⟩
  intro i hi
  have hne : i ≠ top := fun heq ↦ absurd hi (heq ▸ lt_irrefl _)
  have hne' : i ≠ source := fun heq ↦ absurd (lt_of_lt_of_le hi hle) (heq ▸ lt_irrefl _)
  rw [get_swapRows, if_neg hne, if_neg hne']
  exact h.pivot i hi

/-- Clearing a column with a pivot that is not zero is one more round. -/
theorem ReducedTo.clearBelow {g m : Grid ℚ n (n + 1)} {top : Fin n} (h : ReducedTo top.val g m)
    (hpivot : m.get top top.castSucc ≠ 0) :
    ReducedTo (top.val + 1) g (m.clearBelow top top.castSucc) := by
  have hleading : ∀ j < top.castSucc, m.get top j = 0 := fun j hj ↦ h.below top j hj hj
  refine ⟨fun x ↦ (satisfies_clearBelow hleading x).trans (h.satisfies_iff x),
    ClearedTo.clearBelow rfl h.below hpivot, ?_⟩
  intro i hi
  have hnot : ¬ top < i := fun hlt ↦ absurd hi (not_lt.2 (Nat.succ_le_of_lt hlt))
  rw [get_clearBelow_of_leading hleading, if_neg hnot, zero_mul, sub_zero]
  rcases Nat.lt_succ_iff_lt_or_eq.1 hi with hlt | heq
  · exact h.pivot i hlt
  · obtain rfl : i = top := Fin.ext heq
    exact hpivot

/-- **One round**: the pivot's row is brought up and its column is cleared. -/
theorem ReducedTo.eliminate {g m : Grid ℚ n (n + 1)} {top : Fin n} (h : ReducedTo top.val g m)
    {limit : ℚ} (hlimit : 0 ≤ limit) {r : Round ℚ n (n + 1)}
    (hr : m.eliminate limit top top.castSucc = some r) : ReducedTo (top.val + 1) g r.grid := by
  unfold Grid.eliminate at hr
  simp only at hr
  split at hr
  · exact nomatch hr
  · next haccepted =>
    obtain rfl := Option.some.inj hr
    refine (h.swapRows (m.le_pivotRow top top.castSucc)).clearBelow ?_
    rw [get_swapRows, if_pos rfl]
    exact ne_zero_of_not_atMost hlimit haccepted

/-- **Any number of rounds.** -/
theorem reducedTo_of_reduceTo {g m : Grid ℚ n (n + 1)} {limit : ℚ} (hlimit : 0 ≤ limit) {k : Nat}
    (hrows : k ≤ n) (hcols : k ≤ n + 1) (h : g.reduceTo limit k hrows hcols = some m) :
    ReducedTo k g m := by
  induction k generalizing m with
  | zero =>
    obtain rfl := Option.some.inj h
    exact ⟨fun x ↦ Iff.rfl, fun i j hj ↦ absurd hj (Nat.not_lt_zero _),
      fun i hi ↦ absurd hi (Nat.not_lt_zero _)⟩
  | succ k ih =>
    rw [reduceTo] at h
    rcases hprevious : g.reduceTo limit k (Nat.le_of_succ_le hrows) (Nat.le_of_succ_le hcols)
      with _ | m'
    · rw [hprevious] at h
      exact nomatch h
    · rw [hprevious] at h
      obtain ⟨r, hr, rfl⟩ := Option.map_eq_some_iff.1 h
      have hbefore : ReducedTo (⟨k, hrows⟩ : Fin n).val g m' := ih _ _ hprevious
      exact hbefore.eliminate hlimit hr

theorem reducedTo_of_reduce {g m : Grid ℚ n (n + 1)} (h : g.reduce = some m) :
    ReducedTo n g m := by
  have hreduced := reducedTo_of_reduceTo (g.threshold_nonneg_rat _) _ _ h
  rwa [Nat.add_sub_cancel, Nat.min_self] at hreduced

/-! ### Back substitution -/

/-- Subtracting one by one comes to subtracting the sum. -/
theorem foldl_sub_eq {ι : Type} (f : ι → ℚ) (a : ℚ) (l : List ι) :
    l.foldl (fun acc j ↦ acc - f j) a = a - (l.map f).sum := by
  induction l generalizing a with
  | nil => exact (sub_zero a).symm
  | cons j l ih =>
    rw [List.foldl_cons, ih, List.map_cons, List.sum_cons]
    ring

theorem residual_eq (g : Grid ℚ n (n + 1)) (x : Vector ℚ n) (i : Fin n) :
    g.residual x i = g.get i (Fin.last n) - ∑ j with i < j, g.get i j.castSucc * x.get j :=
  foldl_sub_eq (fun j : Fin n ↦ g.get i j.castSucc * x.get j) _ _

/-- What is left of a right-hand side depends on the later unknowns only. -/
theorem residual_congr {g : Grid ℚ n (n + 1)} {x y : Vector ℚ n} {i : Fin n}
    (h : ∀ j, i < j → x.get j = y.get j) : g.residual x i = g.residual y i := by
  rw [residual_eq, residual_eq]
  refine congrArg _ (Finset.sum_congr rfl fun j hj ↦ ?_)
  rw [h j (Finset.mem_filter.1 hj).2]

/-- **A triangular system** is satisfied exactly if every row's diagonal term makes up what is left
of its right-hand side. -/
theorem satisfies_iff_residual {g : Grid ℚ n (n + 1)}
    (hbelow : ∀ (i : Fin n) (j : Fin n), j < i → g.get i j.castSucc = 0) (x : Vector ℚ n) :
    g.Satisfies x.get ↔ ∀ i : Fin n, g.get i i.castSucc * x.get i = g.residual x i := by
  refine forall_congr' fun i ↦ ?_
  -- of the sum over all unknowns, only those from the diagonal on are left
  let term (j : Fin n) : ℚ := g.get i j.castSucc * x.get j
  have hsum : ∑ j, term j = term i + ∑ j with i < j, term j := by
    rw [← Finset.sum_insert (a := i) (s := {j | i < j}) (by simp)]
    refine (Finset.sum_subset (Finset.subset_univ _) fun j _ hj ↦ ?_).symm
    have hlt : j < i := by
      simp only [Finset.mem_insert, Finset.mem_filter, Finset.mem_univ, true_and, not_or,
        not_lt] at hj
      exact lt_of_le_of_ne hj.2 hj.1
    show g.get i j.castSucc * x.get j = 0
    rw [hbelow i j hlt, zero_mul]
  show ∑ j, term j = _ ↔ _
  rw [hsum, residual_eq, eq_sub_iff_add_eq]

/-- One more unknown is solved for, once those after it are. -/
theorem residual_set {g : Grid ℚ n (n + 1)} {x : Vector ℚ n} {i : Fin n}
    (hpivot : g.get i i.castSucc ≠ 0)
    (hlater : ∀ j, i < j → g.get j j.castSucc * x.get j = g.residual x j) :
    let y := x.set i (g.residual x i / g.get i i.castSucc) i.isLt
    ∀ j, i ≤ j → g.get j j.castSucc * y.get j = g.residual y j := by
  intro y j hj
  -- the unknowns after `i` are as before, and a row looks at later unknowns only
  have hkeep : ∀ l, i < l → y.get l = x.get l := fun l hl ↦
    Vector.getElem_set_ne _ _ (ne_of_lt (Fin.lt_def.1 hl))
  have hresidual : g.residual y j = g.residual x j :=
    residual_congr fun l hl ↦ hkeep l (lt_of_le_of_lt hj hl)
  rw [hresidual]
  rcases eq_or_lt_of_le hj with rfl | hlt
  · have hset : y.get i = g.residual x i / g.get i i.castSucc := Vector.getElem_set_self _
    rw [hset, mul_div_cancel₀ _ hpivot]
  · rw [hkeep j hlt]
    exact hlater j hlt

/-- **Back substitution takes the rows at their word**, from the last one up. -/
theorem residual_of_substituteTo {g : Grid ℚ n (n + 1)} {limit : ℚ} (hlimit : 0 ≤ limit) {k : Nat}
    (hk : k ≤ n) {x : Vector ℚ n} (h : g.substituteTo limit k hk = some x) :
    ∀ i : Fin n, n - k ≤ i.val → g.get i i.castSucc * x.get i = g.residual x i := by
  induction k generalizing x with
  | zero => exact fun i hi ↦ absurd i.isLt (not_lt.2 hi)
  | succ k ih =>
    rw [substituteTo] at h
    rcases hprevious : g.substituteTo limit k (Nat.le_of_succ_le hk) with _ | y
    · rw [hprevious] at h
      exact nomatch h
    rw [hprevious] at h
    simp only at h
    split at h
    · exact nomatch h
    · next haccepted =>
      obtain rfl := Option.some.inj h
      refine residual_set (ne_zero_of_not_atMost hlimit haccepted) fun j hj ↦ ?_
      refine ih _ hprevious j ?_
      have hlt : n - (k + 1) < j.val := hj
      omega

/-- The rows of a triangular system leave room for one vector only. -/
theorem eq_of_residual {g : Grid ℚ n (n + 1)} (hpivot : ∀ i : Fin n, g.get i i.castSucc ≠ 0)
    {x y : Vector ℚ n} (hx : ∀ i : Fin n, g.get i i.castSucc * x.get i = g.residual x i)
    (hy : ∀ i : Fin n, g.get i i.castSucc * y.get i = g.residual y i) : x = y := by
  -- from the last row up, as back substitution goes
  have hlast : ∀ k ≤ n, ∀ i : Fin n, n - k ≤ i.val → x.get i = y.get i := by
    intro k
    induction k with
    | zero => exact fun _ i hi ↦ absurd i.isLt (not_lt.2 hi)
    | succ k ih =>
      intro hk i hi
      have hresidual : g.residual x i = g.residual y i := by
        refine residual_congr fun j hj ↦ ih (Nat.le_of_succ_le hk) j ?_
        have hlt : i.val < j.val := hj
        omega
      have heq : g.get i i.castSucc * x.get i = g.get i i.castSucc * y.get i := by
        rw [hx, hy, hresidual]
      exact mul_left_cancel₀ (hpivot i) heq
  ext i hi
  exact hlast n le_rfl ⟨i, hi⟩ (by omega)

/-! ### Solving -/

/-- **What is solved is solved**: the vector satisfies the system, and no other one does. -/
theorem satisfies_of_solve {g : Grid ℚ n (n + 1)} {u : Grid ℚ n 1} (h : g.solve = some u) :
    g.Satisfies (u.get · 0) ∧ ∀ y, g.Satisfies y → y = (u.get · 0) := by
  unfold solve at h
  split at h
  · exact nomatch h
  obtain ⟨m, hreduce, hsubstitute⟩ := Option.bind_eq_some_iff.1 h
  obtain ⟨x, hx, rfl⟩ := Option.map_eq_some_iff.1 hsubstitute
  have hreduced := reducedTo_of_reduce hreduce
  have hbelow : ∀ (i : Fin n) (j : Fin n), j < i → m.get i j.castSucc = 0 :=
    fun i j hj ↦ hreduced.below i j.castSucc j.isLt hj
  have hresidual : ∀ i : Fin n, m.get i i.castSucc * x.get i = m.residual x i := fun i ↦
    residual_of_substituteTo (m.threshold_nonneg_rat n) le_rfl hx i (by omega)
  have hsolution : (fun j : Fin n ↦ (ofFn fun i (_ : Fin 1) ↦ x[i] : Grid ℚ n 1).get j 0) =
      x.get := funext fun j ↦ get_ofFn _ j 0
  rw [hsolution]
  refine ⟨(hreduced.satisfies_iff _).1 ((satisfies_iff_residual hbelow x).2 hresidual), ?_⟩
  intro y hy
  have hvector : (Vector.ofFn y).get = y := by
    funext j
    exact Vector.getElem_ofFn _
  have hy' := (hreduced.satisfies_iff y).2 hy
  rw [← hvector, satisfies_iff_residual hbelow] at hy'
  rw [← hvector, eq_of_residual (fun i ↦ hreduced.pivot i i.isLt) hy' hresidual]

end MatrixScript.Grid

namespace MatrixScript.Table

/-- **Solving is exact over the rationals.** If a system of `n` equations in `n` unknowns is solved,
the result is a column of `n` numbers; in every row of the system the coefficients times these
numbers add up to the right-hand side; and no other numbers do this. -/
theorem solve_exact {n : Nat} (S : Grid ℚ n (n + 1)) {x : Table ℚ}
    (h : (⟨n, n + 1, S⟩ : Table ℚ).solve = .ok x) :
    ∃ u : Grid ℚ n 1, x = ⟨n, 1, u⟩ ∧
      (∀ i, ∑ j : Fin n, S.get i j.castSucc * u.get j 0 = S.get i (Fin.last n)) ∧
      ∀ y : Fin n → ℚ,
        (∀ i, ∑ j : Fin n, S.get i j.castSucc * y j = S.get i (Fin.last n)) →
          ∀ j, y j = u.get j 0 := by
  simp only [solve, dite_true, Grid.cast_rfl] at h
  rcases hu : S.solve with _ | u
  · rw [hu] at h
    exact nomatch h
  · rw [hu] at h
    obtain ⟨hsatisfies, hunique⟩ := Grid.satisfies_of_solve hu
    exact ⟨u, (Except.ok.inj h).symm, hsatisfies, fun y hy j ↦ congrFun (hunique y hy) j⟩

/-- Two equations whose first pivot has to be brought up from the second row. -/
theorem solve_exact_pivoted :
    let S : Grid ℚ 2 3 := ⟨#v[0, 1, 3, 2, 1, 5]⟩
    (⟨2, 3, S⟩ : Table ℚ).solve = .ok ⟨2, 1, ⟨#v[1, 3]⟩⟩ ∧
      ∃ u : Grid ℚ 2 1, (⟨2, 1, ⟨#v[1, 3]⟩⟩ : Table ℚ) = ⟨2, 1, u⟩ ∧
        (∀ i, ∑ j : Fin 2, S.get i j.castSucc * u.get j 0 = S.get i (Fin.last 2)) ∧
        ∀ y : Fin 2 → ℚ,
          (∀ i, ∑ j : Fin 2, S.get i j.castSucc * y j = S.get i (Fin.last 2)) →
            ∀ j, y j = u.get j 0 := by
  intro S
  have hsolve : (⟨2, 3, S⟩ : Table ℚ).solve = .ok ⟨2, 1, ⟨#v[1, 3]⟩⟩ := by decide +kernel
  exact ⟨hsolve, solve_exact S hsolve⟩

end MatrixScript.Table
