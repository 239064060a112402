import MatrixScript.Proofs.Solution

/-!
# Rounds of elimination

What a round of elimination does to each entry, and what a run of rounds leaves of it, in any
arithmetic: nothing is assumed of the operations here, so the statements are about doubles as much
as about rational numbers.

A round works on the rows from its own one down and on the columns from its own one on. A property
of what lies outside is therefore carried from the round in which it is settled to the end
(`reduceTo_from`); in particular the pivots of a run stand on the diagonal of its result
(`get_diagonal_of_reduceTo`).

The determinant makes its rounds on the coefficients alone, forward elimination on the whole
augmented matrix. The last column has no say in them: the two look for the same pivots, measure them
against the same threshold and leave the same coefficients, round by round (`detTo_dropLastCol`).
-/

namespace MatrixScript.Grid

variable {α : Type} [Arith α] {rows cols n : Nat}

/-! ### One round -/

/-- A pivot is accepted by a round if its magnitude is not within the limit. -/
def Accepted (limit pivot : α) : Prop :=
  ¬ Arith.atMost (Arith.abs pivot) limit = true

theorem eliminate_eq_some_iff {g : Grid α rows cols} {limit : α} {top : Fin rows} {col : Fin cols}
    {r : Round α rows cols} :
    g.eliminate limit top col = some r ↔
      Accepted limit (g.get (g.pivotRow top col) col) ∧
        r = ⟨g.pivotRow top col, g.get (g.pivotRow top col) col,
          (g.swapRows top (g.pivotRow top col)).clearBelow top col⟩ := by
  unfold eliminate
  simp only
  split
  · next hrefused =>
    exact ⟨fun h ↦ absurd h.symm (Option.some_ne_none r), fun h ↦ absurd hrefused h.1⟩
  · next haccepted => exact ⟨fun h ↦ ⟨haccepted, (Option.some.inj h).symm⟩, fun h ↦ h.2 ▸ rfl⟩

section Round

variable {g : Grid α rows cols} {limit : α} {top : Fin rows} {col : Fin cols}
  {r : Round α rows cols} (h : g.eliminate limit top col = some r)

include h

theorem source_eq_of_eliminate : r.source = g.pivotRow top col := by
  rw [(eliminate_eq_some_iff.1 h).2]

theorem accepted_of_eliminate : Accepted limit r.pivot := by
  obtain ⟨haccepted, rfl⟩ := eliminate_eq_some_iff.1 h
  exact haccepted

/-- A round leaves the rows above its own one alone. -/
theorem get_eliminate_of_lt {i : Fin rows} (hi : i < top) (j : Fin cols) :
    r.grid.get i j = g.get i j := by
  obtain ⟨-, rfl⟩ := eliminate_eq_some_iff.1 h
  have hsource : i ≠ g.pivotRow top col := (hi.trans_le (g.le_pivotRow top col)).ne
  rw [get_clearBelow, if_neg fun hc ↦ absurd hc.1 hi.not_gt, get_swapRows, if_neg hi.ne,
    if_neg hsource]

/-- The pivot is brought up to the row of the round. -/
theorem get_eliminate_top : r.grid.get top col = r.pivot := by
  obtain ⟨-, rfl⟩ := eliminate_eq_some_iff.1 h
  rw [get_clearBelow, if_neg fun hc ↦ lt_irrefl top hc.1, get_swapRows, if_pos rfl]

/-- In the columns before its own one, a round only exchanges the two rows. -/
theorem get_eliminate_before (i : Fin rows) {j : Fin cols} (hj : j < col) :
    r.grid.get i j = (g.swapRows top r.source).get i j := by
  obtain ⟨-, rfl⟩ := eliminate_eq_some_iff.1 h
  rw [get_clearBelow, if_neg fun hc ↦ absurd hc.2 hj.not_ge]

/-- Below the pivot, what is subtracted is the quotient by the pivot times the pivot. -/
theorem get_eliminate_below {i : Fin rows} (hi : top < i) :
    r.grid.get i col = (g.swapRows top r.source).get i col -
      (g.swapRows top r.source).get i col / r.pivot * r.pivot := by
  obtain ⟨-, rfl⟩ := eliminate_eq_some_iff.1 h
  have hpivot : (g.swapRows top (g.pivotRow top col)).get top col =
      g.get (g.pivotRow top col) col := by rw [get_swapRows, if_pos rfl]
  rw [get_clearBelow, if_pos ⟨hi, le_refl col⟩, hpivot]

end Round

/-! ### Runs of rounds -/

theorem reduceTo_succ_eq_some_iff {g m : Grid α rows cols} {limit : α} {k : Nat}
    {hrows : k + 1 ≤ rows} {hcols : k + 1 ≤ cols} :
    g.reduceTo limit (k + 1) hrows hcols = some m ↔
      ∃ m', g.reduceTo limit k (Nat.le_of_succ_le hrows) (Nat.le_of_succ_le hcols) = some m' ∧
        ∃ r, m'.eliminate limit ⟨k, hrows⟩ ⟨k, hcols⟩ = some r ∧ r.grid = m := by
  rw [reduceTo]
  rcases g.reduceTo limit k (Nat.le_of_succ_le hrows) (Nat.le_of_succ_le hcols) with _ | m'
  · refine ⟨fun h ↦ absurd h.symm (Option.some_ne_none m), ?_⟩
    rintro ⟨m', hm', -⟩
    exact absurd hm'.symm (Option.some_ne_none m')
  · refine Option.map_eq_some_iff.trans ⟨fun hr ↦ ⟨m', rfl, hr⟩, ?_⟩
    rintro ⟨_, hm, hr⟩
    rwa [Option.some.inj hm]

/-- A run that comes through has come through its earlier rounds. -/
theorem exists_reduceTo_of_le {g R : Grid α rows cols} {limit : α} {k K : Nat} (hle : k ≤ K)
    {hrows : K ≤ rows} {hcols : K ≤ cols} (h : g.reduceTo limit K hrows hcols = some R) :
    ∃ m, g.reduceTo limit k (hle.trans hrows) (hle.trans hcols) = some m := by
  induction K, hle using Nat.le_induction generalizing R with
  | base => exact ⟨R, h⟩
  | succ K _ ih =>
    obtain ⟨m', hm', -⟩ := reduceTo_succ_eq_some_iff.1 h
    exact ih hm'

/-- **From some round on**: what holds after `k` rounds and is kept by each later round holds at the
end of the run. -/
theorem reduceTo_from {g m R : Grid α rows cols} {limit : α} {k K : Nat} (hle : k ≤ K)
    {hrows : K ≤ rows} {hcols : K ≤ cols}
    (hm : g.reduceTo limit k (hle.trans hrows) (hle.trans hcols) = some m)
    (hR : g.reduceTo limit K hrows hcols = some R) {motive : Grid α rows cols → Prop}
    (start : motive m)
    (round : ∀ (l : Nat) (hl : l < K), k ≤ l → ∀ (m' : Grid α rows cols) (r : Round α rows cols),
      m'.eliminate limit ⟨l, hl.trans_le hrows⟩ ⟨l, hl.trans_le hcols⟩ = some r →
        motive m' → motive r.grid) :
    motive R := by
  induction K, hle using Nat.le_induction generalizing R with
  | base =>
    obtain rfl := Option.some.inj (hm.symm.trans hR)
    exact start
  | succ K hle ih =>
    obtain ⟨m', hm', r, hr, rfl⟩ := reduceTo_succ_eq_some_iff.1 hR
    refine round K (Nat.lt_succ_self K) hle m' r hr (ih hm hm' ?_)
    exact fun l hl ↦ round l (Nat.lt_succ_of_lt hl)

/-- Rounds that come after a row's own one leave the row alone. -/
theorem get_of_reduceTo_of_lt {g m R : Grid α rows cols} {limit : α} {k K : Nat} (hle : k ≤ K)
    {hrows : K ≤ rows} {hcols : K ≤ cols}
    (hm : g.reduceTo limit k (hle.trans hrows) (hle.trans hcols) = some m)
    (hR : g.reduceTo limit K hrows hcols = some R) {i : Fin rows} (hi : i.val < k) (j : Fin cols) :
    R.get i j = m.get i j := by
  refine reduceTo_from hle hm hR (motive := fun m' ↦ m'.get i j = m.get i j) rfl ?_
  intro l hl hkl m' r hr hm'
  rw [get_eliminate_of_lt hr (Fin.lt_def.2 (hi.trans_le hkl)), hm']

/-- **The pivots stand on the diagonal** of what a run leaves. -/
theorem get_diagonal_of_reduceTo {g m R : Grid α rows cols} {limit : α} {k K : Nat} (hlt : k < K)
    {hrows : K ≤ rows} {hcols : K ≤ cols}
    (hm : g.reduceTo limit k (hlt.le.trans hrows) (hlt.le.trans hcols) = some m)
    (hR : g.reduceTo limit K hrows hcols = some R) :
    ∃ r, m.eliminate limit ⟨k, hlt.trans_le hrows⟩ ⟨k, hlt.trans_le hcols⟩ = some r ∧
      R.get ⟨k, hlt.trans_le hrows⟩ ⟨k, hlt.trans_le hcols⟩ = r.pivot := by
  obtain ⟨m', hm'⟩ := exists_reduceTo_of_le (Nat.succ_le_of_lt hlt) hR
  obtain ⟨m'', hm'', r, hr, rfl⟩ := reduceTo_succ_eq_some_iff.1 hm'
  obtain rfl := Option.some.inj (hm.symm.trans hm'')
  refine ⟨r, hr, ?_⟩
  rw [get_of_reduceTo_of_lt (Nat.succ_le_of_lt hlt) hm' hR (Nat.lt_succ_self k),
    get_eliminate_top hr]

/-- Every entry on the diagonal of what a run leaves has been accepted. -/
theorem accepted_diagonal_of_reduceTo {g R : Grid α rows cols} {limit : α} {k K : Nat} (hlt : k < K)
    {hrows : K ≤ rows} {hcols : K ≤ cols} (hR : g.reduceTo limit K hrows hcols = some R) :
    Accepted limit (R.get ⟨k, hlt.trans_le hrows⟩ ⟨k, hlt.trans_le hcols⟩) := by
  obtain ⟨m, hm⟩ := exists_reduceTo_of_le hlt.le hR
  obtain ⟨r, hr, hpivot⟩ := get_diagonal_of_reduceTo hlt hm hR
  rw [hpivot]
  exact accepted_of_eliminate hr

/-- An augmented matrix with as many rows as unknowns has a pivot in every row. -/
theorem reduce_eq_reduceTo (g : Grid α n (n + 1)) :
    g.reduce = g.reduceTo (g.threshold n) n (le_refl n) (Nat.le_succ n) := by
  simp only [reduce, Nat.add_sub_cancel, Nat.min_self]

/-! ### The coefficients alone -/

theorem pivotRow_dropLastCol (g : Grid α rows (cols + 1)) (top : Fin rows) (col : Fin cols) :
    g.dropLastCol.pivotRow top col = g.pivotRow top col.castSucc := by
  simp only [pivotRow, get_dropLastCol]

theorem clearBelow_dropLastCol (g : Grid α rows (cols + 1)) (top : Fin rows) (col : Fin cols) :
    g.dropLastCol.clearBelow top col = (g.clearBelow top col.castSucc).dropLastCol := by
  ext i j
  simp only [get_clearBelow, get_dropLastCol, Fin.castSucc_le_castSucc_iff]

/-- A round without its last column. -/
def Round.dropLastCol (r : Round α rows (cols + 1)) : Round α rows cols :=
  ⟨r.source, r.pivot, r.grid.dropLastCol⟩

/-- **The last column has no say in a round.** -/
theorem eliminate_dropLastCol (g : Grid α rows (cols + 1)) (limit : α) (top : Fin rows)
    (col : Fin cols) :
    g.dropLastCol.eliminate limit top col =
      (g.eliminate limit top col.castSucc).map Round.dropLastCol := by
  have hswap : ∀ source,
      g.dropLastCol.swapRows top source = (g.swapRows top source).dropLastCol := by
    intro source
    ext i j
    simp only [get_swapRows, get_dropLastCol]
  simp only [eliminate, pivotRow_dropLastCol, get_dropLastCol, hswap, clearBelow_dropLastCol]
  split
  · rfl
  · rfl

/-- The threshold is that of the coefficients. -/
theorem threshold_dropLastCol (g : Grid α rows (n + 1)) :
    g.dropLastCol.threshold n = g.threshold n := by
  have hcols : (List.finRange (n + 1)).filter (·.val < n) =
      ((List.finRange n).filter (·.val < n)).map Fin.castSucc := by
    rw [List.finRange_succ_last, List.filter_append, List.filter_map, List.filter_singleton]
    simp [Function.comp_def]
  simp only [threshold, magnitude, hcols, List.foldl_map, get_dropLastCol]

/-- The product of pivots that the determinant has after `k` rounds, given the grids that the rounds
start from and the diagonal that they leave. -/
def productTo (stage : Fin n → Grid α n (n + 1)) (R : Grid α n (n + 1)) (k : Nat) (h : k ≤ n) : α :=
  Fin.foldl k (fun d i ↦
    let i := i.castLE h
    (if (stage i).pivotRow i i.castSucc ≠ i then -d else d) * R.get i i.castSucc) Arith.one

theorem productTo_succ (stage : Fin n → Grid α n (n + 1)) (R : Grid α n (n + 1)) {k : Nat}
    (h : k + 1 ≤ n) :
    productTo stage R (k + 1) h =
      (if (stage ⟨k, h⟩).pivotRow ⟨k, h⟩ (Fin.castSucc ⟨k, h⟩) ≠ ⟨k, h⟩
        then -productTo stage R k (Nat.le_of_succ_le h)
        else productTo stage R k (Nat.le_of_succ_le h)) *
          R.get ⟨k, h⟩ (Fin.castSucc ⟨k, h⟩) := by
  rw [productTo, Fin.foldl_succ_last]
  rfl

/-- **Round by round**: as long as forward elimination comes through, the determinant has its
coefficients, and the product of the pivots on the diagonal that it leaves in the end. -/
theorem detTo_dropLastCol {g R : Grid α n (n + 1)} {limit : α}
    (hR : g.reduceTo limit n (le_refl n) (Nat.le_succ n) = some R)
    {stage : Fin n → Grid α n (n + 1)}
    (hstage : ∀ i : Fin n, g.reduceTo limit i i.isLt.le (Nat.le_succ_of_le i.isLt.le) =
      some (stage i)) {k : Nat} (h : k ≤ n) :
    ∃ m, g.reduceTo limit k h (Nat.le_succ_of_le h) = some m ∧
      g.dropLastCol.detTo limit k h = some (m.dropLastCol, productTo stage R k h) := by
  induction k with
  | zero => exact ⟨g, rfl, rfl⟩
  | succ k ih =>
    obtain ⟨m, hm, hdet⟩ := ih (Nat.le_of_succ_le h)
    obtain rfl : m = stage ⟨k, h⟩ := Option.some.inj (hm.symm.trans (hstage ⟨k, h⟩))
    obtain ⟨r, hr, hpivot⟩ := get_diagonal_of_reduceTo (Nat.lt_of_succ_le h) hm hR
    refine ⟨r.grid, reduceTo_succ_eq_some_iff.2 ⟨_, hm, r, hr, rfl⟩, ?_⟩
    have hround : (stage ⟨k, h⟩).dropLastCol.eliminate limit ⟨k, h⟩ ⟨k, h⟩ =
        some r.dropLastCol := by
      rw [eliminate_dropLastCol]
      exact congrArg (Option.map _) hr
    have hsource : r.source = (stage ⟨k, h⟩).pivotRow ⟨k, h⟩ (Fin.castSucc ⟨k, h⟩) :=
      source_eq_of_eliminate hr
    rw [detTo_succ, hdet]
    show ((stage ⟨k, h⟩).dropLastCol.eliminate limit ⟨k, h⟩ ⟨k, h⟩).map _ = _
    rw [hround, productTo_succ, ← hsource]
    show some (r.grid.dropLastCol, _ * r.pivot) = _
    rw [← hpivot]
    rfl

/-- The determinant comes through exactly as many rounds as forward elimination. -/
theorem detTo_dropLastCol_eq_none_iff (g : Grid α n (n + 1)) (limit : α) {k : Nat} (h : k ≤ n) :
    g.dropLastCol.detTo limit k h = none ↔
      g.reduceTo limit k h (Nat.le_succ_of_le h) = none := by
  suffices hgrids : (g.dropLastCol.detTo limit k h).map Prod.fst =
      (g.reduceTo limit k h (Nat.le_succ_of_le h)).map dropLastCol by
    rw [← Option.map_eq_none_iff (f := Prod.fst), hgrids, Option.map_eq_none_iff]
  induction k with
  | zero => rfl
  | succ k ih =>
    have hbefore := ih (Nat.le_of_succ_le h)
    rw [detTo_succ, reduceTo]
    rcases hm : g.reduceTo limit k (Nat.le_of_succ_le h)
        (Nat.le_of_succ_le (Nat.le_succ_of_le h)) with _ | m
    · rw [hm] at hbefore
      rw [Option.map_eq_none_iff.1 hbefore]
      rfl
    · rw [hm] at hbefore
      obtain ⟨⟨m', d⟩, hdet, hm'⟩ := Option.map_eq_some_iff.1 hbefore
      obtain rfl : m' = m.dropLastCol := hm'
      rw [hdet]
      show ((m.dropLastCol.eliminate limit ⟨k, h⟩ ⟨k, h⟩).map _).map _ =
        ((m.eliminate limit ⟨k, h⟩ (Fin.castSucc ⟨k, h⟩)).map _).map _
      rw [eliminate_dropLastCol]
      simp only [Option.map_map]
      rfl

/-- A system that is refused by forward elimination has the determinant zero. -/
theorem det_dropLastCol_of_reduce_eq_none {g : Grid α n (n + 1)} (h : g.reduce = none) :
    g.dropLastCol.det = Arith.zero := by
  rw [reduce_eq_reduceTo] at h
  rw [det, threshold_dropLastCol, (g.detTo_dropLastCol_eq_none_iff _ (le_refl n)).2 h]

/-- The grids that the rounds of a run start from. -/
theorem exists_stages {g R : Grid α n (n + 1)} (h : g.reduce = some R) :
    ∃ stage : Fin n → Grid α n (n + 1), ∀ i : Fin n,
      g.reduceTo (g.threshold n) i i.isLt.le (Nat.le_succ_of_le i.isLt.le) = some (stage i) := by
  rw [reduce_eq_reduceTo] at h
  exact Classical.skolem.1 fun i : Fin n ↦ exists_reduceTo_of_le i.isLt.le h

/-- The determinant of a system that comes through is the product over its whole diagonal. -/
theorem det_dropLastCol_of_reduce_eq_some {g R : Grid α n (n + 1)} (h : g.reduce = some R)
    {stage : Fin n → Grid α n (n + 1)}
    (hstage : ∀ i : Fin n, g.reduceTo (g.threshold n) i i.isLt.le (Nat.le_succ_of_le i.isLt.le) =
      some (stage i)) :
    g.dropLastCol.det = productTo stage R n (le_refl n) := by
  rw [reduce_eq_reduceTo] at h
  obtain ⟨m, -, hdet⟩ := detTo_dropLastCol h hstage (le_refl n)
  rw [det, threshold_dropLastCol, hdet]

end MatrixScript.Grid

namespace MatrixScript.Table

theorem reduce_eq_ok_iff {α : Type} [Arith α] {rows cols : Nat} {S : Grid α rows cols}
    {T : Table α} :
    (⟨rows, cols, S⟩ : Table α).reduce = .ok T ↔
      ∃ R, S.reduce = some R ∧ T = ⟨rows, cols, R⟩ := by
  rw [reduce]
  rcases S.reduce with _ | R
  · refine ⟨?_, ?_⟩
    · rintro ⟨⟩
    · rintro ⟨R, hR, -⟩
      exact absurd hR.symm (Option.some_ne_none R)
  · refine ⟨fun h ↦ ⟨R, rfl, (Except.ok.inj h).symm⟩, ?_⟩
    rintro ⟨R', hR, rfl⟩
    rw [Option.some.inj hR]

/-- **The determinant follows forward elimination**, in doubles as they are. If an augmented matrix
is refused, the determinant of its coefficients is zero. If it is reduced to `R`, the determinant is
what comes of one when, for each row in order, the product so far is negated if the round of that
row found its pivot in another row, and is then multiplied by the entry of `R` on the diagonal. -/
theorem det_follows_reduce {n : Nat} (S : Grid Float n (n + 1)) :
    ((⟨n, n + 1, S⟩ : Table Float).reduce = .error .singular →
      (⟨n, n, S.dropLastCol⟩ : Table Float).det = .ok 0.0) ∧
    ∀ T, (⟨n, n + 1, S⟩ : Table Float).reduce = .ok T →
      ∃ (R : Grid Float n (n + 1)) (stage : Fin n → Grid Float n (n + 1)), T = ⟨n, n + 1, R⟩ ∧
        (∀ i : Fin n, S.reduceTo (S.threshold n) i i.isLt.le (Nat.le_succ_of_le i.isLt.le) =
          some (stage i)) ∧
        (⟨n, n, S.dropLastCol⟩ : Table Float).det =
          .ok (Fin.foldl n (fun d i ↦
            (if (stage i).pivotRow i i.castSucc ≠ i then -d else d) * R.get i i.castSucc) 1.0) := by
  simp only [reduce, det, dite_true, Grid.cast_rfl]
  rcases hreduce : S.reduce with _ | R
  · refine ⟨fun _ ↦ congrArg Except.ok (Grid.det_dropLastCol_of_reduce_eq_none hreduce), ?_⟩
    rintro T ⟨⟩
  · refine ⟨?_, fun T hT ↦ ?_⟩
    · rintro ⟨⟩
    obtain ⟨stage, hstage⟩ := Grid.exists_stages hreduce
    refine ⟨R, stage, (Except.ok.inj hT).symm, hstage, ?_⟩
    exact congrArg Except.ok (Grid.det_dropLastCol_of_reduce_eq_some hreduce hstage)

/-- Two equations whose first pivot is in the second row: the sign changes once, and the product is
minus four times two. -/
theorem det_follows_reduce_exchanged :
    let S : Grid Float 2 3 := ⟨#v[0, 2, 6, 4, 1, 5]⟩
    let R : Grid Float 2 3 := ⟨#v[4, 1, 5, 0, 2, 6]⟩
    (⟨2, 3, S⟩ : Table Float).reduce = .ok ⟨2, 3, R⟩ ∧
      (⟨2, 2, S.dropLastCol⟩ : Table Float).det = .ok (-8.0) ∧
      ∃ stage : Fin 2 → Grid Float 2 3,
        (⟨2, 2, S.dropLastCol⟩ : Table Float).det =
          .ok (Fin.foldl 2 (fun d i ↦
            (if (stage i).pivotRow i i.castSucc ≠ i then -d else d) * R.get i i.castSucc) 1.0) := by
  intro S R
  have hreduce : (⟨2, 3, S⟩ : Table Float).reduce = .ok ⟨2, 3, R⟩ := by decide +kernel
  have hdet : (⟨2, 2, S.dropLastCol⟩ : Table Float).det = .ok (-8.0) := by decide +kernel
  obtain ⟨R', stage, hR', -, hproduct⟩ := (det_follows_reduce S).2 _ hreduce
  obtain rfl : R = R' := by injection hR'
  exact ⟨hreduce, hdet, stage, hproduct⟩

end MatrixScript.Table
