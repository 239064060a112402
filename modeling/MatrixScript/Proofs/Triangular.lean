import MatrixScript.Proofs.DoubleArithmetic
import MatrixScript.Proofs.Rounds

/-!
# Triangular form

What forward elimination leaves below the diagonal, in doubles as they are. A round does not write
zeros below its pivot: it subtracts from each entry `x` there what comes of `x` when it is divided
by the pivot and multiplied by it again. The difference is zero exactly if `x` is finite and comes
out of this unchanged (`Number.Recovers`), which not every double does.

After its own round a column is only rearranged: later rounds exchange rows below the pivot
(`forall_below_of_reduceTo`). So a column is zero below the diagonal at the end exactly if every
entry was recovered in the round of that column (`Table.reduce_below_iff`).
-/

namespace MatrixScript.Number

/-- Division by a pivot followed by multiplication gives a finite double back. -/
structure Recovers (pivot x : Float) : Prop where
  finite : x.isFinite = true
  same : (x == x / pivot * pivot) = true

theorem sub_div_mul_beq_zero_iff {pivot x : Float} :
    (x - x / pivot * pivot == 0.0) = true ↔ Recovers pivot x :=
  sub_beq_zero_iff.trans ⟨fun h ↦ ⟨h.1, h.2⟩, fun h ↦ ⟨h.finite, h.same⟩⟩

end MatrixScript.Number

namespace MatrixScript.Grid

open Number

variable {α : Type} {rows cols : Nat}

/-- What holds of some rows after an exchange holds of the rows that these were before it. -/
theorem forall_get_swapRows_iff (g : Grid α rows cols) {a b : Fin rows} (j : Fin cols)
    {P : α → Prop} {after before : Fin rows → Prop}
    (h : ∀ i, after (Equiv.swap a b i) ↔ before i) :
    (∀ i, after i → P ((g.swapRows a b).get i j)) ↔ ∀ i, before i → P (g.get i j) := by
  have hget : ∀ i, (g.swapRows a b).get i j = g.get (Equiv.swap a b i) j := by
    intro i
    rw [get_swapRows, Equiv.swap_apply_def]
  refine ⟨fun hafter i hi ↦ ?_, fun hbefore i hi ↦ ?_⟩
  · have hi' := hafter (Equiv.swap a b i) ((h i).2 hi)
    rwa [hget, Equiv.swap_apply_self] at hi'
  · rw [hget]
    refine hbefore _ ((h _).1 ?_)
    rwa [Equiv.swap_apply_self]

/-- Bringing up a row puts the rows other than it below the row at hand. -/
theorem lt_swap_iff {top source : Fin rows} (h : top ≤ source) (i : Fin rows) :
    top < Equiv.swap top source i ↔ top ≤ i ∧ i ≠ source := by
  rw [Equiv.swap_apply_def]
  split
  · next hi =>
    rw [hi]
    exact ⟨fun hlt ↦ ⟨le_rfl, hlt.ne⟩, fun hne ↦ h.lt_of_ne hne.2⟩
  · next hi =>
    split
    · next hi' => exact ⟨fun hlt ↦ absurd hlt (lt_irrefl top), fun hne ↦ absurd hi' hne.2⟩
    · next hi' => exact ⟨fun hlt ↦ ⟨hlt.le, hi'⟩, fun hne ↦ hne.1.lt_of_ne (Ne.symm hi)⟩

/-- An exchange of rows below `top` leaves them below `top`. -/
theorem lt_swap_iff_of_lt {top a b : Fin rows} (ha : top < a) (hb : top < b) (i : Fin rows) :
    top < Equiv.swap a b i ↔ top < i := by
  rw [Equiv.swap_apply_def]
  split
  · next hi =>
    rw [hi]
    exact ⟨fun _ ↦ ha, fun _ ↦ hb⟩
  · split
    · next hi =>
      rw [hi]
      exact ⟨fun _ ↦ hb, fun _ ↦ ha⟩
    · rfl

/-- **A column is settled by its own round**: what holds of all entries of column `col` below row
`top` after the first `k` rounds holds of them at the end, and conversely. -/
theorem forall_below_of_reduceTo [Arith α] {g m R : Grid α rows cols} {limit : α} {k K : Nat}
    (hle : k ≤ K) {hrows : K ≤ rows} {hcols : K ≤ cols}
    (hm : g.reduceTo limit k (hle.trans hrows) (hle.trans hcols) = some m)
    (hR : g.reduceTo limit K hrows hcols = some R) {top : Fin rows} {col : Fin cols}
    (htop : top.val < k) (hcol : col.val < k) {P : α → Prop} :
    (∀ i, top < i → P (R.get i col)) ↔ ∀ i, top < i → P (m.get i col) := by
  refine reduceTo_from hle hm hR (motive := fun m' ↦
    (∀ i, top < i → P (m'.get i col)) ↔ ∀ i, top < i → P (m.get i col)) Iff.rfl ?_
  intro l hl hkl m' r hr ih
  have hlt : top < ⟨l, hl.trans_le hrows⟩ := Fin.lt_def.2 (htop.trans_le hkl)
  have hsource : top < r.source := by
    rw [source_eq_of_eliminate hr]
    exact hlt.trans_le (m'.le_pivotRow _ _)
  have hbefore : ∀ i, r.grid.get i col = (m'.swapRows ⟨l, hl.trans_le hrows⟩ r.source).get i col :=
    fun i ↦ get_eliminate_before hr i (Fin.lt_def.2 (hcol.trans_le hkl))
  -- the round exchanges two rows below `top`, so the rows below `top` are the same ones
  simp only [hbefore]
  exact (m'.forall_get_swapRows_iff col (lt_swap_iff_of_lt hlt hsource)).trans ih

/-- **One round**: it leaves nothing but zeros below its pivot exactly if it recovers the entries of
all other rows from its own one down. -/
theorem forall_below_of_eliminate {g : Grid Float rows cols} {limit : Float} {top : Fin rows}
    {col : Fin cols} {r : Round Float rows cols} (h : g.eliminate limit top col = some r) :
    (∀ i, top < i → (r.grid.get i col == 0.0) = true) ↔
      ∀ i, top ≤ i → i ≠ g.pivotRow top col →
        Recovers (g.get (g.pivotRow top col) col) (g.get i col) := by
  have hsource := source_eq_of_eliminate h
  have hpivot : r.pivot = g.get (g.pivotRow top col) col := by
    rw [(eliminate_eq_some_iff.1 h).2]
  have hround : (∀ i, top < i → (r.grid.get i col == 0.0) = true) ↔
      ∀ i, top < i → Recovers r.pivot ((g.swapRows top r.source).get i col) := by
    refine forall_congr' fun i ↦ imp_congr_right fun hi ↦ ?_
    rw [get_eliminate_below h hi, sub_div_mul_beq_zero_iff]
  rw [hround, hsource, hpivot,
    g.forall_get_swapRows_iff col (lt_swap_iff (g.le_pivotRow top col))]
  exact forall_congr' fun i ↦ and_imp

/-- The grid that forward elimination has after `k` rounds. -/
def Stage [Arith α] (S : Grid α rows cols) (k : Nat) (m : Grid α rows cols) : Prop :=
  ∃ (hrows : k ≤ rows) (hcols : k ≤ cols),
    S.reduceTo (S.threshold (cols - 1)) k hrows hcols = some m

/-- A column of a grid that comes through is zero below the diagonal exactly if its round recovers
all entries. -/
theorem exists_stage_below_iff {S R : Grid Float rows cols} (h : S.reduce = some R) {top : Fin rows}
    {col : Fin cols} (heq : top.val = col.val) (hcol : col.val + 1 < cols) :
    ∃ m, S.Stage col m ∧
      ((∀ i, top < i → (R.get i col == 0.0) = true) ↔
        ∀ i, top ≤ i → i ≠ m.pivotRow top col →
          Recovers (m.get (m.pivotRow top col) col) (m.get i col)) := by
  have hlt : col.val < min rows (cols - 1) := by
    have hrows := top.isLt
    omega
  obtain ⟨m', hm'⟩ := exists_reduceTo_of_le (Nat.succ_le_of_lt hlt) h
  obtain ⟨m, hm, r, hr, rfl⟩ := reduceTo_succ_eq_some_iff.1 hm'
  obtain rfl : top = ⟨col.val, hlt.trans_le (Nat.min_le_left _ _)⟩ := Fin.ext heq
  refine ⟨m, ⟨_, _, hm⟩, ?_⟩
  rw [forall_below_of_reduceTo (P := fun x ↦ (x == 0.0) = true) (Nat.succ_le_of_lt hlt) hm' h
    (Nat.lt_succ_self col.val) (Nat.lt_succ_self col.val), forall_below_of_eliminate hr]

end MatrixScript.Grid

namespace MatrixScript.Table

open Number

variable {rows cols : Nat}

/-- **When a column is cleared.** Forward elimination keeps the shape of a table, and in what it
leaves a pivot's column is zero below the diagonal exactly if, in the grid `m` that the round of
this column starts from, dividing by the pivot and multiplying by it again gives back the entries of
all rows that the round works on, other than the pivot's own one. -/
theorem reduce_below_iff {S : Grid Float rows cols} {T : Table Float}
    (h : (⟨rows, cols, S⟩ : Table Float).reduce = .ok T) :
    ∃ R : Grid Float rows cols, T = ⟨rows, cols, R⟩ ∧
      ∀ (top : Fin rows) (col : Fin cols), top.val = col.val → col.val + 1 < cols →
        ∃ m, S.Stage col m ∧
          ((∀ i, top < i → (R.get i col == 0.0) = true) ↔
            ∀ i, top ≤ i → i ≠ m.pivotRow top col →
              Recovers (m.get (m.pivotRow top col) col) (m.get i col)) := by
  obtain ⟨R, hreduce, rfl⟩ := reduce_eq_ok_iff.1 h
  exact ⟨R, rfl, fun top col ↦ Grid.exists_stage_below_iff hreduce⟩

theorem remainder_evaluates :
    let S : Grid Float 2 2 := ⟨#v[49, 0, 1, 1]⟩
    let R : Grid Float 2 2 := ⟨#v[49, 0, 1 / 9007199254740992, 1]⟩
    (∀ i j, (S.get i j).isFinite = true) ∧
      (⟨2, 2, S⟩ : Table Float).reduce = .ok ⟨2, 2, R⟩ ∧ ¬ (R.get 1 0 == 0.0) = true := by
  decide +kernel

/-- With the pivot 49, the entry 1 below it is not recovered: the quotient is rounded, and 49 times
it is the double before 1. What is left in the place of 1 is `2 ^ (-53)`. -/
theorem reduce_below_iff_remainder :
    let S : Grid Float 2 2 := ⟨#v[49, 0, 1, 1]⟩
    let R : Grid Float 2 2 := ⟨#v[49, 0, 1 / 9007199254740992, 1]⟩
    (⟨2, 2, S⟩ : Table Float).reduce = .ok ⟨2, 2, R⟩ ∧
      ∃ m, S.Stage 0 m ∧ ∃ i, i ≠ m.pivotRow 0 0 ∧
        ¬ Recovers (m.get (m.pivotRow 0 0) 0) (m.get i 0) := by
  intro S R
  obtain ⟨-, hreduce, hleft⟩ := remainder_evaluates
  obtain ⟨R', hR', hcolumns⟩ := reduce_below_iff hreduce
  obtain rfl : R = R' := by injection hR'
  obtain ⟨m, hm, hiff⟩ := hcolumns 0 0 rfl (by decide)
  refine ⟨hreduce, m, hm, ?_⟩
  by_contra hall
  push Not at hall
  exact hleft (hiff.2 (fun i _ hi ↦ hall i hi) 1 (by decide))

/-- Not everything that comes out of forward elimination is upper triangular. -/
theorem not_upperTriangular_of_reduce :
    ¬ ∀ (rows cols : Nat) (S R : Grid Float rows cols), (∀ i j, (S.get i j).isFinite = true) →
      (⟨rows, cols, S⟩ : Table Float).reduce = .ok ⟨rows, cols, R⟩ →
        ∀ (i : Fin rows) (j : Fin cols), j.val < min rows (cols - 1) → j.val < i.val →
          (R.get i j == 0.0) = true := by
  intro h
  let S : Grid Float 2 2 := ⟨#v[49, 0, 1, 1]⟩
  let R : Grid Float 2 2 := ⟨#v[49, 0, 1 / 9007199254740992, 1]⟩
  obtain ⟨hfinite, hreduce, hleft⟩ := remainder_evaluates
  exact hleft (h 2 2 S R hfinite hreduce 1 0 (by decide) (by decide))

end MatrixScript.Table
