import MatrixScript.Grid.Product

/-!
# Elimination with partial pivoting

Forward elimination, the determinant and back substitution. A round of elimination looks for the
entry of greatest magnitude in its column, refuses it if it is no greater than a threshold, brings
its row up and clears the column below it. The rounds of the determinant keep the pivot in mind from
where they have found it and leave the rows alone if it stands in its place. They come to the same
(`detRound_eq`).

The threshold is `Arith.tolerance` times the largest coefficient, so that a system with small
coefficients is not mistaken for a singular one. With no coefficient but zeros the threshold is
zero, which still refuses a zero pivot.

`reduceTo` and `detTo` are the states after a number of rounds, by recursion on that number. A
statement about all rounds is then an induction with one round as its step.
-/

namespace MatrixScript.Grid

variable {α : Type} [Arith α] {rows cols n : Nat}

/-! ### One round -/

/-- The greater of a magnitude found so far and another one; a magnitude that compares with
nothing is passed over. -/
def larger (found x : α) : α :=
  if Arith.below found x then x else found

/-- The largest magnitude in the first `width` columns. -/
def magnitude (g : Grid α rows cols) (width : Nat) : α :=
  (List.finRange rows).foldl
    (fun acc i ↦ ((List.finRange cols).filter (·.val < width)).foldl
      (fun acc j ↦ larger acc (Arith.abs (g.get i j))) acc)
    Arith.zero

/-- The magnitude up to which a pivot in the first `width` columns counts as zero. -/
def threshold (g : Grid α rows cols) (width : Nat) : α :=
  g.magnitude width * Arith.tolerance

/-- The row at or below `top` with the entry of greatest magnitude in column `col`, the lowest
one if there are several. -/
def pivotRow (g : Grid α rows cols) (top : Fin rows) (col : Fin cols) : Fin rows :=
  ((List.finRange rows).filter (top < ·)).foldl
    (fun best i ↦
      if Arith.ranksAtMost (Arith.abs (g.get best col)) (Arith.abs (g.get i col)) then i else best)
    top

/-- Subtracts from each row below `top` the multiple of row `top` that cancels its entry in
column `col`, where `pivot` is the entry of row `top`. Columns before `col` are left alone. -/
def clearWith (g : Grid α rows cols) (pivot : α) (top : Fin rows) (col : Fin cols) :
    Grid α rows cols :=
  ofFn fun i j ↦
    if top < i ∧ col ≤ j then g.get i j - g.get i col / pivot * g.get top j else g.get i j

@[simp]
theorem get_clearWith (g : Grid α rows cols) (pivot : α) (top i : Fin rows) (col j : Fin cols) :
    (g.clearWith pivot top col).get i j =
      if top < i ∧ col ≤ j then g.get i j - g.get i col / pivot * g.get top j else g.get i j :=
  get_ofFn _ i j

/-- Cancels the entries below row `top` in column `col`. -/
def clearBelow (g : Grid α rows cols) (top : Fin rows) (col : Fin cols) : Grid α rows cols :=
  g.clearWith (g.get top col) top col

@[simp]
theorem get_clearBelow (g : Grid α rows cols) (top i : Fin rows) (col j : Fin cols) :
    (g.clearBelow top col).get i j =
      if top < i ∧ col ≤ j then
        g.get i j - g.get i col / g.get top col * g.get top j
      else g.get i j :=
  g.get_clearWith _ top i col j

/-- What one round of elimination finds and leaves. -/
structure Round (α : Type) (rows cols : Nat) where
  /-- The row that the pivot was found in. -/
  source : Fin rows
  /-- The pivot. -/
  pivot : α
  /-- The grid with the pivot's row brought up and the column below it cleared. -/
  grid : Grid α rows cols

/-- One round of elimination in row `top` and column `col`; none if the pivot is refused. -/
def eliminate (g : Grid α rows cols) (limit : α) (top : Fin rows) (col : Fin cols) :
    Option (Round α rows cols) :=
  let source := g.pivotRow top col
  let pivot := g.get source col
  if Arith.atMost (Arith.abs pivot) limit then none
  else some ⟨source, pivot, (g.swapRows top source).clearBelow top col⟩

/-! ### Forward elimination -/

/-- The grid after the first `k` rounds, along the diagonal. -/
def reduceTo (g : Grid α rows cols) (limit : α) :
    (k : Nat) → k ≤ rows → k ≤ cols → Option (Grid α rows cols)
  | 0, _, _ => some g
  | k + 1, hr, hc =>
    match g.reduceTo limit k (Nat.le_of_succ_le hr) (Nat.le_of_succ_le hc) with
    | none => none
    | some m => (m.eliminate limit ⟨k, hr⟩ ⟨k, hc⟩).map (·.grid)

/-- Forward elimination of an augmented matrix. The last column holds the right-hand sides and
has no pivot. -/
def reduce (g : Grid α rows cols) : Option (Grid α rows cols) :=
  g.reduceTo (g.threshold (cols - 1)) (min rows (cols - 1)) (Nat.min_le_left _ _)
    (Nat.le_trans (Nat.min_le_right _ _) (Nat.sub_le _ _))

/-! ### The determinant -/

/-- One round of the determinant in row and column `k`, where `d` is the product so far: none if
the pivot is refused. Rows change places only if the pivot stands in another row, and then the
product is negated. -/
def detRound (g : Grid α n n) (limit d : α) (k : Fin n) : Option (Grid α n n × α) :=
  let source := g.pivotRow k k
  let pivot := g.get source k
  if Arith.atMost (Arith.abs pivot) limit then none
  else
    let (m, d) := if source ≠ k then (g.swapRows k source, -d) else (g, d)
    some (m.clearWith pivot k k, d * pivot)

/-- **A round of the determinant is a round of elimination**, with the pivot for a factor. -/
theorem detRound_eq (g : Grid α n n) (limit d : α) (k : Fin n) :
    g.detRound limit d k = (g.eliminate limit k k).map fun r ↦
      (r.grid, (if r.source ≠ k then -d else d) * r.pivot) := by
  have hpivot : (g.swapRows k (g.pivotRow k k)).get k k = g.get (g.pivotRow k k) k := by
    rw [get_swapRows, if_pos rfl]
  simp only [detRound, eliminate, clearBelow, hpivot]
  split
  · rfl
  · by_cases hsource : g.pivotRow k k = k
    · rw [hsource, swapRows_self]
      simp
    · simp [hsource]

/-- The grid after the first `k` rounds, with the product of their pivots, negated once for
each pivot that was brought up from another row. -/
def detTo (g : Grid α n n) (limit : α) : (k : Nat) → k ≤ n → Option (Grid α n n × α)
  | 0, _ => some (g, Arith.one)
  | k + 1, h =>
    match g.detTo limit k (Nat.le_of_succ_le h) with
    | none => none
    | some (m, d) => m.detRound limit d ⟨k, h⟩

theorem detTo_succ (g : Grid α n n) (limit : α) {k : Nat} (h : k + 1 ≤ n) :
    g.detTo limit (k + 1) h = (g.detTo limit k (Nat.le_of_succ_le h)).bind fun p ↦
      (p.1.eliminate limit ⟨k, h⟩ ⟨k, h⟩).map fun r ↦
        (r.grid, (if r.source ≠ ⟨k, h⟩ then -p.2 else p.2) * r.pivot) := by
  rw [detTo]
  cases g.detTo limit k (Nat.le_of_succ_le h) with
  | none => rfl
  | some p => exact p.1.detRound_eq limit p.2 ⟨k, h⟩

/-- The determinant by elimination; zero if a pivot is refused. -/
def det (g : Grid α n n) : α :=
  match g.detTo (g.threshold n) n (Nat.le_refl n) with
  | none => Arith.zero
  | some (_, d) => d

/-! ### Back substitution -/

/-- What is left of row `i`'s right-hand side once the unknowns after `i` are moved over. -/
def residual (g : Grid α n (n + 1)) (x : Vector α n) (i : Fin n) : α :=
  ((List.finRange n).filter (i < ·)).foldl
    (fun acc j ↦ acc - g.get i j.castSucc * x[j]) (g.get i (Fin.last n))

/-- The unknowns with the last `k` of them solved for, the others zero. -/
def substituteTo (g : Grid α n (n + 1)) (limit : α) : (k : Nat) → k ≤ n → Option (Vector α n)
  | 0, _ => some (Vector.replicate n Arith.zero)
  | k + 1, h =>
    match g.substituteTo limit k (Nat.le_of_succ_le h) with
    | none => none
    | some x =>
      have hi : n - (k + 1) < n := by omega
      let i : Fin n := ⟨n - (k + 1), hi⟩
      let pivot := g.get i i.castSucc
      if Arith.atMost (Arith.abs pivot) limit then none
      else some (x.set i (g.residual x i / pivot))

/-- Solves a triangular augmented system from its last row up. -/
def substitute (g : Grid α n (n + 1)) : Option (Grid α n 1) :=
  (g.substituteTo (g.threshold n) n (Nat.le_refl n)).map fun x ↦ ofFn fun i _ ↦ x[i]

/-- Solves an augmented system; none if it is singular. A system whose determinant comes out
as zero is not reduced at all. -/
def solve (g : Grid α n (n + 1)) : Option (Grid α n 1) :=
  if Arith.isZero g.dropLastCol.det then none
  else g.reduce.bind substitute

end MatrixScript.Grid
