/-!
# Grids

A grid is a matrix whose dimensions are part of its type. Its cells are one vector, row after
row, and every position is a pair of bounded indices, so no operation on grids can reach outside
the cells.

Operations build their result with `Grid.ofFn` and read their arguments with `Grid.get`. The two
are inverse to each other (`Grid.get_ofFn`, `Grid.ext`), and after that nothing looks at the
order of the cells.
-/

namespace MatrixScript

/-- A matrix with `rows` rows and `cols` columns, both possibly zero. -/
structure Grid (α : Type) (rows cols : Nat) where
  /-- The cells, row after row. -/
  cells : Vector α (rows * cols)
deriving DecidableEq

namespace Grid

variable {α β : Type} {rows cols : Nat}

/-! ### Positions -/

/-- A position in a grid lies among its cells. -/
theorem position_lt (i : Fin rows) (j : Fin cols) : i.val * cols + j.val < rows * cols :=
  calc
    i.val * cols + j.val < i.val * cols + cols := Nat.add_lt_add_left j.isLt _
    _ = (i.val + 1) * cols := (Nat.succ_mul _ _).symm
    _ ≤ rows * cols := Nat.mul_le_mul_right _ i.isLt

/-- The row of a cell. -/
def rowOf (k : Fin (rows * cols)) : Fin rows :=
  ⟨k.val / cols, Nat.div_lt_of_lt_mul (Nat.mul_comm rows cols ▸ k.isLt)⟩

/-- The column of a cell. -/
def colOf (k : Fin (rows * cols)) : Fin cols :=
  ⟨k.val % cols, Nat.mod_lt _ <| Nat.pos_of_ne_zero fun h ↦ by
    have := k.isLt
    simp [h] at this⟩

/-! ### Reading and building -/

/-- The entry in row `i` and column `j`. -/
def get (g : Grid α rows cols) (i : Fin rows) (j : Fin cols) : α :=
  have := position_lt i j
  g.cells[i.val * cols + j.val]

/-- The grid with the given entries. -/
def ofFn (f : Fin rows → Fin cols → α) : Grid α rows cols :=
  ⟨Vector.ofFn fun k ↦ f (rowOf k) (colOf k)⟩

@[simp]
theorem get_ofFn (f : Fin rows → Fin cols → α) (i : Fin rows) (j : Fin cols) :
    (ofFn f).get i j = f i j := by
  have hc : 0 < cols := Nat.lt_of_le_of_lt (Nat.zero_le _) j.isLt
  have hrow : (i.val * cols + j.val) / cols = i.val := by
    rw [Nat.mul_comm, Nat.mul_add_div hc, Nat.div_eq_of_lt j.isLt, Nat.add_zero]
  have hcol : (i.val * cols + j.val) % cols = j.val := by
    rw [Nat.mul_comm, Nat.mul_add_mod, Nat.mod_eq_of_lt j.isLt]
  simp [get, ofFn, rowOf, colOf, hrow, hcol]

/-- Grids with equal entries are equal. -/
@[ext]
theorem ext {g h : Grid α rows cols} (hget : ∀ i j, g.get i j = h.get i j) : g = h := by
  obtain ⟨g⟩ := g
  obtain ⟨h⟩ := h
  congr 1
  ext k hk
  have := hget (rowOf ⟨k, hk⟩) (colOf ⟨k, hk⟩)
  simpa [get, rowOf, colOf, Nat.div_add_mod' k cols] using this

@[simp]
theorem ofFn_get (g : Grid α rows cols) : ofFn g.get = g :=
  ext fun i j ↦ get_ofFn _ i j

/-- A grid whose dimensions are known under other names. -/
def cast {rows' cols' : Nat} (hr : rows = rows') (hc : cols = cols') (g : Grid α rows cols) :
    Grid α rows' cols' :=
  ⟨g.cells.cast (by rw [hr, hc])⟩

@[simp]
theorem cast_rfl (g : Grid α rows cols) : g.cast rfl rfl = g := rfl

/-- The grid with one entry everywhere. -/
def replicate (rows cols : Nat) (x : α) : Grid α rows cols :=
  ofFn fun _ _ ↦ x

/-- The entries of one row, from left to right. -/
def row (g : Grid α rows cols) (i : Fin rows) : List α :=
  (List.finRange cols).map (g.get i)

/-- The rows of a grid, from top to bottom. -/
def toRows (g : Grid α rows cols) : List (List α) :=
  (List.finRange rows).map g.row

/-! ### Operations that need no arithmetic -/

/-- Applies a function to every entry. -/
def map (f : α → β) (g : Grid α rows cols) : Grid β rows cols :=
  ofFn fun i j ↦ f (g.get i j)

/-- Combines two grids entry by entry. -/
def zipWith (f : α → α → β) (g h : Grid α rows cols) : Grid β rows cols :=
  ofFn fun i j ↦ f (g.get i j) (h.get i j)

/-- Rows become columns. -/
def transpose (g : Grid α rows cols) : Grid α cols rows :=
  ofFn fun i j ↦ g.get j i

/-- Exchanges two rows. -/
def swapRows (g : Grid α rows cols) (a b : Fin rows) : Grid α rows cols :=
  ofFn fun i j ↦ g.get (if i = a then b else if i = b then a else i) j

/-- The columns of a grid without the last one. -/
def dropLastCol (g : Grid α rows (cols + 1)) : Grid α rows cols :=
  ofFn fun i j ↦ g.get i j.castSucc

@[simp]
theorem get_map (f : α → β) (g : Grid α rows cols) (i : Fin rows) (j : Fin cols) :
    (g.map f).get i j = f (g.get i j) :=
  get_ofFn _ i j

@[simp]
theorem get_zipWith (f : α → α → β) (g h : Grid α rows cols) (i : Fin rows) (j : Fin cols) :
    (g.zipWith f h).get i j = f (g.get i j) (h.get i j) :=
  get_ofFn _ i j

@[simp]
theorem get_transpose (g : Grid α rows cols) (i : Fin cols) (j : Fin rows) :
    g.transpose.get i j = g.get j i :=
  get_ofFn _ i j

@[simp]
theorem get_swapRows (g : Grid α rows cols) (a b i : Fin rows) (j : Fin cols) :
    (g.swapRows a b).get i j = g.get (if i = a then b else if i = b then a else i) j :=
  get_ofFn _ i j

/-- A row that changes places with itself stays where it is. -/
theorem swapRows_self (g : Grid α rows cols) (a : Fin rows) : g.swapRows a a = g := by
  ext i j
  rw [get_swapRows]
  split
  · next h => rw [h]
  · rfl

@[simp]
theorem get_dropLastCol (g : Grid α rows (cols + 1)) (i : Fin rows) (j : Fin cols) :
    g.dropLastCol.get i j = g.get i j.castSucc :=
  get_ofFn _ i j

end Grid

end MatrixScript
