import MatrixScript.Proofs.Basis
import MatrixScript.Table.Operations

/-!
# Matrices as they lie in memory

The positions of a grid are bounded by their type, so nothing can be looked up outside its cells.
Here the same operations work on buffers, which are two numbers and a list of cells that nothing
ties to them. They do so on a machine: positions are worked out as its sizes and checked when they
are used, memory is asked for before it is written to, and a computation that is outside once or has
no memory has no result. Row and column are checked each for itself: a column after the last one is
outside, even where the cells of the next row lie.

An operation changes the cells of a buffer one by one, in loops. What a loop has come to after some
of its rounds is the buffer of a grid, with the entries done that it has come by (`loop_eq`); after
all rounds it is the grid that the operation on grids builds at once. So every operation on buffers
that come from tables has a result if there is room for it, and it is the buffer of the result on
tables. The hypotheses on the number of cells say that there is room: positions in a grid lie below
the number of its cells, so none of them is too large a size where this number is none.

This module has the operations that need no elimination. Of these, transposing writes every cell, so
that its loops come to the same on any memory of the right shape (`Grid.transposeInto?_buffer`).
-/

namespace MatrixScript

/-- A matrix as it lies in memory. -/
structure Buffer (α : Type) where
  /-- The number of rows. -/
  rows : Nat
  /-- The number of columns. -/
  cols : Nat
  /-- The cells, row after row. -/
  data : List α
deriving DecidableEq

variable {α : Type} {rows cols n : Nat} {m : Machine}

/-- The cells of a grid with its dimensions. -/
def Grid.buffer (g : Grid α rows cols) : Buffer α :=
  ⟨rows, cols, g.cells.toList⟩

/-- The cells of a table with its dimensions. -/
def Table.buffer (t : Table α) : Buffer α :=
  t.grid.buffer

namespace Buffer

/-- There are as many cells as the dimensions say. -/
def WellFormed (b : Buffer α) : Prop :=
  b.data.length = b.rows * b.cols

/-- The well-formed buffers are those of tables. -/
theorem wellFormed_iff {b : Buffer α} : b.WellFormed ↔ ∃ t : Table α, t.buffer = b := by
  constructor
  · intro h
    exact ⟨⟨b.rows, b.cols, ⟨⟨b.data.toArray, h⟩⟩⟩, rfl⟩
  · rintro ⟨t, rfl⟩
    exact t.grid.cells.length_toList

/-! ### Positions -/

/-- Where a machine looks for row `i` and column `j`. -/
def position? (m : Machine) (b : Buffer α) (i j : Nat) : Option Nat :=
  if i < b.rows ∧ j < b.cols then m.size? (i * b.cols + j) else none

/-- The entry in row `i` and column `j`. -/
def get? (m : Machine) (b : Buffer α) (i j : Nat) : Option α :=
  (b.position? m i j).bind fun k ↦ b.data[k]?

/-- Changes the entry in row `i` and column `j`. -/
def set? (m : Machine) (b : Buffer α) (i j : Nat) (x : α) : Option (Buffer α) :=
  (b.position? m i j).bind fun k ↦
    if k < b.data.length then some { b with data := b.data.set k x } else none

/-- The entries of row `i`. -/
def row? (m : Machine) (b : Buffer α) (i : Nat) : Option (List α) :=
  if i < b.rows then do
    let first ← m.size? (i * b.cols)
    let last ← m.size? ((i + 1) * b.cols)
    Table.slice? first last b.data
  else none

end Buffer

namespace Grid

/-- Positions that lie at one place are the same. -/
theorem position_inj {i i' : Fin rows} {j j' : Fin cols}
    (h : i.val * cols + j.val = i'.val * cols + j'.val) : i = i' ∧ j = j' := by
  have hcols : 0 < cols := Nat.lt_of_le_of_lt (Nat.zero_le _) j.isLt
  have hrow := congrArg (· / cols) h
  have hcol := congrArg (· % cols) h
  simp only [Nat.mul_comm _ cols, Nat.mul_add_div hcols, Nat.mul_add_mod,
    Nat.div_eq_of_lt j.isLt, Nat.div_eq_of_lt j'.isLt, Nat.mod_eq_of_lt j.isLt,
    Nat.mod_eq_of_lt j'.isLt, Nat.add_zero] at hrow hcol
  exact ⟨Fin.ext hrow, Fin.ext hcol⟩

theorem getElem?_toList_cells (g : Grid α rows cols) (i : Fin rows) (j : Fin cols) :
    g.cells.toList[i.val * cols + j.val]? = some (g.get i j) := by
  have hlt := position_lt i j
  rw [get, Vector.getElem?_toList, Vector.getElem?_eq_getElem hlt]

/-- A list with the entries of a grid at their places is the list of its cells. -/
theorem eq_toList_cells {l : List α} (g : Grid α rows cols) (hlength : l.length = rows * cols)
    (h : ∀ (i : Fin rows) (j : Fin cols), l[i.val * cols + j.val]? = some (g.get i j)) :
    l = g.cells.toList := by
  refine List.ext_getElem? fun k ↦ ?_
  rcases Nat.lt_or_ge k (rows * cols) with hk | hk
  · have hposition : (rowOf ⟨k, hk⟩).val * cols + (colOf ⟨k, hk⟩).val = k := Nat.div_add_mod' k cols
    have hl := h (rowOf ⟨k, hk⟩) (colOf ⟨k, hk⟩)
    have hg := g.getElem?_toList_cells (rowOf ⟨k, hk⟩) (colOf ⟨k, hk⟩)
    rw [hposition] at hl hg
    rw [hl, hg]
  · rw [List.getElem?_eq_none (by omega), List.getElem?_eq_none (by simpa using hk)]

/-- The grid with one entry changed. -/
def update (g : Grid α rows cols) (i : Fin rows) (j : Fin cols) (x : α) : Grid α rows cols :=
  ofFn fun i' j' ↦ if i' = i ∧ j' = j then x else g.get i' j'

@[simp]
theorem get_update (g : Grid α rows cols) (i i' : Fin rows) (j j' : Fin cols) (x : α) :
    (g.update i j x).get i' j' = if i' = i ∧ j' = j then x else g.get i' j' :=
  get_ofFn _ i' j'

theorem position?_buffer (g : Grid α rows cols) (hm : rows * cols < m.sizes) (i : Fin rows)
    (j : Fin cols) : g.buffer.position? m i j = some (i.val * cols + j.val) := by
  have hinside : i.val < g.buffer.rows ∧ j.val < g.buffer.cols := ⟨i.isLt, j.isLt⟩
  rw [Buffer.position?, if_pos hinside]
  exact Machine.size?_of_lt ((position_lt i j).trans hm)

theorem get?_buffer (g : Grid α rows cols) (hm : rows * cols < m.sizes) (i : Fin rows)
    (j : Fin cols) : g.buffer.get? m i j = some (g.get i j) := by
  rw [Buffer.get?, g.position?_buffer hm, Option.bind_some]
  exact g.getElem?_toList_cells i j

/-- Changing one cell changes one entry. -/
theorem toList_cells_set (g : Grid α rows cols) (i : Fin rows) (j : Fin cols) (x : α) :
    g.cells.toList.set (i.val * cols + j.val) x = (g.update i j x).cells.toList := by
  refine eq_toList_cells _ (by simp) fun i' j' ↦ ?_
  rw [get_update, List.getElem?_set]
  split
  · next h =>
    obtain ⟨rfl, rfl⟩ := position_inj h
    simp [position_lt i j]
  · next h =>
    have hne : ¬ (i' = i ∧ j' = j) := by
      rintro ⟨rfl, rfl⟩
      exact h rfl
    rw [if_neg hne]
    exact g.getElem?_toList_cells i' j'

theorem set?_buffer (g : Grid α rows cols) (hm : rows * cols < m.sizes) (i : Fin rows)
    (j : Fin cols) (x : α) : g.buffer.set? m i j x = some (g.update i j x).buffer := by
  have hlt : i.val * cols + j.val < g.buffer.data.length := by
    show _ < g.cells.toList.length
    rw [Vector.length_toList]
    exact position_lt i j
  rw [Buffer.set?, g.position?_buffer hm, Option.bind_some, if_pos hlt]
  exact congrArg (fun data ↦ some (Buffer.mk rows cols data)) (g.toList_cells_set i j x)

end Grid

/-! ### Loops -/

/-- A loop over the numbers from `first` up to `last`. -/
def loop {σ : Type} (first last : Nat) (body : σ → Nat → Option σ) (init : σ) : Option σ :=
  (List.range' first (last - first)).foldlM body init

/-- **What a loop comes to**, given what it has come to before each round. What it works on is a
view of the states. -/
theorem loop_eq {σ τ : Type} {first last : Nat} {body : τ → Nat → Option τ} (h : first ≤ last)
    (view : σ → τ) (state : Nat → σ) {s t : σ} (hinit : state first = s) (hdone : state last = t)
    (hstep : ∀ k, first ≤ k → k < last → body (view (state k)) k = some (view (state (k + 1)))) :
    loop first last body (view s) = some (view t) := by
  subst hinit hdone
  obtain ⟨count, rfl⟩ := Nat.exists_eq_add_of_le h
  rw [loop, Nat.add_sub_cancel_left]
  clear h
  induction count with
  | zero => rfl
  | succ count ih =>
    rw [List.range'_1_concat, List.foldlM_append, ih fun k hk hlt ↦ hstep k hk (by omega)]
    show ([first + count].foldlM body (view (state (first + count))) : Option τ) = _
    rw [List.foldlM_cons, hstep (first + count) (by omega) (by omega)]
    rfl

/-- A loop whose rounds are the steps of a fold over indices. -/
theorem loop_eq_foldl {σ τ : Type} {first n : Nat} {body : τ → Nat → Option τ}
    {f : σ → Fin n → σ} (view : σ → τ)
    (h : ∀ s (i : Fin n), first ≤ i.val → body (view s) i.val = some (view (f s i))) (s : σ) :
    loop first n body (view s) =
      some (view (((List.finRange n).filter (first ≤ ·.val)).foldl f s)) := by
  have hmem : ∀ i ∈ (List.finRange n).filter (first ≤ ·.val), first ≤ i.val := by
    intro i hi
    exact of_decide_eq_true (List.mem_filter.1 hi).2
  rw [loop, ← map_val_filter_le, List.foldlM_map]
  generalize (List.finRange n).filter (first ≤ ·.val) = is at hmem
  induction is generalizing s with
  | nil => rfl
  | cons i is ih =>
    obtain ⟨hi, his⟩ := List.forall_mem_cons.1 hmem
    rw [List.foldlM_cons, h s i hi]
    exact ih (f s i) his

/-! ### Rows -/

/-- Cuts a list into pieces of `k` elements. The last one may be shorter. -/
def chunks (k : Nat) (l : List α) : List (List α) :=
  (List.range ((l.length + k - 1) / k)).map fun i ↦ (l.drop (i * k)).take k

/-- Cutting undoes joining. -/
theorem chunks_flatten {k : Nat} (hk : 0 < k) {ps : List (List α)} (h : ∀ p ∈ ps, p.length = k) :
    chunks k ps.flatten = ps := by
  have hcount : (ps.flatten.length + k - 1) / k = ps.length := by
    rw [Table.length_flatten_of_forall h, Nat.add_sub_assoc hk, Nat.mul_comm,
      Nat.mul_add_div hk, Nat.div_eq_of_lt (by omega), Nat.add_zero]
  rw [chunks, hcount]
  refine List.ext_getElem (by simp) fun i hi hi' ↦ ?_
  rw [List.getElem_map, List.getElem_range, take_drop_flatten h hi']

/-- The block of the rows from `top` up to `bottom` and the columns from `left` up to `right`. -/
def Buffer.block? (m : Machine) (b : Buffer α) (top bottom left right : Nat) :
    Option (Buffer α) := do
  let _ ← m.room? ((bottom - top) * (right - left))
  let parts ← (List.range' top (bottom - top)).mapM fun i ↦
    (b.row? m i).bind (Table.slice? left right)
  return ⟨bottom - top, right - left, parts.flatten⟩

namespace Grid

variable (g : Grid α rows cols)

theorem length_toRows : g.toRows.length = rows := by
  rw [toRows, List.length_map, List.length_finRange]

theorem toRows_ne_nil (h : 0 < rows) : g.toRows ≠ [] := by
  rw [← List.length_pos_iff, length_toRows]
  exact h

theorem length_of_mem_toRows : ∀ row ∈ g.toRows, row.length = cols := by
  intro row hrow
  obtain ⟨i, -, rfl⟩ := List.mem_map.1 hrow
  simp [Grid.row]

/-- The rows of a grid are its cells. -/
theorem flatten_toRows : g.toRows.flatten = g.cells.toList := by
  have hlength := g.length_toRows
  refine eq_toList_cells g ?_ fun i j ↦ ?_
  · rw [Table.length_flatten_of_forall g.length_of_mem_toRows, hlength]
  · have hi : i.val < g.toRows.length := by rw [hlength]; exact i.isLt
    have hrow := take_drop_flatten g.length_of_mem_toRows hi
    have hentry : g.toRows[i.val][j.val]? = some (g.get i j) := by simp [toRows, Grid.row]
    rw [← hrow, List.getElem?_take, if_pos j.isLt, List.getElem?_drop] at hentry
    exact hentry

theorem row?_buffer (hm : rows * cols < m.sizes) (i : Fin rows) :
    g.buffer.row? m i = some (g.row i) := by
  have hlength := g.length_toRows
  have hi : i.val < g.toRows.length := by rw [hlength]; exact i.isLt
  have hrow : (g.cells.toList.drop (i.val * cols)).take cols = g.row i := by
    rw [← g.flatten_toRows, take_drop_flatten g.length_of_mem_toRows hi]
    simp [toRows]
  have hbounds : i.val * cols ≤ (i.val + 1) * cols ∧
      (i.val + 1) * cols ≤ g.cells.toList.length := by
    rw [Vector.length_toList]
    exact ⟨Nat.mul_le_mul_right _ (Nat.le_succ _), Nat.mul_le_mul_right _ i.isLt⟩
  have hwidth : (i.val + 1) * cols - i.val * cols = cols := by
    rw [Nat.succ_mul, Nat.add_sub_cancel_left]
  have hlast : m.size? ((i.val + 1) * cols) = some ((i.val + 1) * cols) :=
    Machine.size?_of_lt ((Nat.mul_le_mul_right _ i.isLt).trans_lt hm)
  have hfirst : m.size? (i.val * cols) = some (i.val * cols) :=
    Machine.size?_of_lt ((Nat.mul_le_mul_right _ i.isLt.le).trans_lt hm)
  have hinside : i.val < g.buffer.rows := i.isLt
  rw [Buffer.row?, if_pos hinside]
  show (m.size? (i.val * cols) >>= fun first ↦ m.size? ((i.val + 1) * cols) >>= fun last ↦
    Table.slice? first last g.cells.toList) = _
  rw [hfirst, hlast, Option.bind_eq_bind, Option.bind_some, Option.bind_some, Table.slice?,
    if_pos hbounds, hwidth, hrow]

theorem slice?_row {width : Nat} (hwidth : width ≤ cols) (i : Fin rows) :
    Table.slice? 0 width (g.row i) =
      some (((List.finRange cols).filter (·.val < width)).map (g.get i)) := by
  have hlength : (g.row i).length = cols := by simp [Grid.row]
  rw [Table.slice?, if_pos ⟨Nat.zero_le _, hwidth.trans_eq hlength.symm⟩, List.drop_zero,
    Nat.sub_zero, filter_lt_finRange, Grid.row, List.map_take]

theorem slice?_row_dropLastCol (g : Grid α n (n + 1)) (i : Fin n) :
    Table.slice? 0 n (g.row i) = some (g.dropLastCol.row i) := by
  have hindices : (List.finRange (n + 1)).filter (·.val < n) =
      (List.finRange n).map Fin.castSucc := by
    rw [filter_lt_finRange, List.finRange_succ_last, List.take_left' (by simp)]
  rw [g.slice?_row (Nat.le_succ n), hindices, List.map_map, Grid.row]
  congr 2
  funext j
  exact (g.get_dropLastCol i j).symm

/-- The columns before the last one, cut out row by row. -/
theorem block?_buffer (g : Grid α n (n + 1)) (hm : n * (n + 1) < m.capacity) :
    g.buffer.block? m 0 n 0 n = some g.dropLastCol.buffer := by
  have hrows : (List.finRange n).mapM (fun i ↦
      (g.buffer.row? m i.val).bind (Table.slice? 0 n)) = some g.dropLastCol.toRows := by
    refine mapM_eq_some_map fun i _ ↦ ?_
    rw [g.row?_buffer (hm.trans_le m.capacity_le_sizes), Option.bind_some, slice?_row_dropLastCol]
  have hroom : m.room? ((n - 0) * (n - 0)) = some (n * n) :=
    Machine.room?_of_lt ((Nat.mul_le_mul_left n (Nat.le_succ n)).trans_lt hm)
  have hrange : List.range' 0 (n - 0) = (List.finRange n).map Fin.val :=
    (List.map_coe_finRange_eq_range ▸ List.range_eq_range').symm
  rw [Buffer.block?, hroom, Option.bind_eq_bind, Option.bind_some, hrange, List.mapM_map]
  refine (congrArg (fun parts? ↦ parts?.bind fun parts ↦
    some (Buffer.mk n n (List.flatten parts))) hrows).trans ?_
  rw [Option.bind_some, flatten_toRows]
  rfl

end Grid

namespace Table

/-- A table with a row is known by its rows. -/
theorem eq_of_toRows_eq {s t : Table α} (hrows : 0 < s.rows)
    (h : s.grid.toRows = t.grid.toRows) : s = t := by
  obtain ⟨rows, cols, g⟩ := s
  obtain ⟨rows', cols', g'⟩ := t
  obtain rfl : rows = rows' := by
    rw [← g.length_toRows, ← g'.length_toRows]
    exact congrArg List.length h
  have hfirst : g'.row ⟨0, hrows⟩ ∈ g.toRows := by
    rw [show g.toRows = g'.toRows from h]
    exact List.mem_map_of_mem (List.mem_finRange _)
  obtain rfl : cols' = cols := by simpa [Grid.row] using g.length_of_mem_toRows _ hfirst
  have hcells : g.cells.toList = g'.cells.toList := by
    rw [← g.flatten_toRows, ← g'.flatten_toRows]
    exact congrArg List.flatten h
  exact congrArg (fun cells ↦ Table.mk rows cols' ⟨cells⟩) (Vector.toList_inj.1 hcells)

/-- Rows of one length make a table. -/
theorem exists_ofRows_eq_ok {rows : List (List α)} (hne : rows ≠ []) {cols : Nat} (hcols : 0 < cols)
    (h : ∀ row ∈ rows, row.length = cols) : ∃ t, ofRows rows = .ok t := by
  have hhead : (rows.head?.getD []).length = cols := by
    obtain ⟨row, rest, rfl⟩ := List.exists_cons_of_ne_nil hne
    exact h row List.mem_cons_self
  simp only [ofRows, hhead]
  rw [if_neg hcols.ne', dif_pos h]
  exact ⟨_, rfl⟩

/-- **Which table is made of rows**: the one that has them as its rows, if there is a row and a
column. -/
theorem ofRows_eq_ok_iff {rows : List (List α)} {t : Table α} :
    ofRows rows = .ok t ↔ t.grid.toRows = rows ∧ 0 < t.rows ∧ 0 < t.cols := by
  have hmade : ∀ {t : Table α}, ofRows rows = .ok t →
      t.grid.toRows = rows ∧ 0 < t.rows ∧ 0 < t.cols := by
    intro t h
    simp only [ofRows] at h
    split at h
    · cases h
    next hcols =>
    split at h
    · next hlength =>
      obtain rfl := Except.ok.inj h
      refine ⟨?_, List.length_pos_iff.2 ?_, Nat.pos_of_ne_zero hcols⟩
      · -- lists of one length are known by what they are joined to
        rw [← chunks_flatten (Nat.pos_of_ne_zero hcols) (Grid.length_of_mem_toRows _),
          Grid.flatten_toRows]
        exact chunks_flatten (Nat.pos_of_ne_zero hcols) hlength
      · rintro rfl
        exact hcols rfl
    · cases h
  refine ⟨hmade, ?_⟩
  rintro ⟨rfl, hrows, hcols⟩
  obtain ⟨s, hs⟩ :=
    exists_ofRows_eq_ok (t.grid.toRows_ne_nil hrows) hcols t.grid.length_of_mem_toRows
  rw [hs, eq_of_toRows_eq hrows (hmade hs).1.symm]

end Table

/-! ### Sums, multiples and transposes -/

namespace Buffer

variable [Arith α]

/-- The buffer with zeros everywhere, as many of them as a machine has got memory for. -/
def zeros? (m : Machine) (rows cols : Nat) : Option (Buffer α) :=
  (m.room? (rows * cols)).map fun count ↦ ⟨rows, cols, List.replicate count Arith.zero⟩

/-- The sum of two buffers of one shape, cell by cell. -/
def add? (a b : Buffer α) : Option (Except Table.Error (Buffer α)) :=
  if (a.rows, a.cols) ≠ (b.rows, b.cols) then
    some (.error (.mismatch .addition (a.rows, a.cols) (b.rows, b.cols)))
  else some (.ok ⟨a.rows, a.cols, List.zipWith (· + ·) a.data b.data⟩)

/-- Every cell multiplied by `x`. -/
def scale? (b : Buffer α) (x : α) : Option (Except Table.Error (Buffer α)) :=
  some (.ok ⟨b.rows, b.cols, b.data.map (· * x)⟩)

/-- Transposes a buffer onto the cells of another one, one entry after the other. They are those of
the result if there are as many columns there as rows here and the other way round. -/
def transposeInto? (m : Machine) (b out : Buffer α) : Option (Buffer α) :=
  loop 0 b.rows (fun out row ↦
    loop 0 b.cols (fun out col ↦ (b.get? m row col).bind (out.set? m col row)) out) out

/-- Rows become columns, in new memory. -/
def transpose? (m : Machine) (b : Buffer α) : Option (Except Table.Error (Buffer α)) :=
  (zeros? m b.cols b.rows).bind fun out ↦ (b.transposeInto? m out).map .ok

end Buffer

namespace Grid

theorem zeros?_eq [Arith α] (hm : rows * cols < m.capacity) :
    Buffer.zeros? m rows cols = some (replicate rows cols (Arith.zero : α)).buffer := by
  have hcells : List.replicate (rows * cols) (Arith.zero : α) =
      (replicate rows cols (Arith.zero : α)).cells.toList := by
    refine eq_toList_cells _ List.length_replicate fun i j ↦ ?_
    rw [List.getElem?_replicate, if_pos (position_lt i j), replicate, get_ofFn]
  rw [Buffer.zeros?, Machine.room?_of_lt hm, Option.map_some, hcells]
  rfl

theorem toList_cells_zipWith {β : Type} (f : α → α → β) (g h : Grid α rows cols) :
    List.zipWith f g.cells.toList h.cells.toList = (g.zipWith f h).cells.toList := by
  refine eq_toList_cells _ (by simp) fun i j ↦ ?_
  rw [List.getElem?_zipWith, getElem?_toList_cells, getElem?_toList_cells, get_zipWith]

theorem toList_cells_map {β : Type} (f : α → β) (g : Grid α rows cols) :
    g.cells.toList.map f = (g.map f).cells.toList := by
  refine eq_toList_cells _ (by simp) fun i j ↦ ?_
  rw [List.getElem?_map, getElem?_toList_cells, get_map]
  rfl

/-- What transposing makes of a grid `out`, after the first `r` rows and the first `c` entries of
the next one. -/
def transposeOnto (g : Grid α rows cols) (out : Grid α cols rows) (r c : Nat) : Grid α cols rows :=
  ofFn fun i j ↦ if j.val < r ∨ j.val = r ∧ i.val < c then g.get j i else out.get i j

theorem loop_transpose_row (g : Grid α rows cols) (hm : rows * cols < m.sizes)
    (out : Grid α cols rows) (row : Fin rows) :
    loop 0 cols (fun out col ↦ (g.buffer.get? m row col).bind (out.set? m col row))
      (g.transposeOnto out row 0).buffer = some (g.transposeOnto out (row + 1) 0).buffer := by
  have hdone : g.transposeOnto out row cols = g.transposeOnto out (row + 1) 0 := by
    ext i j
    have hi := i.isLt
    rw [transposeOnto, transposeOnto, get_ofFn, get_ofFn]
    exact if_congr (by omega) rfl rfl
  have hm' : cols * rows < m.sizes := Nat.mul_comm rows cols ▸ hm
  refine loop_eq (Nat.zero_le cols) buffer (g.transposeOnto out row) rfl hdone fun k _ hk ↦ ?_
  rw [g.get?_buffer hm row ⟨k, hk⟩, Option.bind_some, set?_buffer _ hm' ⟨k, hk⟩ row]
  congr 2
  ext i j
  rw [get_update, transposeOnto, transposeOnto, get_ofFn, get_ofFn]
  split
  · next h =>
    obtain ⟨rfl, rfl⟩ := h
    rw [if_pos (.inr ⟨rfl, Nat.lt_succ_self k⟩)]
  · next h =>
    have hne : ¬ (i.val = k ∧ j.val = row.val) := fun he ↦ h ⟨Fin.ext he.1, Fin.ext he.2⟩
    exact if_congr (by omega) rfl rfl

/-- **Transposing onto any grid leaves the transpose**: every entry is written. -/
theorem transposeInto?_buffer (g : Grid α rows cols) (hm : rows * cols < m.sizes)
    (out : Grid α cols rows) : g.buffer.transposeInto? m out.buffer = some g.transpose.buffer := by
  have hinit : g.transposeOnto out 0 0 = out := by
    ext i j
    rw [transposeOnto, get_ofFn, if_neg (by omega)]
  have hdone : g.transposeOnto out rows 0 = g.transpose := by
    ext i j
    rw [transposeOnto, get_ofFn, get_transpose, if_pos (.inl j.isLt)]
  exact loop_eq (Nat.zero_le rows) buffer (g.transposeOnto out · 0) hinit hdone
    fun k _ hk ↦ g.loop_transpose_row hm out ⟨k, hk⟩

@[simp]
theorem transpose_transpose (g : Grid α rows cols) : g.transpose.transpose = g := by
  ext i j
  rw [get_transpose, get_transpose]

end Grid

namespace Table

/-- A position inside a table is found among its cells. -/
theorem cell?_eq_some (t : Table α) (i : Fin t.rows) (j : Fin t.cols) :
    t.cell? i j = some (t.grid.get i j) := by
  rw [cell?, ← Vector.getElem?_toList]
  exact t.grid.getElem?_toList_cells i j

variable [Arith α]

theorem add?_buffer (s t : Table α) :
    s.buffer.add? t.buffer = some ((s.add t).map buffer) := by
  obtain ⟨rows, cols, g⟩ := s
  obtain ⟨rows', cols', h⟩ := t
  by_cases hshape : rows' = rows ∧ cols' = cols
  · obtain ⟨rfl, rfl⟩ := hshape
    rw [add, dif_pos ⟨rfl, rfl⟩, Buffer.add?, if_neg (fun hne ↦ hne rfl)]
    show some (Except.ok (Buffer.mk rows' cols' (List.zipWith _ g.cells.toList h.cells.toList))) = _
    rw [Grid.toList_cells_zipWith]
    rfl
  · have hne : (rows, cols) ≠ (rows', cols') := by
      rintro heq
      obtain ⟨rfl, rfl⟩ := Prod.mk.inj heq
      exact hshape ⟨rfl, rfl⟩
    rw [add, dif_neg hshape, Buffer.add?]
    exact if_pos hne

theorem scale?_buffer (t : Table α) (x : α) :
    t.buffer.scale? x = some (.ok (t.scale x).buffer) := by
  show some (Except.ok (Buffer.mk t.rows t.cols (t.grid.cells.toList.map (· * x)))) = _
  rw [Grid.toList_cells_map]
  rfl

theorem transpose?_buffer (t : Table α) (hm : t.rows * t.cols < m.capacity) :
    t.buffer.transpose? m = some (.ok t.transpose.buffer) := by
  have hzeros : Buffer.zeros? m t.buffer.cols t.buffer.rows =
      some (Grid.replicate t.cols t.rows (Arith.zero : α)).buffer :=
    Grid.zeros?_eq (Nat.mul_comm t.rows t.cols ▸ hm)
  rw [Buffer.transpose?, hzeros, Option.bind_some]
  exact congrArg (Option.map Except.ok)
    (t.grid.transposeInto?_buffer (hm.trans_le m.capacity_le_sizes) _)

/-- **Rows become columns, entry by entry, and back again.** The transpose of any table, with zero
rows or columns too, has as many rows as the table has columns and the other way round, and the
entry in row `j` and column `i` is the one that the table has in row `i` and column `j`. The
transpose of the transpose is the table. So it comes out on every machine that has the cells in its
memory, and every cell is written: the loops leave the transpose whatever the cells held before. -/
theorem transpose_writes_all (t : Table α) :
    t.transpose.shape = (t.cols, t.rows) ∧
      (∀ i < t.rows, ∀ j < t.cols, ∃ x, t.cell? i j = some x ∧ t.transpose.cell? j i = some x) ∧
      t.transpose.transpose = t ∧
      ∀ m : Machine, t.rows * t.cols < m.capacity →
        t.buffer.transpose? m = some (.ok t.transpose.buffer) ∧
        (∀ out : Buffer α, out.WellFormed → (out.rows, out.cols) = (t.cols, t.rows) →
          t.buffer.transposeInto? m out = some t.transpose.buffer) ∧
        t.transpose.buffer.transpose? m = some (.ok t.buffer) := by
  have hback : t.transpose.transpose = t := by
    obtain ⟨rows, cols, g⟩ := t
    exact congrArg (Table.mk rows cols) g.transpose_transpose
  refine ⟨rfl, fun i hi j hj ↦ ?_, hback, fun m hm ↦ ⟨t.transpose?_buffer hm, ?_, ?_⟩⟩
  · refine ⟨t.grid.get ⟨i, hi⟩ ⟨j, hj⟩, t.cell?_eq_some ⟨i, hi⟩ ⟨j, hj⟩, ?_⟩
    rw [← t.grid.get_transpose ⟨j, hj⟩ ⟨i, hi⟩]
    exact t.transpose.cell?_eq_some ⟨j, hj⟩ ⟨i, hi⟩
  · intro out hout hshape
    obtain ⟨⟨rows, cols, g⟩, rfl⟩ := Buffer.wellFormed_iff.1 hout
    obtain ⟨rfl, rfl⟩ := Prod.mk.inj hshape
    exact t.grid.transposeInto?_buffer (hm.trans_le m.capacity_le_sizes) g
  · have hm' : t.transpose.rows * t.transpose.cols < m.capacity := Nat.mul_comm t.rows t.cols ▸ hm
    rw [t.transpose.transpose?_buffer hm', hback]

/-- Two rows of three entries, transposed onto cells that are not zero. -/
theorem transpose_writes_all_wide :
    let t : Table Float := ⟨2, 3, ⟨#v[1, 2, 3, 4, 5, 6]⟩⟩
    let out : Buffer Float := ⟨3, 2, [7, 7, 7, 7, 7, 7]⟩
    1 < t.rows ∧ 2 < t.cols ∧ out.WellFormed ∧ t.transpose.shape = (3, 2) ∧
      (∃ x, t.cell? 1 2 = some x ∧ t.transpose.cell? 2 1 = some x) ∧
      t.transpose.transpose = t ∧ t.rows * t.cols < (Machine.wide true).capacity ∧
      t.buffer.transpose? (.wide true) = some (.ok t.transpose.buffer) ∧
      t.buffer.transposeInto? (.wide true) out = some t.transpose.buffer := by
  intro t out
  have hm : t.rows * t.cols < (Machine.wide true).capacity := by decide
  obtain ⟨hshape, hentries, hback, hmachine⟩ := transpose_writes_all t
  obtain ⟨htranspose, hinto, -⟩ := hmachine (.wide true) hm
  exact ⟨by decide, by decide, rfl, hshape, hentries 1 (by decide) 2 (by decide), hback, hm,
    htranspose, hinto out rfl rfl⟩

end Table

end MatrixScript
