import MatrixScript.Proofs.Buffer

/-!
# Products in bands of rows

A product of buffers is computed row by row into a buffer of zeros, which is cut into rows. A large
one is cut into bands of several rows first, which are computed independently of each other, and
then each band into rows.

Which row belongs to some cells is worked out from the number of the band and the place in it. To
see that it is the right one, the numbers of the cells are cut in the same way as the cells
(`bandTasks`). The bands are of one height, and the last one may have fewer rows; next to each other
they have every row once, with the cells where it lies (`flatten_bandTasks`), and no row is in two
of them (`existsUnique_band`). So the result does not depend on the bands, and it is the product of
grids (`Grid.mul?_buffer`).

A product may have more cells than both factors together, so a machine that holds the factors need
not have room for it. Then there is no product: the machine refuses to go on, or it has got fewer
cells than the product has, and fills these at best (`Buffer.mul?_of_le`). `Table.Settles` puts the
two cases together (`Table.mul?_settles`).
-/

namespace MatrixScript

variable {α : Type} {rows inner cols : Nat} {m : Machine}

/-! ### Pieces of lists -/

theorem chunks_range' (k first count : Nat) :
    chunks k (List.range' first count) = (List.range ((count + k - 1) / k)).map fun i ↦
      List.range' (first + i * k) (min k (count - i * k)) := by
  simp only [chunks, List.length_range', List.drop_range', take_range', Nat.mul_one]

theorem chunks_map {β : Type} (f : β → α) (k : Nat) (l : List β) :
    chunks k (l.map f) = (chunks k l).map (List.map f) := by
  rw [chunks, chunks, List.map_map, List.length_map]
  refine List.map_congr_left fun i _ ↦ ?_
  rw [← List.map_drop, ← List.map_take]
  rfl

theorem length_flatten_chunks_le (k : Nat) (l : List α) :
    (chunks k l).flatten.length ≤ l.length := by
  rcases Nat.eq_zero_or_pos k with rfl | hk
  · simp [chunks]
  · have hcount : l.length ≤ (l.length + k - 1) / k * k := by
      rw [← Nat.not_lt, ← lt_ceil_iff hk]
      exact Nat.lt_irrefl _
    rw [chunks, flatten_pieces hcount]

/-- Working on pieces one by one gives no more than the pieces have, if this is so for each one. -/
theorem length_flatMap_le_of_mapM {β : Type} {cells : β → List α} {f : List α × Nat → Option β}
    {pieces : List (List α)} {filled : List β}
    (hf : ∀ p q, f p = some q → (cells q).length ≤ p.1.length)
    (h : pieces.zipIdx.mapM f = some filled) :
    (filled.flatMap cells).length ≤ pieces.flatten.length := by
  rw [mapM_eq_some_iff fun _ _ _ ↦ Iff.rfl] at h
  have hpieces : pieces.flatten = pieces.zipIdx.flatMap Prod.fst := by
    rw [List.flatMap_def, List.zipIdx_map_fst]
  rw [hpieces]
  generalize pieces.zipIdx = ps at h
  induction h with
  | nil => exact le_rfl
  | cons hhead _ ih =>
    simp only [List.flatMap_cons, List.length_append]
    exact Nat.add_le_add (hf _ _ hhead) ih

/-- Whole rows are cut into bands as the rows are. -/
theorem ceil_mul_right {height width : Nat} (hheight : 0 < height) (hwidth : 0 < width)
    (rows : Nat) :
    (rows * width + height * width - 1) / (height * width) = (rows + height - 1) / height := by
  refine eq_of_forall_lt_iff fun band ↦ ?_
  rw [lt_ceil_iff (Nat.mul_pos hheight hwidth), lt_ceil_iff hheight, ← Nat.mul_assoc]
  exact Nat.mul_lt_mul_right hwidth

/-! ### Who computes which row -/

/-- A row to be computed, with the numbers of the cells that it is written to. -/
structure RowTask where
  /-- The number of the row. -/
  row : Nat
  /-- The cells, from left to right. -/
  cells : List Nat

/-- The task of computing row `row` into the cells where it lies. -/
def RowTask.whole (width row : Nat) : RowTask :=
  ⟨row, List.range' (row * width) width⟩

/-- Cuts cells into rows of `width` cells, the first of which is row `first`. -/
def rowTasks (width first : Nat) (cells : List Nat) : List RowTask :=
  (chunks width cells).zipIdx.map fun p ↦ ⟨first + p.2, p.1⟩

/-- Cuts cells into bands of `height` rows, and these into rows. -/
def bandTasks (height width : Nat) (cells : List Nat) : List (List RowTask) :=
  (chunks (height * width) cells).zipIdx.map fun p ↦ rowTasks width (p.2 * height) p.1

/-- Cells of whole rows are cut into the rows. -/
theorem rowTasks_range' {width : Nat} (hwidth : 0 < width) (first count : Nat) :
    rowTasks width first (List.range' (first * width) (count * width)) =
      (List.range' first count).map (RowTask.whole width) := by
  have hcount : (count * width + width - 1) / width = count := by
    rw [Nat.add_sub_assoc hwidth, Nat.mul_comm, Nat.mul_add_div hwidth,
      Nat.div_eq_of_lt (by omega), Nat.add_zero]
  rw [rowTasks, chunks_range', hcount, zipIdx_map_range, List.map_map, List.range'_eq_map_range,
    List.map_map]
  refine List.map_congr_left fun i hi ↦ ?_
  have hcells : min width (count * width - i * width) = width := by
    rw [← Nat.sub_mul]
    exact Nat.min_eq_left (Nat.le_mul_of_pos_left width (Nat.sub_pos_of_lt (List.mem_range.1 hi)))
  show RowTask.mk (first + i) (List.range' (first * width + i * width) _) =
    RowTask.mk (first + i) (List.range' ((first + i) * width) width)
  rw [hcells, Nat.add_mul]

theorem rowTasks_range {width : Nat} (hwidth : 0 < width) (rows : Nat) :
    rowTasks width 0 (List.range (rows * width)) =
      (List.range rows).map (RowTask.whole width) := by
  have hall := rowTasks_range' hwidth 0 rows
  rwa [Nat.zero_mul, ← List.range_eq_range', ← List.range_eq_range'] at hall

/-- **The rows of each band**: from its first one on, `height` of them or as many as are left. -/
theorem bandTasks_range {height width : Nat} (hheight : 0 < height) (hwidth : 0 < width)
    (rows : Nat) :
    bandTasks height width (List.range (rows * width)) =
      (List.range ((rows + height - 1) / height)).map fun band ↦
        (List.range' (band * height) (min height (rows - band * height))).map
          (RowTask.whole width) := by
  rw [bandTasks, List.range_eq_range', chunks_range', ceil_mul_right hheight hwidth,
    zipIdx_map_range, List.map_map]
  refine List.map_congr_left fun band _ ↦ ?_
  show rowTasks width (band * height) (List.range' (0 + band * (height * width))
    (min (height * width) (rows * width - band * (height * width)))) = _
  rw [Nat.zero_add, ← Nat.mul_assoc, ← Nat.sub_mul, Nat.mul_min_mul_right, rowTasks_range' hwidth]

/-- **Each row is written once**: next to each other, the bands have all rows in their order, each
with the cells where it lies. -/
theorem flatten_bandTasks {height width : Nat} (hheight : 0 < height) (hwidth : 0 < width)
    (rows : Nat) :
    (bandTasks height width (List.range (rows * width))).flatten =
      (List.range rows).map (RowTask.whole width) := by
  have hpiece : ∀ band, (List.range' (band * height) (min height (rows - band * height))).map
      (RowTask.whole width) =
        (((List.range rows).map (RowTask.whole width)).drop (band * height)).take height := by
    intro band
    rw [← List.map_drop, ← List.map_take, List.range_eq_range', List.drop_range', take_range',
      Nat.zero_add, Nat.mul_one]
  rw [bandTasks_range hheight hwidth]
  simp only [hpiece]
  refine flatten_pieces ?_
  rw [List.length_map, List.length_range, ← Nat.not_lt, ← lt_ceil_iff hheight]
  exact Nat.lt_irrefl _

theorem getElem?_bandTasks_eq_some_iff {height width : Nat} (hheight : 0 < height)
    (hwidth : 0 < width) {rows band : Nat} {tasks : List RowTask} :
    (bandTasks height width (List.range (rows * width)))[band]? = some tasks ↔
      band * height < rows ∧
        (List.range' (band * height) (min height (rows - band * height))).map
          (RowTask.whole width) = tasks := by
  rw [bandTasks_range hheight hwidth, List.getElem?_map, ← lt_ceil_iff hheight]
  by_cases h : band < (rows + height - 1) / height
  · rw [List.getElem?_range h, Option.map_some, Option.some_inj]
    exact (and_iff_right h).symm
  · rw [List.getElem?_eq_none (by simpa using h), Option.map_none]
    exact ⟨fun hnone ↦ absurd hnone.symm (Option.some_ne_none tasks), fun hband ↦ absurd hband.1 h⟩

/-- **Each row is in one band**, whose number is found by division. -/
theorem existsUnique_band {height width : Nat} (hheight : 0 < height) (hwidth : 0 < width)
    {rows row : Nat} (hrow : row < rows) :
    ∃! band : Nat, ∃ tasks : List RowTask,
      (bandTasks height width (List.range (rows * width)))[band]? = some tasks ∧
        row ∈ tasks.map RowTask.row := by
  have hmem : ∀ band, row ∈ ((List.range' (band * height) (min height (rows - band * height))).map
      (RowTask.whole width)).map RowTask.row ↔ band = row / height := by
    intro band
    have hid : RowTask.row ∘ RowTask.whole width = id := rfl
    rw [List.map_map, hid, List.map_id, List.mem_range'_1, eq_comm, Nat.div_eq_iff hheight]
    generalize band * height = first
    omega
  refine ⟨row / height, ⟨_, (getElem?_bandTasks_eq_some_iff hheight hwidth).2 ⟨?_, rfl⟩,
    (hmem _).2 rfl⟩, ?_⟩
  · exact lt_of_le_of_lt (Nat.div_mul_le_self row height) hrow
  · rintro band ⟨tasks, htasks, hrow⟩
    obtain ⟨-, rfl⟩ := (getElem?_bandTasks_eq_some_iff hheight hwidth).1 htasks
    exact (hmem band).1 hrow

/-! ### Rows of a product -/

namespace Buffer

variable [Arith α]

/-- The sum of the products of the entries of a row with those of column `col`. -/
def dot? (m : Machine) (lhs : List α) (b : Buffer α) (col : Nat) : Option α :=
  loop 0 lhs.length (fun acc k ↦
    lhs[k]?.bind fun x ↦ (b.get? m k col).map fun y ↦ acc + x * y) Arith.sumStart

/-- The entries of row `row` of a product, as many as there are cells for them. -/
def fillRow? (m : Machine) (a b : Buffer α) (row : Nat) (cells : List α) : Option (List α) :=
  (a.row? m row).bind fun lhs ↦ (List.range cells.length).mapM (dot? m lhs b)

/-- The rows of a product from row `first` on, as many as there are cells for them. -/
def fillRows? (m : Machine) (a b : Buffer α) (first : Nat) (cells : List α) :
    Option (List (List α)) :=
  (chunks b.cols cells).zipIdx.mapM fun p ↦
    (m.size? (first + p.2)).bind fun row ↦ fillRow? m a b row p.1

/-- The rows of a product in bands of `height` rows, for which `length` cells are set apart. -/
def fillBands? (m : Machine) (a b : Buffer α) (height length : Nat) (cells : List α) :
    Option (List (List α)) :=
  ((chunks length cells).zipIdx.mapM fun p ↦
    (m.size? (p.2 * height)).bind fun first ↦ fillRows? m a b first p.1).map List.flatten

/-- The number of cells from which on a product is computed in bands. -/
def bandThreshold : Nat :=
  64 * 64

/-- The rows of a product. Many cells are filled in bands, not more than there are workers. A band
without cells is refused. -/
def fill? (m : Machine) (a b : Buffer α) (available : Nat) (cells : List α) :
    Option (List (List α)) :=
  if cells.length < bandThreshold ∨ a.rows < 2 then fillRows? m a b 0 cells
  else
    let workers := min available a.rows
    let height := (a.rows + workers - 1) / workers
    (m.size? (height * b.cols)).bind fun length ↦
      if length = 0 then none else fillBands? m a b height length cells

/-- The product of two buffers. -/
def mul? (m : Machine) (a : Buffer α) (available : Nat) (b : Buffer α) :
    Option (Except Table.Error (Buffer α)) :=
  if a.cols ≠ b.rows then
    some (.error (.mismatch .multiplication (a.rows, a.cols) (b.rows, b.cols)))
  else
    (zeros? m a.rows b.cols).bind fun out ↦
      if out.data.isEmpty then some (.ok out)
      else
        (fill? m a b available out.data).map fun filled ↦
          .ok { out with data := filled.flatten }

/-! ### Cells without room -/

variable {a b : Buffer α} {cells : List α}

theorem length_fillRow? {row : Nat} {filled : List α}
    (h : fillRow? m a b row cells = some filled) : filled.length = cells.length := by
  obtain ⟨lhs, -, hfilled⟩ := Option.bind_eq_some_iff.1 h
  rw [mapM_eq_some_iff fun _ _ _ ↦ Iff.rfl] at hfilled
  rw [← hfilled.length_eq, List.length_range]

theorem length_fillRows?_le {first : Nat} {filled : List (List α)}
    (h : fillRows? m a b first cells = some filled) : filled.flatten.length ≤ cells.length := by
  rw [← List.flatMap_id]
  refine (length_flatMap_le_of_mapM (fun p q hq ↦ ?_) h).trans (length_flatten_chunks_le _ cells)
  obtain ⟨row, -, hrow⟩ := Option.bind_eq_some_iff.1 hq
  exact (length_fillRow? hrow).le

theorem length_fillBands?_le {height length : Nat} {filled : List (List α)}
    (h : fillBands? m a b height length cells = some filled) :
    filled.flatten.length ≤ cells.length := by
  obtain ⟨bands, hbands, rfl⟩ := Option.map_eq_some_iff.1 h
  rw [List.flatten_flatten, ← List.flatMap_def]
  refine (length_flatMap_le_of_mapM (fun p q hq ↦ ?_) hbands).trans
    (length_flatten_chunks_le length cells)
  obtain ⟨first, -, hrows⟩ := Option.bind_eq_some_iff.1 hq
  exact length_fillRows?_le hrows

theorem length_fill?_le {available : Nat} {filled : List (List α)}
    (h : fill? m a b available cells = some filled) : filled.flatten.length ≤ cells.length := by
  rw [fill?] at h
  split at h
  · exact length_fillRows?_le h
  · obtain ⟨length, -, hbands⟩ := Option.bind_eq_some_iff.1 h
    split at hbands
    · cases hbands
    · exact length_fillBands?_le hbands

/-- **Without room there is no product.** A machine does not go on, or it reduces sizes and comes
out with fewer cells than the product has. -/
theorem mul?_of_le (hshape : a.cols = b.rows) (hm : m.capacity ≤ a.rows * b.cols)
    (available : Nat) :
    a.mul? m available b = none ∨ m.wraps = true ∧ ∃ data : List α,
      a.mul? m available b = some (.ok ⟨a.rows, b.cols, data⟩) ∧
        data.length < a.rows * b.cols ∧ data.length < m.capacity := by
  rw [mul?, if_neg fun hne ↦ hne hshape, zeros?]
  rcases Machine.room?_of_le hm with hnone | ⟨hwraps, count, hcount, hsome⟩
  · rw [hnone]
    exact .inl rfl
  have hcapacity := Machine.lt_capacity_of_room? hsome
  rw [hsome, Option.map_some, Option.bind_some]
  split
  · refine .inr ⟨hwraps, List.replicate count Arith.zero, rfl, ?_⟩
    rw [List.length_replicate]
    exact ⟨hcount, hcapacity⟩
  · rcases hfill : fill? m a b available (List.replicate count Arith.zero) with _ | filled
    · exact .inl rfl
    · have hle := length_fill?_le hfill
      rw [List.length_replicate] at hle
      exact .inr ⟨hwraps, filled.flatten, rfl, hle.trans_lt hcount, hle.trans_lt hcapacity⟩

/-- What comes out of a product without room is not well formed. -/
theorem not_wellFormed_of_mul? (hshape : a.cols = b.rows) (hm : m.capacity ≤ a.rows * b.cols)
    (available : Nat) :
    a.mul? m available b = none ∨ m.wraps = true ∧ ∃ out : Buffer α,
      a.mul? m available b = some (.ok out) ∧ ¬ out.WellFormed :=
  (mul?_of_le hshape hm available).imp_right fun ⟨hwraps, data, hmul, hlt, _⟩ ↦
    ⟨hwraps, ⟨a.rows, b.cols, data⟩, hmul, hlt.ne⟩

/-! ### Cells for all rows -/

/-- Cutting cells into rows comes to cutting their numbers. -/
theorem fillRows?_map (a b : Buffer α) (first : Nat) (cells : List Nat) (f : Nat → α) :
    fillRows? m a b first (cells.map f) = (rowTasks b.cols first cells).mapM fun task ↦
      (m.size? task.row).bind fun row ↦ fillRow? m a b row (task.cells.map f) := by
  rw [fillRows?, rowTasks, chunks_map, List.zipIdx_map, List.mapM_map, List.mapM_map]
  rfl

/-- Cutting cells into bands comes to cutting their numbers, if the numbers of the first rows are
sizes. -/
theorem fillBands?_map (a b : Buffer α) (height : Nat) (cells : List Nat) (f : Nat → α)
    (hfirst : ∀ band < (chunks (height * b.cols) cells).length, band * height < m.sizes) :
    fillBands? m a b height (height * b.cols) (cells.map f) =
      ((bandTasks height b.cols cells).mapM fun tasks : List RowTask ↦
        tasks.mapM fun task ↦ (m.size? task.row).bind fun row ↦
          fillRow? m a b row (task.cells.map f)).map List.flatten := by
  rw [fillBands?, bandTasks, chunks_map, List.zipIdx_map, List.mapM_map, List.mapM_map]
  refine congrArg (Option.map List.flatten) (mapM_congr fun p hp ↦ ?_)
  obtain ⟨-, hband, -⟩ := List.mem_zipIdx hp
  show (m.size? (p.2 * height)).bind _ = _
  rw [Machine.size?_of_lt (hfirst p.2 (by omega)), Option.bind_some]
  exact fillRows?_map a b _ p.1 f

end Buffer

namespace Grid

/-- The rows that the tasks for all rows ask for are the rows. -/
theorem map_getD_toRows (p : Grid α rows cols) :
    ((List.range rows).map (RowTask.whole cols)).map (fun task ↦ p.toRows.getD task.row []) =
      p.toRows := by
  refine List.ext_getElem (by simp [toRows]) fun i hi hi' ↦ ?_
  simp [RowTask.whole, hi']

variable [Arith α] (g : Grid α rows inner) (h : Grid α inner cols)
  (hg : rows * inner < m.sizes) (hh : inner * cols < m.sizes)

include hh in
theorem dot?_buffer (i : Fin rows) (j : Fin cols) :
    Buffer.dot? m (g.row i) h.buffer j = some (g.dot h i j) := by
  have hlength : (g.row i).length = inner := by simp [Grid.row]
  have hall : (List.finRange inner).filter (0 ≤ ·.val) = List.finRange inner := by simp
  rw [Buffer.dot?, hlength, dot, ← hall]
  refine loop_eq_foldl id (fun acc l _ ↦ ?_) Arith.sumStart
  have hentry : (g.row i)[l.val]? = some (g.get i l) := by simp [Grid.row]
  rw [hentry, Option.bind_some, h.get?_buffer hh l j]
  rfl

include hg hh

theorem fillRow?_buffer (i : Fin rows) {cells : List α} (hcells : cells.length = cols) :
    Buffer.fillRow? m g.buffer h.buffer i cells = some ((g.mul h).row i) := by
  have hdot : ∀ j ∈ List.finRange cols,
      Buffer.dot? m (g.row i) h.buffer j.val = some ((g.mul h).get i j) := by
    intro j _
    rw [g.dot?_buffer h hh, get_mul]
  rw [Buffer.fillRow?, g.row?_buffer hg, Option.bind_some, hcells, ← List.map_coe_finRange_eq_range,
    List.mapM_map]
  exact mapM_eq_some_map hdot

/-- The row that a task asks for is computed. -/
theorem fillRow?_whole (hrows : rows ≤ m.sizes) {task : RowTask}
    (htask : task ∈ (List.range rows).map (RowTask.whole cols)) (f : Nat → α) :
    ((m.size? task.row).bind fun row ↦
      Buffer.fillRow? m g.buffer h.buffer row (task.cells.map f)) =
        some ((g.mul h).toRows.getD task.row []) := by
  obtain ⟨i, hi, rfl⟩ := List.mem_map.1 htask
  have hlt : i < rows := List.mem_range.1 hi
  have hrow : (g.mul h).toRows.getD i [] = (g.mul h).row ⟨i, hlt⟩ := by simp [toRows, hlt]
  show ((m.size? i).bind fun row ↦ Buffer.fillRow? m g.buffer h.buffer row
    ((List.range' (i * cols) cols).map f)) = some ((g.mul h).toRows.getD i [])
  rw [Machine.size?_of_lt (hlt.trans_le hrows), Option.bind_some, hrow]
  exact g.fillRow?_buffer h hg hh ⟨i, hlt⟩ (by simp)

/-- Cells for all rows are filled with the rows. -/
theorem fillRows?_buffer (hrows : rows ≤ m.sizes) (hcols : 0 < cols) (x : α) :
    Buffer.fillRows? m g.buffer h.buffer 0 (List.replicate (rows * cols) x) =
      some (g.mul h).toRows := by
  have hcells : List.replicate (rows * cols) x = (List.range (rows * cols)).map fun _ ↦ x := by
    simp
  have htasks : rowTasks h.buffer.cols 0 (List.range (rows * cols)) =
      (List.range rows).map (RowTask.whole cols) := rowTasks_range hcols rows
  rw [hcells, Buffer.fillRows?_map, htasks,
    mapM_eq_some_map fun task htask ↦ g.fillRow?_whole h hg hh hrows htask _, map_getD_toRows]

/-- **The bands are the rows**, whatever their height. -/
theorem fillBands?_buffer (hrows : rows ≤ m.sizes) (hcols : 0 < cols) {height : Nat}
    (hheight : 0 < height) (x : α) :
    Buffer.fillBands? m g.buffer h.buffer height (height * cols) (List.replicate (rows * cols) x) =
      some (g.mul h).toRows := by
  have hcells : List.replicate (rows * cols) x = (List.range (rows * cols)).map fun _ ↦ x := by
    simp
  have hfirst : ∀ band < (chunks (height * cols) (List.range (rows * cols))).length,
      band * height < m.sizes := by
    intro band hband
    rw [List.range_eq_range', chunks_range', List.length_map, List.length_range,
      ceil_mul_right hheight hcols, lt_ceil_iff hheight] at hband
    exact hband.trans_le hrows
  have hflatten : (bandTasks height h.buffer.cols (List.range (rows * cols))).flatten =
      (List.range rows).map (RowTask.whole cols) := flatten_bandTasks hheight hcols rows
  have hband : ∀ tasks ∈ bandTasks height h.buffer.cols (List.range (rows * cols)),
      (tasks.mapM fun task ↦ (m.size? task.row).bind fun row ↦
        Buffer.fillRow? m g.buffer h.buffer row (task.cells.map fun _ ↦ x)) =
          some (tasks.map fun task ↦ (g.mul h).toRows.getD task.row []) := by
    intro tasks htasks
    refine mapM_eq_some_map fun task htask ↦ g.fillRow?_whole h hg hh hrows ?_ _
    rw [← hflatten]
    exact List.mem_flatten_of_mem htasks htask
  have hbands := Buffer.fillBands?_map g.buffer h.buffer height (List.range (rows * cols))
    (fun _ ↦ x) hfirst
  rw [hcells]
  refine hbands.trans ?_
  rw [mapM_eq_some_map hband, Option.map_some, ← List.map_flatten, hflatten, map_getD_toRows]

/-- Many or few, cells for all rows are filled with the rows. -/
theorem fill?_buffer (hsize : rows * cols < m.sizes) (hpos : 0 < rows * cols) {available : Nat}
    (havailable : 0 < available) (x : α) :
    Buffer.fill? m g.buffer h.buffer available (List.replicate (rows * cols) x) =
      some (g.mul h).toRows := by
  have hrows : 0 < rows := Nat.pos_of_mul_pos_right hpos
  have hcols : 0 < cols := Nat.pos_of_mul_pos_left hpos
  have hle : rows ≤ m.sizes := (Nat.le_mul_of_pos_right rows hcols).trans hsize.le
  rw [Buffer.fill?]
  split
  · exact g.fillRows?_buffer h hg hh hle hcols x
  · -- a band has a row, and no more rows than there are
    have hheight : 0 < (rows + min available rows - 1) / min available rows := by
      rw [lt_ceil_iff (by omega)]
      omega
    have hmost : (rows + min available rows - 1) / min available rows ≤ rows := by
      rw [← Nat.not_lt, lt_ceil_iff (by omega), Nat.not_lt]
      exact Nat.le_mul_of_pos_right rows (by omega)
    have hlength : (rows + min available rows - 1) / min available rows * cols < m.sizes :=
      (Nat.mul_le_mul_right cols hmost).trans_lt hsize
    show ((m.size? ((rows + min available rows - 1) / min available rows * cols)).bind fun length ↦
      if length = 0 then none else Buffer.fillBands? m g.buffer h.buffer _ length _) = _
    rw [Machine.size?_of_lt hlength, Option.bind_some, if_neg (Nat.mul_pos hheight hcols).ne']
    exact g.fillBands?_buffer h hg hh hle hcols hheight x

/-- **The product of buffers is the product of grids**, however many workers there are, if there is
room for it. -/
theorem mul?_buffer (hroom : rows * cols < m.capacity) {available : Nat}
    (havailable : 0 < available) :
    g.buffer.mul? m available h.buffer = some (.ok (g.mul h).buffer) := by
  have hshape : ¬ g.buffer.cols ≠ h.buffer.rows := fun hne ↦ hne rfl
  have hlength := (g.mul h).cells.length_toList
  rw [Buffer.mul?, if_neg hshape, Buffer.zeros?]
  show ((m.room? (rows * cols)).map fun count ↦
    Buffer.mk rows cols (List.replicate count (Arith.zero : α))).bind _ = _
  rw [Machine.room?_of_lt hroom, Option.map_some, Option.bind_some]
  show (if (List.replicate (rows * cols) Arith.zero).isEmpty then
      some (Except.ok (Buffer.mk rows cols (List.replicate (rows * cols) Arith.zero)))
    else (Buffer.fill? m g.buffer h.buffer available
      (List.replicate (rows * cols) Arith.zero)).map
        fun filled ↦ Except.ok (Buffer.mk rows cols filled.flatten)) = _
  rcases Nat.eq_zero_or_pos (rows * cols) with hzero | hpos
  · have hcells : (g.mul h).cells.toList = [] := by
      rw [← List.length_eq_zero_iff, hlength, hzero]
    have hbuffer : (g.mul h).buffer = Buffer.mk rows cols [] :=
      congrArg (Buffer.mk rows cols) hcells
    rw [hbuffer, hzero]
    rfl
  · have hne : ¬ (List.replicate (rows * cols) (Arith.zero : α)).isEmpty := by
      simpa using Nat.pos_iff_ne_zero.1 hpos
    have hsize : rows * cols < m.sizes := hroom.trans_le m.capacity_le_sizes
    rw [if_neg hne, g.fill?_buffer h hg hh hsize hpos havailable, Option.map_some, flatten_toRows]
    rfl

end Grid

namespace Table

/-- What a computation on a machine comes to, if `result` is what it should: the buffer of the
result; or if there is none on this machine, nothing at all or, where sizes are reduced, a buffer
that is not well formed. -/
def Settles (m : Machine) (computed : Option (Except Error (Buffer α))) :
    Option (Except Error (Table α)) → Prop
  | some result => computed = some (result.map buffer)
  | none => computed = none ∨
      m.wraps = true ∧ ∃ b : Buffer α, computed = some (.ok b) ∧ ¬ b.WellFormed

/-- **The product of buffers is the product of tables**, however many workers there are and whether
there is room for it or not. -/
theorem mul?_settles [Arith α] {s t : Table α} (hs : m.Holds s.rows s.cols)
    (ht : m.Holds t.rows t.cols) {available : Nat} (havailable : 0 < available) :
    Settles m (s.buffer.mul? m available t.buffer) (s.mulOn? m t) := by
  obtain ⟨rows, inner, g⟩ := s
  obtain ⟨inner', cols, h⟩ := t
  rw [mulOn?]
  split
  · next hroom => exact Buffer.not_wellFormed_of_mul? hroom.1 hroom.2 available
  · next hroom =>
    by_cases hshape : inner = inner'
    · subst hshape
      have hlt : rows * cols < m.capacity := Nat.not_le.1 fun hle ↦ hroom ⟨rfl, hle⟩
      show _ = some (((⟨rows, inner, g⟩ : Table α).mul ⟨inner, cols, h⟩).map buffer)
      rw [mul, dif_pos rfl]
      exact g.mul?_buffer h (hs.cells_lt.trans_le m.capacity_le_sizes)
        (ht.cells_lt.trans_le m.capacity_le_sizes) hlt havailable
    · have hne : (Table.buffer ⟨rows, inner, g⟩).cols ≠ (Table.buffer ⟨inner', cols, h⟩).rows :=
        hshape
      show _ = some (((⟨rows, inner, g⟩ : Table α).mul ⟨inner', cols, h⟩).map buffer)
      rw [mul, dif_neg fun heq ↦ hshape heq.symm, Buffer.mul?, if_pos hne]
      rfl

end Table

end MatrixScript
