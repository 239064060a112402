import MatrixScript.Proofs.Bands

/-!
# Elimination on buffers

The row operations of elimination, the rounds made of them and the three uses of rounds: forward
elimination, the determinant and, without any rounds of its own, back substitution.

A row operation is a loop along a row, and clearing a column is a loop of row operations. A search
is a loop as well, and what it has found so far is a fold over the rows that it has passed
(`pivotRow?_buffer`). After that nothing looks at single cells any more: a round on a buffer is the
round on the grid (`eliminate?_buffer`), and the computations follow the recursion on the number of
rounds that the grids have.

Back substitution and solving ask for one more column than there are rows. Among the matrices that a
machine holds there are some for which this is no size: they have no columns, so this many rows take
no memory. Nothing comes of them (`substitute?_of_le`, `solve?_of_le`), on machines that reduce
sizes either, where a matrix without columns passes for an augmented one at first.
-/

namespace MatrixScript

variable {α : Type} {rows cols n : Nat} {m : Machine}

/-! ### Row operations -/

namespace Buffer

/-- Exchanges two rows, entry by entry. -/
def swapRows? (m : Machine) (b : Buffer α) (top source : Nat) : Option (Buffer α) :=
  if top = source then some b
  else
    loop 0 b.cols (fun b col ↦ do
      let x ← b.get? m top col
      let y ← b.get? m source col
      (← b.set? m top col y).set? m source col x) b

variable [Arith α]

/-- Subtracts a multiple of row `source` from row `target`, from column `first` on. -/
def subtractRow? (m : Machine) (b : Buffer α) (target source : Nat) (factor : α) (first : Nat) :
    Option (Buffer α) :=
  loop first b.cols (fun b col ↦ do
    let value ← b.get? m source col
    let cell ← b.get? m target col
    b.set? m target col (cell - factor * value)) b

/-- Cancels the entries below the pivot in row and column `col`. -/
def clearBelow? (m : Machine) (b : Buffer α) (col : Nat) (pivot : α) : Option (Buffer α) :=
  loop (col + 1) b.rows (fun b row ↦ do
    let x ← b.get? m row col
    b.subtractRow? m row col (x / pivot) col) b

end Buffer

namespace Grid

variable (g : Grid α rows cols) (hm : rows * cols < m.sizes)

/-- The grid with two rows exchanged in its first columns. -/
def swapRowsTo (top source : Fin rows) (k : Nat) : Grid α rows cols :=
  ofFn fun i j ↦ if j.val < k then (g.swapRows top source).get i j else g.get i j

include hm in
theorem swapRows?_buffer (top source : Fin rows) :
    g.buffer.swapRows? m top source = some (g.swapRows top source).buffer := by
  rw [Buffer.swapRows?]
  split
  · next h =>
    obtain rfl := Fin.ext h
    rw [swapRows_self]
  · next h =>
    have hne : source ≠ top := fun heq ↦ h (congrArg Fin.val heq).symm
    have hinit : g.swapRowsTo top source 0 = g := by
      ext i j
      rw [swapRowsTo, get_ofFn, if_neg (Nat.not_lt_zero _)]
    have hdone : g.swapRowsTo top source cols = g.swapRows top source := by
      ext i j
      rw [swapRowsTo, get_ofFn, if_pos j.isLt]
    refine loop_eq (Nat.zero_le cols) buffer (g.swapRowsTo top source) hinit hdone
      fun k _ hk ↦ ?_
    rw [get?_buffer _ hm top ⟨k, hk⟩, Option.bind_eq_bind, Option.bind_some,
      get?_buffer _ hm source ⟨k, hk⟩, Option.bind_eq_bind, Option.bind_some,
      set?_buffer _ hm top ⟨k, hk⟩, Option.bind_some, set?_buffer _ hm source ⟨k, hk⟩]
    congr 2
    ext i j
    simp only [get_update, swapRowsTo, get_ofFn, get_swapRows, Nat.lt_irrefl, if_false]
    by_cases hj : j = ⟨k, hk⟩
    · subst hj
      simp only [and_true, Nat.lt_succ_self, if_true]
      rcases eq_or_ne i source with rfl | hsource
      · rw [if_pos rfl, if_neg hne, if_pos rfl]
      · rw [if_neg hsource, if_neg hsource, if_neg (Nat.lt_irrefl k)]
        split
        · rfl
        · rfl
    · have hval : j.val ≠ k := fun heq ↦ hj (Fin.ext heq)
      simp only [hj, and_false, if_false]
      exact if_congr (by omega) rfl rfl

variable [Arith α]

/-- The grid with a multiple of a row subtracted from another one in columns up to `k`. -/
def subtractRowTo (target source : Fin rows) (factor : α) (first : Fin cols) (k : Nat) :
    Grid α rows cols :=
  ofFn fun i j ↦
    if i = target ∧ first ≤ j ∧ j.val < k then g.get i j - factor * g.get source j else g.get i j

include hm in
theorem subtractRow?_buffer {target source : Fin rows} (hne : source ≠ target) (factor : α)
    (first : Fin cols) :
    g.buffer.subtractRow? m target source factor first =
      some (g.subtractRowTo target source factor first cols).buffer := by
  have hinit : g.subtractRowTo target source factor first first = g := by
    ext i j
    rw [subtractRowTo, get_ofFn, if_neg (by omega)]
  refine loop_eq first.isLt.le buffer (g.subtractRowTo target source factor first) hinit rfl
    fun k hfirst hk ↦ ?_
  rw [get?_buffer _ hm source ⟨k, hk⟩, Option.bind_eq_bind, Option.bind_some,
    get?_buffer _ hm target ⟨k, hk⟩, Option.bind_some, set?_buffer _ hm target ⟨k, hk⟩]
  have hsource : (g.subtractRowTo target source factor first k).get source ⟨k, hk⟩ =
      g.get source ⟨k, hk⟩ := by
    rw [subtractRowTo, get_ofFn, if_neg fun h ↦ hne h.1]
  have htarget : (g.subtractRowTo target source factor first k).get target ⟨k, hk⟩ =
      g.get target ⟨k, hk⟩ := by
    rw [subtractRowTo, get_ofFn, if_neg fun h ↦ Nat.lt_irrefl k h.2.2]
  rw [hsource, htarget]
  congr 2
  ext i j
  rw [get_update, subtractRowTo, subtractRowTo, get_ofFn, get_ofFn]
  split
  · next h =>
    obtain ⟨rfl, rfl⟩ := h
    rw [if_pos ⟨rfl, hfirst, Nat.lt_succ_self k⟩]
  · next h =>
    have hval : i = target → j.val ≠ k := fun hi heq ↦ h ⟨hi, Fin.ext heq⟩
    refine if_congr ⟨fun hc ↦ ⟨hc.1, hc.2.1, by omega⟩, fun hc ↦ ⟨hc.1, hc.2.1, ?_⟩⟩ rfl rfl
    have hne := hval hc.1
    omega

/-- The grid with a column cleared below the pivot in rows up to `k`. -/
def clearWithTo (pivot : α) (top : Fin rows) (col : Fin cols) (k : Nat) : Grid α rows cols :=
  ofFn fun i j ↦ if i.val < k then (g.clearWith pivot top col).get i j else g.get i j

include hm in
theorem clearBelow?_buffer (pivot : α) {top : Fin rows} {col : Fin cols}
    (htop : top.val = col.val) :
    g.buffer.clearBelow? m col pivot = some (g.clearWith pivot top col).buffer := by
  have hinit : g.clearWithTo pivot top col (col.val + 1) = g := by
    ext i j
    rw [clearWithTo, get_ofFn, get_clearWith]
    split
    · next hi => rw [if_neg fun hc ↦ by omega]
    · rfl
  have hdone : g.clearWithTo pivot top col rows = g.clearWith pivot top col := by
    ext i j
    rw [clearWithTo, get_ofFn, if_pos i.isLt]
  have hle : col.val + 1 ≤ rows := htop ▸ top.isLt
  refine loop_eq hle buffer (g.clearWithTo pivot top col) hinit hdone fun k hfirst hk ↦ ?_
  have hbelow : top < (⟨k, hk⟩ : Fin rows) := by
    show top.val < k
    omega
  have hsource : ∀ j, (g.clearWithTo pivot top col k).get top j = g.get top j := by
    intro j
    have hrow : (g.clearWith pivot top col).get top j = g.get top j := by
      rw [get_clearWith, if_neg fun h ↦ lt_irrefl top h.1]
    rw [clearWithTo, get_ofFn, hrow, ite_self]
  have htarget : ∀ j, (g.clearWithTo pivot top col k).get ⟨k, hk⟩ j = g.get ⟨k, hk⟩ j := by
    intro j
    rw [clearWithTo, get_ofFn, if_neg (Nat.lt_irrefl k)]
  have hsubtract := (g.clearWithTo pivot top col k).subtractRow?_buffer hm hbelow.ne
    (g.get ⟨k, hk⟩ col / pivot) col
  rw [htop] at hsubtract
  rw [get?_buffer _ hm ⟨k, hk⟩ col, Option.bind_eq_bind, Option.bind_some, htarget]
  refine hsubtract.trans ?_
  congr 2
  ext i j
  rw [subtractRowTo, get_ofFn, hsource]
  rcases eq_or_ne i ⟨k, hk⟩ with rfl | hi
  · rw [htarget, clearWithTo, get_ofFn, if_pos (Nat.lt_succ_self k), get_clearWith]
    exact if_congr ⟨fun h ↦ ⟨hbelow, h.2.1⟩, fun h ↦ ⟨rfl, h.2, j.isLt⟩⟩ rfl rfl
  · have hne : i.val ≠ k := fun heq ↦ hi (Fin.ext heq)
    rw [if_neg fun h ↦ hi h.1, clearWithTo, clearWithTo, get_ofFn, get_ofFn]
    exact if_congr (by omega) rfl rfl

end Grid

/-! ### Searching for pivots -/

namespace Buffer

variable [Arith α]

/-- The one of two rows that has the entry of greater magnitude in column `col`, the second one if
they are equal. -/
def better? (m : Machine) (b : Buffer α) (col best i : Nat) : Option Nat := do
  let x ← b.get? m best col
  let y ← b.get? m i col
  return if Arith.ranksAtMost (Arith.abs x) (Arith.abs y) then i else best

/-- The row at or below `col` with the entry of greatest magnitude in column `col`, the lowest one
if there are several. -/
def pivotRow? (m : Machine) (b : Buffer α) (col : Nat) : Option Nat :=
  loop (col + 1) b.rows (b.better? m col) col

/-- The magnitude up to which a pivot in the first `width` columns counts as zero. The cells are cut
into rows, and each row is cut after its first columns. -/
def threshold? (b : Buffer α) (width : Nat) : Option α := do
  let parts ← (chunks (max b.cols 1) b.data).mapM (Table.slice? 0 width)
  return parts.flatten.foldl (fun acc x ↦ Grid.larger acc (Arith.abs x)) Arith.zero *
    Arith.tolerance

end Buffer

namespace Grid

variable [Arith α] (g : Grid α rows cols)

theorem pivotRow?_buffer (hm : rows * cols < m.sizes) {top : Fin rows} {col : Fin cols}
    (htop : top.val = col.val) :
    g.buffer.pivotRow? m col = some (g.pivotRow top col).val := by
  have hrows : (List.finRange rows).filter (top < ·) =
      (List.finRange rows).filter (col.val + 1 ≤ ·.val) := by
    refine List.filter_congr fun i _ ↦ ?_
    rw [decide_eq_decide, ← htop]
    rfl
  have hloop : loop (col.val + 1) rows (g.buffer.better? m col) top.val =
      some (g.pivotRow top col).val := by
    rw [pivotRow, hrows]
    refine loop_eq_foldl Fin.val (fun best i _ ↦ ?_) top
    rw [Buffer.better?, g.get?_buffer hm, g.get?_buffer hm, apply_ite Fin.val]
    rfl
  rw [htop] at hloop
  exact hloop

theorem threshold?_buffer {width : Nat} (hwidth : width ≤ cols) :
    g.buffer.threshold? width = some (g.threshold width) := by
  rw [Buffer.threshold?]
  show (chunks (max cols 1) g.cells.toList).mapM (Table.slice? 0 width) >>= _ = _
  rcases Nat.eq_zero_or_pos cols with rfl | hcols
  · have hempty : g.cells.toList = [] := by
      rw [← List.length_eq_zero_iff, Vector.length_toList, Nat.mul_zero]
    have hmagnitude : g.magnitude width = Arith.zero := by simp [magnitude]
    have hnone : chunks (max 0 1) ([] : List α) = [] := by simp [chunks]
    rw [hempty, threshold, hmagnitude, hnone]
    rfl
  · have hchunks : chunks (max cols 1) g.cells.toList = g.toRows := by
      rw [Nat.max_eq_left hcols, ← flatten_toRows, chunks_flatten hcols g.length_of_mem_toRows]
    have hslices : g.toRows.mapM (Table.slice? 0 width) =
        some ((List.finRange rows).map fun i ↦
          ((List.finRange cols).filter (·.val < width)).map (g.get i)) := by
      rw [toRows, List.mapM_map]
      exact mapM_eq_some_map fun i _ ↦ g.slice?_row hwidth i
    rw [hchunks, hslices, Option.bind_eq_bind, Option.bind_some, List.foldl_flatten,
      List.foldl_map]
    simp only [List.foldl_map]
    rfl

end Grid

/-! ### Rounds -/

namespace Buffer

variable [Arith α]

/-- One round of elimination in row and column `col`. Nothing if the pivot is refused. -/
def eliminate? (m : Machine) (b : Buffer α) (limit : α) (col : Nat) :
    Option (Option (Buffer α)) := do
  let source ← b.pivotRow? m col
  let pivot ← b.get? m source col
  if Arith.atMost (Arith.abs pivot) limit then return none
  else
    let swapped ← b.swapRows? m col source
    let lead ← swapped.get? m col col
    return some (← swapped.clearBelow? m col lead)

/-- The buffer after the first `k` rounds. -/
def reduceTo? (m : Machine) (b : Buffer α) (limit : α) : Nat → Option (Option (Buffer α))
  | 0 => some (some b)
  | k + 1 => do
    match ← b.reduceTo? m limit k with
    | none => return none
    | some b => b.eliminate? m limit k

/-- Forward elimination of an augmented matrix. -/
def reduce? (m : Machine) (b : Buffer α) : Option (Except Table.Error (Buffer α)) := do
  let limit ← b.threshold? (b.cols - 1)
  match ← b.reduceTo? m limit (min b.rows (b.cols - 1)) with
  | none => return .error .singular
  | some b => return .ok b

/-- One round of the determinant in row and column `col`, where `d` is the product so far. The rows
are left alone if the pivot stands in its place. -/
def detRound? (m : Machine) (b : Buffer α) (limit d : α) (col : Nat) :
    Option (Option (Buffer α × α)) := do
  let source ← b.pivotRow? m col
  let pivot ← b.get? m source col
  if Arith.atMost (Arith.abs pivot) limit then return none
  else
    let (b, d) ←
      if source ≠ col then (b.swapRows? m col source).map fun b ↦ (b, -d) else some (b, d)
    return some (← b.clearBelow? m col pivot, d * pivot)

/-- The buffer after the first `k` rounds, with the product of their pivots and its sign. -/
def detTo? (m : Machine) (b : Buffer α) (limit : α) : Nat → Option (Option (Buffer α × α))
  | 0 => some (some (b, Arith.one))
  | k + 1 => do
    match ← b.detTo? m limit k with
    | none => return none
    | some (b, d) => b.detRound? m limit d k

/-- The determinant of a square matrix. -/
def det? (m : Machine) (b : Buffer α) : Option (Except Table.Error α) :=
  if b.rows ≠ b.cols then some (.error (.notSquare b.rows b.cols))
  else do
    let limit ← b.threshold? b.cols
    match ← b.detTo? m limit b.rows with
    | none => return .ok Arith.zero
    | some (_, d) => return .ok d

end Buffer

namespace Grid

variable [Arith α] (g : Grid α rows cols)

/-- **A round on a buffer is a round on its grid.** -/
theorem eliminate?_buffer (hm : rows * cols < m.sizes) (limit : α) (top : Fin rows) (col : Fin cols)
    (htop : top.val = col.val) :
    g.buffer.eliminate? m limit col =
      some ((g.eliminate limit top col).map fun r ↦ r.grid.buffer) := by
  have hswap := g.swapRows?_buffer hm top (g.pivotRow top col)
  have hlead := (g.swapRows top (g.pivotRow top col)).get?_buffer hm top col
  have hclear := (g.swapRows top (g.pivotRow top col)).clearBelow?_buffer hm
    ((g.swapRows top (g.pivotRow top col)).get top col) htop
  rw [htop] at hswap hlead
  simp only [Buffer.eliminate?, eliminate, g.pivotRow?_buffer hm htop, g.get?_buffer hm,
    Option.bind_eq_bind, Option.bind_some]
  split
  · rfl
  · rw [hswap, Option.bind_some, hlead, Option.bind_some, hclear]
    rfl

theorem reduceTo?_buffer (hm : rows * cols < m.sizes) (limit : α) {k : Nat} (hrows : k ≤ rows)
    (hcols : k ≤ cols) :
    g.buffer.reduceTo? m limit k = some ((g.reduceTo limit k hrows hcols).map buffer) := by
  induction k with
  | zero => rfl
  | succ k ih =>
    rw [Buffer.reduceTo?, ih (Nat.le_of_succ_le hrows) (Nat.le_of_succ_le hcols), reduceTo]
    rcases g.reduceTo limit k _ _ with _ | h
    · rfl
    · refine (h.eliminate?_buffer hm limit ⟨k, hrows⟩ ⟨k, hcols⟩ rfl).trans (congrArg some ?_)
      show _ = ((h.eliminate limit ⟨k, hrows⟩ ⟨k, hcols⟩).map fun r ↦ r.grid).map buffer
      rw [Option.map_map]
      rfl

/-- A round of the determinant on a buffer is one on its grid. -/
theorem detRound?_buffer (g : Grid α n n) (hm : n * n < m.sizes) (limit d : α) (k : Fin n) :
    g.buffer.detRound? m limit d k =
      some ((g.detRound limit d k).map fun p ↦ (p.1.buffer, p.2)) := by
  simp only [Buffer.detRound?, detRound, g.pivotRow?_buffer hm rfl, g.get?_buffer hm,
    Option.bind_eq_bind, Option.bind_some]
  split
  · rfl
  · by_cases hsource : g.pivotRow k k = k
    · have hval : (g.pivotRow k k).val = k.val := congrArg Fin.val hsource
      rw [if_neg fun hne ↦ hne hval, if_neg fun hne ↦ hne hsource, g.clearBelow?_buffer hm _ rfl]
      rfl
    · have hval : (g.pivotRow k k).val ≠ k.val := fun heq ↦ hsource (Fin.ext heq)
      rw [if_pos hval, if_pos hsource, g.swapRows?_buffer hm, Option.map_some, Option.bind_some,
        clearBelow?_buffer _ hm _ rfl]
      rfl

theorem detTo?_buffer (g : Grid α n n) (hm : n * n < m.sizes) (limit : α) {k : Nat} (h : k ≤ n) :
    g.buffer.detTo? m limit k = some ((g.detTo limit k h).map fun p ↦ (p.1.buffer, p.2)) := by
  induction k with
  | zero => rfl
  | succ k ih =>
    rw [Buffer.detTo?, ih (Nat.le_of_succ_le h), detTo]
    rcases g.detTo limit k _ with _ | ⟨r, d⟩
    · rfl
    · exact r.detRound?_buffer hm limit d ⟨k, h⟩

end Grid

namespace Table

variable [Arith α]

/-- **Forward elimination on buffers is forward elimination on tables.** -/
theorem reduce?_buffer (t : Table α) (hm : t.rows * t.cols < m.sizes) :
    t.buffer.reduce? m = some (t.reduce.map buffer) := by
  obtain ⟨rows, cols, g⟩ := t
  have hthreshold : g.buffer.threshold? (cols - 1) = some (g.threshold (cols - 1)) :=
    g.threshold?_buffer (Nat.sub_le _ _)
  have hreduce : g.buffer.reduceTo? m (g.threshold (cols - 1)) (min rows (cols - 1)) =
      some (g.reduce.map Grid.buffer) := g.reduceTo?_buffer hm _ _ _
  rw [Buffer.reduce?, reduce]
  show (g.buffer.threshold? (cols - 1) >>= _) = _
  rw [hthreshold]
  show (g.buffer.reduceTo? m (g.threshold (cols - 1)) (min rows (cols - 1)) >>= _) = _
  rw [hreduce]
  rcases g.reduce with _ | h
  · rfl
  · rfl

theorem det?_buffer (t : Table α) (hm : t.rows * t.cols < m.sizes) :
    t.buffer.det? m = some t.det := by
  obtain ⟨rows, cols, g⟩ := t
  by_cases hshape : cols = rows
  · subst hshape
    have hthreshold : g.buffer.threshold? cols = some (g.threshold cols) :=
      g.threshold?_buffer (Nat.le_refl cols)
    have hdet := g.detTo?_buffer hm (g.threshold cols) (Nat.le_refl cols)
    rw [det, dif_pos rfl, Buffer.det?, if_neg fun hne ↦ hne rfl]
    show (g.buffer.threshold? cols >>= _) = some (Except.ok g.det)
    rw [hthreshold]
    show (g.buffer.detTo? m (g.threshold cols) cols >>= _) = _
    rw [hdet, Grid.det]
    rcases g.detTo (g.threshold cols) cols _ with _ | ⟨r, d⟩
    · rfl
    · rfl
  · have hne : (Table.buffer ⟨rows, cols, g⟩).rows ≠ (Table.buffer ⟨rows, cols, g⟩).cols :=
      fun heq ↦ hshape heq.symm
    rw [det, dif_neg hshape, Buffer.det?, if_pos hne]
    rfl

end Table

/-! ### Back substitution -/

namespace Buffer

variable [Arith α]

/-- What is left of a right-hand side once one more unknown is moved over. -/
def moveOver? (m : Machine) (b x : Buffer α) (row : Nat) (acc : α) (col : Nat) : Option α := do
  let coefficient ← b.get? m row col
  let unknown ← x.get? m col 0
  return acc - coefficient * unknown

/-- Solves row `row` for its unknown, given those after it. -/
def substituteRow? (m : Machine) (b : Buffer α) (limit : α) (x : Buffer α) (row : Nat) :
    Option (Option (Buffer α)) := do
  let side ← b.get? m row b.rows
  let acc ← loop (row + 1) b.rows (b.moveOver? m x row) side
  let pivot ← b.get? m row row
  if Arith.atMost (Arith.abs pivot) limit then return none
  else return some (← x.set? m row 0 (acc / pivot))

/-- The unknowns with the last `k` of them solved for, the others as they are in `x`. -/
def substituteTo? (m : Machine) (b : Buffer α) (limit : α) (x : Buffer α) :
    Nat → Option (Option (Buffer α))
  | 0 => some (some x)
  | k + 1 => do
    match ← b.substituteTo? m limit x k with
    | none => return none
    | some x => b.substituteRow? m limit x (b.rows - (k + 1))

/-- Solves a triangular augmented system. -/
def substitute? (m : Machine) (b : Buffer α) : Option (Except Table.Error (Buffer α)) := do
  let width ← m.size? (b.rows + 1)
  if b.cols ≠ width then return .error (.notAugmented b.rows b.cols)
  else
    let limit ← b.threshold? b.rows
    let x ← zeros? m b.rows 1
    match ← b.substituteTo? m limit x b.rows with
    | none => return .error .singular
    | some x => return .ok x

/-- Solves an augmented system. -/
def solve? (m : Machine) (b : Buffer α) : Option (Except Table.Error (Buffer α)) := do
  let width ← m.size? (b.rows + 1)
  if b.cols ≠ width then return .error (.notAugmented b.rows b.cols)
  else
    let coefficients ← b.block? m 0 b.rows 0 b.rows
    match ← coefficients.det? m with
    | .error e => return .error e
    | .ok d =>
      if Arith.isZero d then return .error .singular
      else
        match ← b.reduce? m with
        | .error e => return .error e
        | .ok b => b.substitute? m

end Buffer

namespace Grid

/-- Unknowns as a column. -/
def column (x : Vector α n) : Grid α n 1 :=
  ofFn fun i _ ↦ x.get i

theorem column_set (x : Vector α n) (i : Fin n) (y : α) :
    column (x.set i y i.isLt) = (column x).update i 0 y := by
  ext i' j'
  rw [column, get_update, column, get_ofFn, get_ofFn]
  show (x.set i.val y)[i'.val] = _
  rw [Vector.getElem_set]
  refine if_congr ⟨fun hi ↦ ⟨Fin.ext hi.symm, Subsingleton.elim _ _⟩, fun hi ↦ ?_⟩ rfl rfl
  exact congrArg Fin.val hi.1.symm

variable [Arith α] (g : Grid α n (n + 1)) (hm : n * (n + 1) < m.sizes)

include hm

/-- There are no more unknowns than coefficients. -/
theorem column_lt : n * 1 < m.sizes :=
  (Nat.mul_le_mul_left n (Nat.succ_pos n)).trans_lt hm

/-- Moving over the unknowns one by one leaves the residual. -/
theorem loop_moveOver? (x : Vector α n) (i : Fin n) :
    loop (i.val + 1) n (g.buffer.moveOver? m (column x).buffer i) (g.get i (Fin.last n)) =
      some (g.residual x i) := by
  rw [residual]
  refine loop_eq_foldl id (fun acc j _ ↦ ?_) (g.get i (Fin.last n))
  have hcoefficient : g.buffer.get? m i j = some (g.get i j.castSucc) :=
    g.get?_buffer hm i j.castSucc
  have hunknown : (column x).buffer.get? m j 0 = some (x.get j) := by
    have hget := (column x).get?_buffer (column_lt hm) j 0
    rwa [column, get_ofFn] at hget
  show (g.buffer.get? m i j >>= fun a ↦ (column x).buffer.get? m j 0 >>= fun y ↦
    some (acc - a * y)) = _
  rw [hcoefficient, hunknown]
  rfl

theorem substituteRow?_buffer (limit : α) (x : Vector α n) (i : Fin n) :
    g.buffer.substituteRow? m limit (column x).buffer i =
      some (if Arith.atMost (Arith.abs (g.get i i.castSucc)) limit then none
        else some (column (x.set i (g.residual x i / g.get i i.castSucc) i.isLt)).buffer) := by
  have hside : g.buffer.get? m i n = some (g.get i (Fin.last n)) :=
    g.get?_buffer hm i (Fin.last n)
  have hmove := g.loop_moveOver? hm x i
  have hpivot : g.buffer.get? m i i = some (g.get i i.castSucc) := g.get?_buffer hm i i.castSucc
  have hset := (column x).set?_buffer (column_lt hm) i 0 (g.residual x i / g.get i i.castSucc)
  rw [Buffer.substituteRow?]
  show (g.buffer.get? m i n >>= fun side ↦
    loop (i.val + 1) n (g.buffer.moveOver? m (column x).buffer i) side >>= _) = _
  rw [hside, Option.bind_eq_bind, Option.bind_some, hmove, Option.bind_eq_bind, Option.bind_some,
    hpivot, Option.bind_some, column_set]
  split
  · rfl
  · exact congrArg (fun y? ↦ y?.bind fun y ↦ some (some y)) hset

theorem substituteTo?_buffer (limit : α) {k : Nat} (h : k ≤ n) :
    g.buffer.substituteTo? m limit (replicate n 1 Arith.zero).buffer k =
      some ((g.substituteTo limit k h).map fun x ↦ (column x).buffer) := by
  induction k with
  | zero =>
    have hzero : column (Vector.replicate n (Arith.zero : α)) = replicate n 1 Arith.zero := by
      ext i j
      rw [column, replicate, get_ofFn, get_ofFn]
      exact Vector.getElem_replicate _
    rw [← hzero]
    rfl
  | succ k ih =>
    rw [Buffer.substituteTo?, ih (Nat.le_of_succ_le h), substituteTo]
    rcases g.substituteTo limit k _ with _ | x
    · rfl
    · have hlt : n - (k + 1) < n := by omega
      refine (g.substituteRow?_buffer hm limit x ⟨n - (k + 1), hlt⟩).trans (congrArg some ?_)
      show _ = Option.map _ (if _ then _ else _)
      split
      · rfl
      · rfl

end Grid

/-! ### Systems too tall for their machine -/

namespace Buffer

variable {b : Buffer α}

/-- A buffer with so many rows that one more is no size has no columns. -/
theorem cols_eq_zero_of_le (hb : m.Holds b.rows b.cols) (h : m.sizes ≤ b.rows + 1) :
    b.cols = 0 := by
  by_contra hne
  have hcells : b.rows ≤ b.rows * b.cols := Nat.le_mul_of_pos_right _ (Nat.pos_of_ne_zero hne)
  have hlt := hb.cells_lt
  have hrows := hb.rows_lt
  simp only [Machine.capacity] at hlt
  omega

theorem le_rows_of_le (hb : m.Holds b.rows b.cols) (h : m.sizes ≤ b.rows + 1) :
    m.capacity ≤ b.rows ∧ 0 < b.rows := by
  have hlt := Nat.zero_lt_of_lt hb.cells_lt
  have hrows := hb.rows_lt
  simp only [Machine.capacity] at hlt ⊢
  omega

/-- A width that is no size is refused, or taken for a matrix without columns. -/
theorem size?_succ_of_le (hb : m.Holds b.rows b.cols) (h : m.sizes ≤ b.rows + 1) :
    m.size? (b.rows + 1) = none ∨ m.size? (b.rows + 1) = some b.cols := by
  rcases Machine.size?_of_le h with hnone | ⟨-, hsome⟩
  · exact .inl hnone
  · have hrows := hb.rows_lt
    rw [cols_eq_zero_of_le hb h, hsome, show b.rows + 1 = m.sizes by omega, Nat.mod_self]
    exact .inr rfl

variable [Arith α]

/-- Back substitution then comes to nothing: there is no room for the unknowns. -/
theorem substitute?_of_le (hb : m.Holds b.rows b.cols) (h : m.sizes ≤ b.rows + 1) :
    b.substitute? m = none := by
  have hzeros : (zeros? m b.rows 1 : Option (Buffer α)) = none := by
    have hrows : m.capacity ≤ b.rows * 1 := (le_rows_of_le hb h).1.trans_eq (Nat.mul_one _).symm
    have hsize : m.size? (b.rows * 1) = some b.rows := by
      rw [Nat.mul_one, Machine.size?_of_lt hb.rows_lt]
    rw [zeros?, Machine.room?, hsize, Option.map_eq_none_iff]
    simpa using hrows
  rw [substitute?]
  rcases size?_succ_of_le hb h with hnone | hsome
  · rw [hnone]
    rfl
  · rw [hsome, Option.bind_eq_bind, Option.bind_some, if_neg fun hne ↦ hne rfl, hzeros]
    cases b.threshold? b.rows with
    | none => rfl
    | some limit => rfl

/-- Solving comes to nothing as well: the first row has no coefficients to be cut out. -/
theorem solve?_of_le (hb : m.Holds b.rows b.cols) (h : m.sizes ≤ b.rows + 1)
    (hdata : b.WellFormed) : b.solve? m = none := by
  have hcols := cols_eq_zero_of_le hb h
  have hempty : b.data = [] := by
    rw [← List.length_eq_zero_iff, hdata, hcols, Nat.mul_zero]
  obtain ⟨-, hpos⟩ := le_rows_of_le hb h
  have hblock : b.block? m 0 b.rows 0 b.rows = none := by
    obtain ⟨count, hcount⟩ := Nat.exists_eq_succ_of_ne_zero hpos.ne'
    have hrow : (b.row? m 0).bind (Table.slice? 0 b.rows) = none := by
      have hslice : b.row? m 0 = some [] := by
        have hzero : m.size? 0 = some 0 :=
          Machine.size?_of_lt (Nat.zero_lt_of_lt hb.rows_lt)
        rw [row?, if_pos hpos, hempty, hcols, Nat.mul_zero, hzero]
        rfl
      rw [hslice, Option.bind_some, Table.slice?, if_neg]
      simpa using hpos.ne'
    rw [block?]
    cases m.room? ((b.rows - 0) * (b.rows - 0)) with
    | none => rfl
    | some room =>
      have hrange : List.range' 0 (b.rows - 0) = 0 :: List.range' 1 count := by
        rw [Nat.sub_zero, hcount]
        rfl
      rw [Option.bind_eq_bind, Option.bind_some, hrange, List.mapM_cons, hrow]
      rfl
  rw [solve?]
  rcases size?_succ_of_le hb h with hnone | hsome
  · rw [hnone]
    rfl
  · rw [hsome, Option.bind_eq_bind, Option.bind_some, if_neg fun hne ↦ hne rfl, hblock]
    rfl

end Buffer

namespace Table

variable [Arith α]

/-- **Back substitution on buffers is back substitution on tables**, if the width that it asks for
is a size. -/
theorem substitute?_buffer (t : Table α) (ht : m.Holds t.rows t.cols)
    (hwidth : t.rows + 1 < m.sizes) : t.buffer.substitute? m = some (t.substitute.map buffer) := by
  obtain ⟨n, cols, g⟩ := t
  have hsize : m.size? (n + 1) = some (n + 1) := Machine.size?_of_lt hwidth
  rw [Buffer.substitute?]
  show (m.size? (n + 1) >>= fun width ↦ if cols ≠ width then _ else _) = _
  rw [hsize, Option.bind_eq_bind, Option.bind_some]
  by_cases hshape : cols = n + 1
  · subst hshape
    have hm : n * (n + 1) < m.capacity := ht.cells_lt
    have hthreshold : g.buffer.threshold? n = some (g.threshold n) :=
      g.threshold?_buffer (Nat.le_succ n)
    have hzeros : Buffer.zeros? m n 1 = some (Grid.replicate n 1 (Arith.zero : α)).buffer :=
      Grid.zeros?_eq ((Nat.mul_le_mul_left n (Nat.succ_pos n)).trans_lt hm)
    have hsubstitute := g.substituteTo?_buffer (hm.trans_le m.capacity_le_sizes) (g.threshold n)
      (Nat.le_refl n)
    rw [substitute, dif_pos rfl, Grid.cast_rfl, Grid.substitute, if_neg fun hne ↦ hne rfl]
    show (g.buffer.threshold? n >>= fun limit ↦ Buffer.zeros? m n 1 >>= _) = _
    rw [hthreshold, hzeros]
    show (g.buffer.substituteTo? m (g.threshold n) _ n >>= _) = _
    rw [hsubstitute]
    rcases g.substituteTo (g.threshold n) n _ with _ | x
    · rfl
    · rfl
  · rw [substitute, dif_neg hshape, if_pos hshape]
    rfl

/-- **Systems are solved on buffers as they are on tables**, if the width that is asked for is a
size. -/
theorem solve?_buffer (t : Table α) (ht : m.Holds t.rows t.cols) (hwidth : t.rows + 1 < m.sizes) :
    t.buffer.solve? m = some (t.solve.map buffer) := by
  obtain ⟨n, cols, g⟩ := t
  have hsize : m.size? (n + 1) = some (n + 1) := Machine.size?_of_lt hwidth
  rw [Buffer.solve?]
  show (m.size? (n + 1) >>= fun width ↦ if cols ≠ width then _ else _) = _
  rw [hsize, Option.bind_eq_bind, Option.bind_some]
  by_cases hshape : cols = n + 1
  · subst hshape
    have hm : n * (n + 1) < m.capacity := ht.cells_lt
    have hdet : g.dropLastCol.buffer.det? m = some (.ok g.dropLastCol.det) := by
      have hsquare : n * n < m.sizes :=
        (Nat.mul_le_mul_left n (Nat.le_succ n)).trans_lt (hm.trans_le m.capacity_le_sizes)
      refine (det?_buffer ⟨n, n, g.dropLastCol⟩ hsquare).trans ?_
      rw [det, dif_pos rfl]
      rfl
    have hreduce := reduce?_buffer ⟨n, n + 1, g⟩ (hm.trans_le m.capacity_le_sizes)
    rw [solve, dif_pos rfl, Grid.cast_rfl, Grid.solve, if_neg fun hne ↦ hne rfl]
    show (g.buffer.block? m 0 n 0 n >>= _) = _
    rw [g.block?_buffer hm]
    show (g.dropLastCol.buffer.det? m >>= _) = _
    rw [hdet]
    show (if Arith.isZero g.dropLastCol.det then some (Except.error Table.Error.singular)
      else (Table.buffer ⟨n, n + 1, g⟩).reduce? m >>= _) = _
    split
    · rfl
    · rw [hreduce, reduce]
      rcases g.reduce with _ | r
      · rfl
      · refine (substitute?_buffer ⟨n, n + 1, r⟩ ht hwidth).trans ?_
        rw [substitute, dif_pos rfl, Grid.cast_rfl, Option.bind_some]
        rcases r.substitute with _ | x
        · rfl
        · rfl
  · rw [solve, dif_neg hshape, if_pos hshape]
    rfl

/-- Back substitution on a machine, whatever the number of rows. -/
theorem substitute?_settles {t : Table α} (ht : m.Holds t.rows t.cols) :
    Settles m (t.buffer.substitute? m) (t.substituteOn? m) := by
  rw [substituteOn?]
  split
  · next hwidth => exact t.substitute?_buffer ht hwidth
  · next hwidth => exact .inl (Buffer.substitute?_of_le ht (Nat.not_lt.1 hwidth))

/-- Solving on a machine, whatever the number of rows. -/
theorem solve?_settles {t : Table α} (ht : m.Holds t.rows t.cols) :
    Settles m (t.buffer.solve? m) (t.solveOn? m) := by
  rw [solveOn?]
  split
  · next hwidth => exact t.solve?_buffer ht hwidth
  · next hwidth =>
    exact .inl (Buffer.solve?_of_le ht (Nat.not_lt.1 hwidth) (Buffer.wellFormed_iff.2 ⟨t, rfl⟩))

end Table

end MatrixScript
