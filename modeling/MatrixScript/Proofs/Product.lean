import MatrixScript.Proofs.Bands
import MatrixScript.Proofs.DoubleArithmetic

/-!
# Products of tables

What a product of tables is, by which way it comes about and how it is transposed, for doubles as
they are.

A large product is divided among workers, each of which writes rows of the result in place. Every
row is written once, to the cells where it lies (`flatten_bandTasks`). So it does not matter in
which order the workers get to their rows, or what the cells hold before: a row that has been
written is not touched again (`exists_foldlM_writeRow?`).

An entry of a product adds its terms in the order of the inner dimension, and this order is the same
after both factors have been transposed. The two factors of each term change places; multiplication
of doubles is commutative (`float_mul_comm`), and no other law is needed.

All of this is so on machines with room for the product. Factors without columns or without rows
take no room at all, whatever their other dimension is, so there are machines that hold the factors
and have no room for the product (`mul?_without_room`).
-/

namespace MatrixScript

variable {α : Type} {rows inner cols : Nat} {m : Machine}

/-! ### Writing rows in place -/

/-- Computes a row of a product and writes its entries to the cells of the task, one by one. -/
def Buffer.writeRow? [Arith α] (m : Machine) (a b : Buffer α) (data : List α) (task : RowTask) :
    Option (List α) :=
  (a.row? m task.row).bind fun lhs ↦
    task.cells.zipIdx.foldlM (fun data p ↦
      if p.1 < data.length then (dot? m lhs b p.2).map (data.set p.1) else none) data

namespace Grid

/-- The grid with the first `k` entries of row `i` taken from another grid. -/
def withRow (out p : Grid α rows cols) (i : Fin rows) (k : Nat) : Grid α rows cols :=
  ofFn fun i' j ↦ if i' = i ∧ j.val < k then p.get i' j else out.get i' j

theorem get_withRow (out p : Grid α rows cols) (i i' : Fin rows) (j : Fin cols) (k : Nat) :
    (out.withRow p i k).get i' j = if i' = i ∧ j.val < k then p.get i' j else out.get i' j :=
  get_ofFn _ i' j

variable [Arith α] (g : Grid α rows inner) (h : Grid α inner cols)
  (hg : rows * inner < m.sizes) (hh : inner * cols < m.sizes)

include hg hh

/-- A task changes its own row to that of the product and leaves the other rows alone. -/
theorem writeRow?_buffer (out : Grid α rows cols) (i : Fin rows) :
    Buffer.writeRow? m g.buffer h.buffer out.cells.toList (RowTask.whole cols i) =
      some (out.withRow (g.mul h) i cols).cells.toList := by
  have hcells : (RowTask.whole cols i).cells.zipIdx =
      (List.range' 0 (cols - 0)).map fun j ↦ (i.val * cols + j, j) := by
    show (List.range' (i.val * cols) cols).zipIdx = _
    rw [List.range'_eq_map_range, zipIdx_map_range, Nat.sub_zero, List.range_eq_range']
  have hstart : out.withRow (g.mul h) i 0 = out := by
    ext i' j
    rw [get_withRow, if_neg fun hlt ↦ Nat.not_lt_zero _ hlt.2]
  rw [Buffer.writeRow?]
  show (g.buffer.row? m i.val).bind _ = _
  rw [g.row?_buffer hg, Option.bind_some, hcells, List.foldlM_map]
  -- before column `k` the entries up to it have been written
  refine loop_eq (Nat.zero_le cols) (fun out : Grid α rows cols ↦ out.cells.toList)
    (out.withRow (g.mul h) i) hstart rfl fun k _ hk ↦ ?_
  have hinside : i.val * cols + k < (out.withRow (g.mul h) i k).cells.toList.length := by
    rw [Vector.length_toList]
    exact position_lt i ⟨k, hk⟩
  have hupdate : (out.withRow (g.mul h) i k).update i ⟨k, hk⟩ (g.dot h i ⟨k, hk⟩) =
      out.withRow (g.mul h) i (k + 1) := by
    ext i' j
    rw [get_update, get_withRow, get_withRow]
    split
    · next heq =>
      obtain ⟨rfl, rfl⟩ := heq
      rw [if_pos ⟨rfl, Nat.lt_succ_self k⟩, get_mul]
    · next hne =>
      have hk' : i' = i → j.val ≠ k := fun hi hj ↦ hne ⟨hi, Fin.ext hj⟩
      refine if_congr (and_congr_right fun hi ↦ ?_) rfl rfl
      have := hk' hi
      omega
  rw [if_pos hinside, g.dot?_buffer h hh i ⟨k, hk⟩, Option.map_some,
    toList_cells_set _ i ⟨k, hk⟩, hupdate]

/-- **Any tasks, one after the other**: a row that one of them has written, or that was right from
the start, is right at the end. -/
theorem exists_foldlM_writeRow? {tasks : List RowTask}
    (htasks : ∀ task ∈ tasks, ∃ i : Fin rows, RowTask.whole cols i = task)
    (out : Grid α rows cols) :
    ∃ out' : Grid α rows cols,
      tasks.foldlM (Buffer.writeRow? m g.buffer h.buffer) out.cells.toList =
          some out'.cells.toList ∧
        ∀ i : Fin rows, (RowTask.whole cols i ∈ tasks ∨ ∀ j, out.get i j = (g.mul h).get i j) →
          ∀ j, out'.get i j = (g.mul h).get i j := by
  induction tasks generalizing out with
  | nil => exact ⟨out, rfl, fun i hi ↦ hi.resolve_left List.not_mem_nil⟩
  | cons task tasks ih =>
    obtain ⟨⟨i, rfl⟩, hrest⟩ := List.forall_mem_cons.1 htasks
    obtain ⟨out', hout', hright⟩ := ih hrest (out.withRow (g.mul h) i cols)
    refine ⟨out', ?_, fun i' hi' ↦ hright i' ?_⟩
    · rw [List.foldlM_cons, g.writeRow?_buffer h hg hh]
      exact hout'
    · by_cases heq : i' = i
      · refine Or.inr fun j ↦ ?_
        rw [get_withRow, if_pos ⟨heq, j.isLt⟩]
      · refine hi'.imp (fun hmem ↦ ?_) fun hout j ↦ ?_
        · refine (List.mem_cons.1 hmem).resolve_left fun htask ↦ heq (Fin.ext ?_)
          exact congrArg RowTask.row htask
        · rw [get_withRow, if_neg fun hi ↦ heq hi.1, hout j]

/-- **In any order**: tasks for all rows, however they are arranged, leave the product, whatever the
cells were before. -/
theorem foldlM_writeRow?_of_perm {order : List RowTask}
    (horder : order.Perm ((List.range rows).map (RowTask.whole cols))) {cells : List α}
    (hcells : cells.length = rows * cols) :
    order.foldlM (Buffer.writeRow? m g.buffer h.buffer) cells = some (g.mul h).buffer.data := by
  have htasks : ∀ task ∈ order, ∃ i : Fin rows, RowTask.whole cols i = task := by
    intro task htask
    obtain ⟨i, hi, heq⟩ := List.mem_map.1 (horder.mem_iff.1 htask)
    exact ⟨⟨i, List.mem_range.1 hi⟩, heq⟩
  obtain ⟨out', hout', hright⟩ :=
    g.exists_foldlM_writeRow? h hg hh htasks ⟨⟨cells.toArray, hcells⟩⟩
  have hproduct : out' = g.mul h := by
    ext i j
    refine hright i (Or.inl (horder.mem_iff.2 ?_)) j
    exact List.mem_map_of_mem (List.mem_range.2 i.isLt)
  rw [← hproduct]
  exact hout'

end Grid

namespace Table

theorem mul_eq_ok [Arith α] (g : Grid α rows inner) (h : Grid α inner cols) :
    (⟨rows, inner, g⟩ : Table α).mul ⟨inner, cols, h⟩ = .ok ⟨rows, cols, g.mul h⟩ := by
  rw [mul, dif_pos rfl, Grid.cast_rfl]

/-- **A product is what its definition says, on every path.** Tables with `r` rows and `k` columns
and with `k` rows and `c` columns have a product, with `r` rows and `c` columns. Its entries are the
sums of products from left to right, starting from negative zero. On a machine that holds the
factors it comes out exactly if there is room for it. It then comes out whatever the number of
workers is; with the rows written one after the other; and with the rows divided into bands, by any
number `w` of workers up to the number of rows, in whatever order the workers get to their rows. The
bands have every row once, with the cells where it lies, and no row is in two bands. -/
theorem mul_in_bands {r k c : Nat} (g : Grid Float r k) (h : Grid Float k c) :
    ∃ p : Grid Float r c,
      (⟨r, k, g⟩ : Table Float).mul ⟨k, c, h⟩ = .ok ⟨r, c, p⟩ ∧
      (∀ i j, p.get i j =
        (List.finRange k).foldl (fun acc l ↦ acc + g.get i l * h.get l j) (-0.0)) ∧
      ∀ m : Machine, m.Holds r k → m.Holds k c →
        (r * c < m.capacity →
          (∀ available, 0 < available →
            g.buffer.mul? m available h.buffer = some (.ok p.buffer)) ∧
          (0 < c → ∀ cells : List Float, cells.length = r * c →
            (rowTasks c 0 (List.range (r * c))).foldlM (Buffer.writeRow? m g.buffer h.buffer)
              cells = some p.buffer.data ∧
            ∀ w, 1 ≤ w → w ≤ r →
              let bands := bandTasks ((r + w - 1) / w) c (List.range (r * c))
              (∀ order : List RowTask, order.Perm bands.flatten →
                order.foldlM (Buffer.writeRow? m g.buffer h.buffer) cells = some p.buffer.data) ∧
              bands.flatten = (List.range r).map (fun row ↦ ⟨row, List.range' (row * c) c⟩) ∧
              ∀ row < r, ∃! band : Nat, ∃ tasks : List RowTask,
                bands[band]? = some tasks ∧ row ∈ tasks.map RowTask.row)) ∧
        (m.capacity ≤ r * c → ∀ available,
          g.buffer.mul? m available h.buffer = none ∨
            m.wraps = true ∧ ∃ out : Buffer Float,
              g.buffer.mul? m available h.buffer = some (.ok out) ∧ ¬ out.WellFormed) := by
  refine ⟨g.mul h, mul_eq_ok g h, fun i j ↦ g.get_mul h i j, fun m hg hh ↦
    ⟨fun hroom ↦ ?_, fun hm ↦
      Buffer.not_wellFormed_of_mul? rfl hm⟩⟩
  have hg' : r * k < m.sizes := hg.cells_lt.trans_le m.capacity_le_sizes
  have hh' : k * c < m.sizes := hh.cells_lt.trans_le m.capacity_le_sizes
  refine ⟨fun available ↦ g.mul?_buffer h hg' hh' hroom, fun hc cells hcells ↦
    ⟨?_, fun w hw hwr ↦ ?_⟩⟩
  · rw [rowTasks_range hc]
    exact g.foldlM_writeRow?_of_perm h hg' hh' (List.Perm.refl _) hcells
  · have hheight : 0 < (r + w - 1) / w := by
      rw [lt_ceil_iff hw]
      omega
    have hflatten := flatten_bandTasks hheight hc r
    refine ⟨fun order horder ↦ ?_, hflatten, fun row ↦ existsUnique_band hheight hc⟩
    rw [hflatten] at horder
    exact g.foldlM_writeRow?_of_perm h hg' hh' horder hcells

/-- Three rows for two workers, the second of which has one row only. The rows are written from the
last one up, to cells that are not zero. -/
theorem mul_in_bands_uneven :
    let m : Machine := .wide true
    let g : Grid Float 3 2 := ⟨#v[1, 2, 3, 4, 5, 6]⟩
    let h : Grid Float 2 2 := ⟨#v[1, 0, 1, 1]⟩
    let p : Grid Float 3 2 := ⟨#v[3, 2, 7, 4, 11, 6]⟩
    let bands := bandTasks ((3 + 2 - 1) / 2) 2 (List.range (3 * 2))
    m.Holds 3 2 ∧ m.Holds 2 2 ∧ 3 * 2 < m.capacity ∧
      (⟨3, 2, g⟩ : Table Float).mul ⟨2, 2, h⟩ = .ok ⟨3, 2, p⟩ ∧
      g.buffer.mul? m 2 h.buffer = some (.ok p.buffer) ∧
      bands.flatten.reverse.foldlM (Buffer.writeRow? m g.buffer h.buffer) [9, 9, 9, 9, 9, 9] =
        some p.buffer.data ∧
      bands.map (·.map RowTask.row) = [[0, 1], [2]] ∧
      ∃! band : Nat, ∃ tasks : List RowTask,
        bands[band]? = some tasks ∧ 2 ∈ tasks.map RowTask.row := by
  intro m g h p bands
  have hg : m.Holds 3 2 := by decide
  have hh : m.Holds 2 2 := by decide
  have hroom : 3 * 2 < m.capacity := by decide
  have hmul : (⟨3, 2, g⟩ : Table Float).mul ⟨2, 2, h⟩ = .ok ⟨3, 2, p⟩ := by decide +kernel
  obtain ⟨p', hp', -, hmachine⟩ := mul_in_bands g h
  obtain rfl : p = p' := by injection Except.ok.inj (hmul.symm.trans hp')
  obtain ⟨hworkers, hpaths⟩ := (hmachine m hg hh).1 hroom
  obtain ⟨horder, -, hunique⟩ := (hpaths (by decide) [9, 9, 9, 9, 9, 9] rfl).2 2 (by decide)
    (by decide)
  exact ⟨hg, hh, hroom, hmul, hworkers 2 (by decide), horder _ (List.reverse_perm _), rfl,
    hunique 2 (by decide)⟩

/-- The product of `2 ^ 30` rows without columns and `2 ^ 30` columns without rows has `2 ^ 60`
entries, for which no machine with sizes of 64 bits has room. With `2 ^ 33` of each, the number of
cells is too large for a size: a machine that reduces it comes out with a matrix of the right shape
that has no cells at all. The factors have no cells themselves, so they are no trouble to hold. -/
theorem mul?_without_room :
    (∀ wraps, (Machine.wide wraps).Holds (2 ^ 30) 0 ∧ (Machine.wide wraps).Holds 0 (2 ^ 30) ∧
      ∀ available, Buffer.mul? (.wide wraps) ⟨2 ^ 30, 0, ([] : List Float)⟩ available
        ⟨0, 2 ^ 30, []⟩ = none) ∧
    (Machine.wide true).Holds (2 ^ 33) 0 ∧ (Machine.wide true).Holds 0 (2 ^ 33) ∧
      ∀ available, Buffer.mul? (.wide true) ⟨2 ^ 33, 0, ([] : List Float)⟩ available
        ⟨0, 2 ^ 33, []⟩ = some (.ok ⟨2 ^ 33, 2 ^ 33, []⟩) := by
  refine ⟨fun wraps ↦ ⟨?_, ?_, fun available ↦ ?_⟩, by decide, by decide, fun available ↦ ?_⟩
  · cases wraps <;> decide
  · cases wraps <;> decide
  · have hroom : (Machine.wide wraps).room? (2 ^ 30 * 2 ^ 30) = none := by
      cases wraps <;> decide
    rw [Buffer.mul?, if_neg fun hne ↦ hne rfl, Buffer.zeros?, hroom]
    rfl
  · have hroom : (Machine.wide true).room? (2 ^ 33 * 2 ^ 33) = some 0 := by decide
    rw [Buffer.mul?, if_neg fun hne ↦ hne rfl, Buffer.zeros?, hroom]
    rfl

end Table

/-! ### Transposes -/

/-- Where multiplication is commutative, transposing reverses a product. -/
theorem Grid.transpose_mul [Arith α] (hcomm : ∀ x y : α, x * y = y * x) (g : Grid α rows inner)
    (h : Grid α inner cols) : (g.mul h).transpose = h.transpose.mul g.transpose := by
  ext i j
  rw [get_transpose, get_mul, get_mul, dot, dot]
  congr 1
  funext acc l
  rw [get_transpose, get_transpose, hcomm]

/-- A loop does not come through if one of its rounds never does. -/
theorem loop_eq_none {σ : Type} {first last k : Nat} {body : σ → Nat → Option σ}
    (hfirst : first ≤ k) (hlast : k < last) (h : ∀ s, body s k = none) (s : σ) :
    loop first last body s = none := by
  have hmem : k ∈ List.range' first (last - first) := List.mem_range'_1.2 ⟨hfirst, by omega⟩
  rw [loop]
  generalize List.range' first (last - first) = ks at hmem
  induction ks generalizing s with
  | nil => cases hmem
  | cons k' ks ih =>
    rw [List.foldlM_cons]
    rcases List.mem_cons.1 hmem with rfl | hmem
    · rw [h s]
      rfl
    · cases body s k' with
      | none => rfl
      | some s' => exact ih s' hmem

/-- A buffer with too few cells cannot be transposed: there is no entry where they end. -/
theorem Buffer.transpose?_of_lt [Arith α] {b : Buffer α} (h : b.data.length < b.rows * b.cols)
    (hm : b.data.length < m.sizes) : b.transpose? m = none := by
  have hcols : 0 < b.cols := Nat.pos_of_mul_pos_left (Nat.zero_lt_of_lt h)
  have hrow : b.data.length / b.cols < b.rows := (Nat.div_lt_iff_lt_mul hcols).2 h
  have hcol : b.data.length % b.cols < b.cols := Nat.mod_lt _ hcols
  have hget : b.get? m (b.data.length / b.cols) (b.data.length % b.cols) = none := by
    rw [get?, position?, if_pos ⟨hrow, hcol⟩, Nat.div_add_mod', Machine.size?_of_lt hm,
      Option.bind_some, List.getElem?_eq_none (Nat.le_refl _)]
  rw [transpose?]
  rcases (zeros? m b.cols b.rows : Option (Buffer α)) with _ | out
  · rfl
  · rw [Option.bind_some, transposeInto?, loop_eq_none (Nat.zero_le _) hrow fun out ↦ ?_]
    · rfl
    · refine loop_eq_none (Nat.zero_le _) hcol (fun out ↦ ?_) out
      rw [hget]
      rfl

namespace Table

/-- **Transposing reverses products**, bit for bit. For tables with `r` rows and `k` columns and
with `k` rows and `c` columns, any of which may be zero, the transpose of the product is the product
of the transposes in the other order. So it is with the cells as they lie in the memory of a machine
that has room for the product, however many workers there are for either product. If there is no
room for it, there is no transpose of it either, even if a product comes out. -/
theorem transpose_reverses_mul {r k c : Nat} (g : Grid Float r k) (h : Grid Float k c) :
    ∃ p : Grid Float r c,
      (⟨r, k, g⟩ : Table Float).mul ⟨k, c, h⟩ = .ok ⟨r, c, p⟩ ∧
      (⟨k, c, h⟩ : Table Float).transpose.mul (⟨r, k, g⟩ : Table Float).transpose =
        .ok (⟨r, c, p⟩ : Table Float).transpose ∧
      ∀ m : Machine, m.Holds r k → m.Holds k c →
        (r * c < m.capacity → ∀ w w', 0 < w → 0 < w' → ∃ a b q : Buffer Float,
          g.buffer.transpose? m = some (.ok a) ∧ h.buffer.transpose? m = some (.ok b) ∧
            g.buffer.mul? m w h.buffer = some (.ok p.buffer) ∧
              p.buffer.transpose? m = some (.ok q) ∧ b.mul? m w' a = some (.ok q)) ∧
        (m.capacity ≤ r * c → ∀ w out, g.buffer.mul? m w h.buffer = some (.ok out) →
          out.transpose? m = none) := by
  have hreversed : h.transpose.mul g.transpose = (g.mul h).transpose :=
    (Grid.transpose_mul Number.float_mul_comm g h).symm
  refine ⟨g.mul h, mul_eq_ok g h, ?_, fun m hg hh ↦
    ⟨fun hroom w w' hw hw' ↦ ?_, fun hm w out hout ↦ ?_⟩⟩
  · refine (mul_eq_ok h.transpose g.transpose).trans ?_
    rw [hreversed]
    rfl
  · have hg' : r * k < m.sizes := hg.cells_lt.trans_le m.capacity_le_sizes
    have hh' : k * c < m.sizes := hh.cells_lt.trans_le m.capacity_le_sizes
    refine ⟨g.transpose.buffer, h.transpose.buffer, (g.mul h).transpose.buffer,
      transpose?_buffer ⟨r, k, g⟩ hg.cells_lt, transpose?_buffer ⟨k, c, h⟩ hh.cells_lt,
      g.mul?_buffer h hg' hh' hroom hw, transpose?_buffer ⟨r, c, g.mul h⟩ hroom, ?_⟩
    rw [Nat.mul_comm] at hg' hh' hroom
    rw [h.transpose.mul?_buffer g.transpose hh' hg' hroom hw', hreversed]
  · have hfew := Buffer.mul?_of_le (a := g.buffer) (b := h.buffer) rfl hm w
    rw [hout] at hfew
    obtain ⟨-, data, hdata, hcells, hcapacity⟩ := hfew.resolve_left nofun
    cases hdata
    exact Buffer.transpose?_of_lt hcells (hcapacity.trans_le m.capacity_le_sizes)

/-- Three terms to add up, and none: with nothing to add up, both products consist of negative
zeros. -/
theorem transpose_reverses_mul_both :
    let m : Machine := .wide true
    let g : Grid Float 2 3 := ⟨#v[1, 2, 3, 4, 5, 6]⟩
    let h : Grid Float 3 1 := ⟨#v[1, 10, 100]⟩
    let p : Grid Float 2 1 := ⟨#v[321, 654]⟩
    let g' : Grid Float 2 0 := ⟨#v[]⟩
    let h' : Grid Float 0 1 := ⟨#v[]⟩
    let p' : Grid Float 2 1 := ⟨#v[-0.0, -0.0]⟩
    (m.Holds 2 3 ∧ m.Holds 3 1 ∧ 2 * 1 < m.capacity ∧
      (⟨2, 3, g⟩ : Table Float).mul ⟨3, 1, h⟩ = .ok ⟨2, 1, p⟩ ∧
      ∃ a b q : Buffer Float,
        g.buffer.transpose? m = some (.ok a) ∧ h.buffer.transpose? m = some (.ok b) ∧
          g.buffer.mul? m 1 h.buffer = some (.ok p.buffer) ∧
            p.buffer.transpose? m = some (.ok q) ∧ b.mul? m 2 a = some (.ok q)) ∧
    m.Holds 2 0 ∧ m.Holds 0 1 ∧
      (⟨2, 0, g'⟩ : Table Float).mul ⟨0, 1, h'⟩ = .ok ⟨2, 1, p'⟩ ∧
      (⟨0, 1, h'⟩ : Table Float).transpose.mul (⟨2, 0, g'⟩ : Table Float).transpose =
        .ok (⟨2, 1, p'⟩ : Table Float).transpose := by
  intro m g h p g' h' p'
  have hmul : (⟨2, 3, g⟩ : Table Float).mul ⟨3, 1, h⟩ = .ok ⟨2, 1, p⟩ := by decide +kernel
  have hmul' : (⟨2, 0, g'⟩ : Table Float).mul ⟨0, 1, h'⟩ = .ok ⟨2, 1, p'⟩ := by decide +kernel
  have hg : m.Holds 2 3 := by decide
  have hh : m.Holds 3 1 := by decide
  have hroom : 2 * 1 < m.capacity := by decide
  refine ⟨⟨hg, hh, hroom, hmul, ?_⟩, by decide, by decide, hmul', ?_⟩
  · obtain ⟨p₀, hp₀, -, hmachine⟩ := transpose_reverses_mul g h
    obtain rfl : p = p₀ := by injection Except.ok.inj (hmul.symm.trans hp₀)
    exact (hmachine m hg hh).1 hroom 1 2 (by decide) (by decide)
  · obtain ⟨p₀, hp₀, hreversed, -⟩ := transpose_reverses_mul g' h'
    obtain rfl : p' = p₀ := by injection Except.ok.inj (hmul'.symm.trans hp₀)
    exact hreversed

/-- A matrix of `2 ^ 33` rows without columns and one of `2 ^ 33` columns without rows, which are
transposes of each other. On a machine that reduces sizes their product comes out on both sides,
without any cell; it cannot be transposed, so only one side of the equation is there. -/
theorem transpose?_without_cells :
    let m : Machine := .wide true
    let a : Buffer Float := ⟨2 ^ 33, 0, []⟩
    let b : Buffer Float := ⟨0, 2 ^ 33, []⟩
    m.Holds (2 ^ 33) 0 ∧ m.Holds 0 (2 ^ 33) ∧
      a.transpose? m = some (.ok b) ∧ b.transpose? m = some (.ok a) ∧
      a.mul? m 1 b = some (.ok ⟨2 ^ 33, 2 ^ 33, []⟩) ∧
      Buffer.transpose? m ⟨2 ^ 33, 2 ^ 33, ([] : List Float)⟩ = none := by
  intro m a b
  have hroom : m.room? (2 ^ 33 * 2 ^ 33) = some 0 := by decide
  refine ⟨by decide, by decide, ?_, ?_, ?_, Buffer.transpose?_of_lt (by decide) (by decide)⟩
  · exact transpose?_buffer ⟨2 ^ 33, 0, ⟨#v[]⟩⟩ (by decide)
  · exact transpose?_buffer ⟨0, 2 ^ 33, ⟨#v[]⟩⟩ (by decide)
  · rw [Buffer.mul?, if_neg fun hne ↦ hne rfl, Buffer.zeros?, hroom]
    rfl

end Table

end MatrixScript
