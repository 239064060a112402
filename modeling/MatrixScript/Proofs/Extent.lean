import MatrixScript.Proofs.BufferElimination
import MatrixScript.Proofs.Builtin
import MatrixScript.Proofs.Joining
import MatrixScript.Proofs.Shape

/-!
# How large values get

A value is **solid** if it is a scalar or a matrix with at least one row and one column. It is
**within** `d` if, besides, a matrix has at most `d` rows and `d` columns. The value of a literal is
within its length, since every row and every cell takes a character (`Literal.within_of_read`), and
the standard builtins make values within `d` of such values (`Builtin.within_of_call`). So the
longest line of a script bounds all matrices that come up in it.

On a machine there has to be memory for the rows of a literal, and builtins work on the cells in
memory. A builtin comes to the same there if there is room for `d` times `d` cells and its operands
are within `d` (`Builtin.fitsOn_of_mem_standard`).
-/

namespace MatrixScript

/-! ### Values and their dimensions -/

/-- At least one row and one column, and not more than `d` of either. -/
def Shape.Within (d : Nat) : Shape → Prop
  | scalar => True
  | matrix rows cols => (0 < rows ∧ 0 < cols) ∧ rows ≤ d ∧ cols ≤ d

/-- A scalar, or a matrix that has a cell and as many cells as its dimensions say. -/
def Value.Solid : Value → Prop
  | scalar _ => True
  | matrix t => t.buffer.WellFormed ∧ 0 < t.rows ∧ 0 < t.cols

instance : DecidablePred Value.Solid
  | .scalar _ => isTrue trivial
  | .matrix t => inferInstanceAs
      (Decidable (t.buffer.data.length = t.buffer.rows * t.buffer.cols ∧ 0 < t.rows ∧ 0 < t.cols))

/-- The value is solid and has at most `d` rows and columns. -/
def Value.Within (d : Nat) (v : Value) : Prop :=
  v.shape.Within d

theorem Value.Within.mono {d d' : Nat} {v : Value} (h : v.Within d) (hd : d ≤ d') :
    v.Within d' := by
  rcases v with x | t
  · trivial
  · exact ⟨h.1, h.2.1.trans hd, h.2.2.trans hd⟩

theorem Value.Within.solid {d : Nat} {v : Value} (h : v.Within d) : v.Solid := by
  rcases v with x | t
  · trivial
  · exact ⟨Buffer.wellFormed_iff.2 ⟨t, rfl⟩, h.1⟩

/-- A matrix that is within a number whose square is below the capacity of a machine is held by the
machine, which even has a size for one more column than there are rows. -/
theorem Value.Within.holds {m : Machine} {d : Nat} (hm : d * d < m.capacity) {t : Table Float}
    (h : (Value.matrix t).Within d) : m.Holds t.rows t.cols ∧ t.rows + 1 < m.sizes := by
  obtain ⟨⟨hrows, -⟩, hrows', hcols'⟩ := h
  have hd : d ≤ d * d := Nat.le_mul_of_pos_left d (hrows.trans_le hrows')
  have hcells : t.rows * t.cols ≤ d * d := Nat.mul_le_mul hrows' hcols'
  have hcapacity : m.capacity = m.sizes / 16 := rfl
  exact ⟨⟨by omega, by omega, hcells.trans_lt hm⟩, by omega⟩

/-! ### Literals -/

namespace Literal

/-- The numbers in a matrix, row by row, if the text is written like one and all its cells are
numbers. -/
def numbers? (text : String) : Option (List (List Float)) :=
  match text.toList with
  | '[' :: rest => do
    let body ← beforeBracket? rest
    ((cells body).mapM fun (row : List (List Char)) ↦ row.mapM readNumber).toOption
  | _ => none

/-- Reads a literal on a machine. For a matrix it asks for memory for as many rows as there are, all
of them as long as the first one, before it looks at the other rows. -/
def readOn? (m : Machine) (text : String) : Option (Except Error Value) :=
  match numbers? text with
  | none => some (read text)
  | some rows => (m.room? (rows.length * (rows.head?.getD []).length)).map fun _ ↦ read text

/-- Every row and every cell takes a character. -/
theorem length_le_of_numbers? {text : String} {rows : List (List Float)}
    (h : numbers? text = some rows) :
    rows.length ≤ text.length ∧ ∀ row ∈ rows, row.length ≤ text.length := by
  unfold numbers? at h
  split at h
  · next rest htext =>
    obtain ⟨body, hbody, hrows⟩ := Option.bind_eq_some_iff.1 h
    rw [toOption_eq_some_iff, mapM_eq_ok_iff] at hrows
    have hlength : body.length + 1 ≤ text.length := by
      obtain ⟨-, hsome⟩ := Option.ite_none_right_eq_some.1 hbody
      obtain rfl := Option.some.inj hsome
      rw [← String.length_toList, htext, List.length_dropLast, List.length_cons]
      omega
    refine ⟨?_, ?_⟩
    · have hcount := Text.length_pieces_le (· == ';') body
      rw [← hrows.length_eq, cells, List.length_map]
      omega
    · have hcells : ∀ row ∈ cells body, row.length ≤ text.length := by
        intro row hrow
        obtain ⟨p, hp, rfl⟩ := List.mem_map.1 hrow
        have hcount := Text.length_pieces_le (· == ',') p
        have hpiece := Text.length_le_of_mem_pieces hp
        omega
      have hnumbers : List.Forall₂ (fun row _ ↦ row.length ≤ text.length) rows (cells body) :=
        ((List.forall₂_and_left _ _).2 ⟨hcells, hrows⟩).flip.imp fun row row' hrow ↦
          (mapM_eq_ok_iff.1 hrow.2).length_eq ▸ hrow.1
      intro row hrow
      exact (exists_of_forall₂ hnumbers row hrow).elim fun _ ↦ id
  · cases h

/-- The numbers in a matrix are the rows of its value. -/
theorem numbers?_of_read {text : String} {t : Table Float} (h : read text = .ok (.matrix t)) :
    numbers? text = some t.grid.toRows ∧ 0 < t.rows ∧ 0 < t.cols := by
  unfold read at h
  split at h
  · next rest htext =>
    obtain ⟨t', ht, heq⟩ := map_eq_ok_iff.1 h
    obtain rfl := Value.matrix.inj heq
    rw [readMatrix] at ht
    rcases hbody : beforeBracket? rest with _ | body
    · rw [hbody] at ht
      cases ht
    · rw [hbody] at ht
      obtain ⟨rows, hrows, hmade⟩ := bind_eq_ok_iff.1 ht
      obtain ⟨rfl, hpos⟩ := Table.ofRows_eq_ok_iff.1 (mapError_eq_ok_iff.1 hmade)
      refine ⟨?_, hpos⟩
      rw [numbers?, htext]
      show (beforeBracket? rest).bind _ = _
      rw [hbody]
      exact toOption_eq_some_iff.2 hrows
  · obtain ⟨x, -, heq⟩ := map_eq_ok_iff.1 h
    cases heq

/-- **Literals have solid values, no larger than they are long.** -/
theorem within_of_read {text : String} {v : Value} {d : Nat} (h : read text = .ok v)
    (hd : text.length ≤ d) : v.Within d := by
  rcases v with x | t
  · trivial
  · obtain ⟨hnumbers, hrows, hcols⟩ := numbers?_of_read h
    obtain ⟨hcount, hlength⟩ := length_le_of_numbers? hnumbers
    rw [t.grid.length_toRows] at hcount
    obtain ⟨row, hrow⟩ := List.exists_mem_of_ne_nil _ (t.grid.toRows_ne_nil hrows)
    have hwidth := hlength row hrow
    rw [t.grid.length_of_mem_toRows row hrow] at hwidth
    exact ⟨⟨hrows, hcols⟩, hcount.trans hd, hwidth.trans hd⟩

/-- A machine has room for the literals that are not too long. -/
theorem readOn?_eq {m : Machine} {d : Nat} (hm : d * d < m.capacity) {text : String}
    (h : text.length ≤ d) : readOn? m text = some (read text) := by
  rw [readOn?]
  rcases hnumbers : numbers? text with _ | rows
  · rfl
  · obtain ⟨hcount, hlength⟩ := length_le_of_numbers? hnumbers
    have hfirst : (rows.head?.getD []).length ≤ d := by
      rcases rows with _ | ⟨row, rest⟩
      · exact Nat.zero_le d
      · exact (hlength row List.mem_cons_self).trans h
    have hroom := Machine.room?_of_lt ((Nat.mul_le_mul (hcount.trans h) hfirst).trans_lt hm)
    show (m.room? (rows.length * (rows.head?.getD []).length)).map _ = _
    rw [hroom]
    rfl

end Literal

/-! ### Shapes of results -/

namespace Table

variable {α : Type}

theorem ofCells?_buffer (t : Table α) :
    ofCells? t.buffer.rows t.buffer.cols t.buffer.data = some t :=
  dif_pos (Buffer.wellFormed_iff.2 ⟨t, rfl⟩)

variable [Arith α] {s t u : Table α}

theorem shapes_of_add (h : s.add t = .ok u) : s.shape = t.shape ∧ u.shape = s.shape := by
  unfold add at h
  split at h
  · next hshape =>
    cases h
    exact ⟨(Prod.ext hshape.1 hshape.2).symm, rfl⟩
  · cases h

theorem shapes_of_mul (h : s.mul t = .ok u) : s.cols = t.rows ∧ u.shape = (s.rows, t.cols) := by
  unfold mul at h
  split at h
  · next hshape =>
    cases h
    exact ⟨hshape.symm, rfl⟩
  · cases h

theorem shapes_of_solve (h : t.solve = .ok u) : t.cols = t.rows + 1 ∧ u.shape = (t.rows, 1) := by
  unfold solve at h
  split at h
  · next hshape =>
    split at h
    · cases h
      exact ⟨hshape, rfl⟩
    · cases h
  · cases h

end Table

/-! ### Builtins on a machine -/

namespace Builtin

/-- What the standard builtin of the given name makes of matrices in the memory of a machine that
has the given number of workers, if it makes a matrix of its operands. -/
def cellsOn? (m : Machine) (workers : Nat) : String → List Value → Option (Option (Buffer Float))
  | "MAT_ADD", [.matrix s, .matrix t] => (s.buffer.add? t.buffer).map Except.toOption
  | "SCAL_MUL", [.scalar x, .matrix t] => (t.buffer.scale? x).map Except.toOption
  | "MAT_MUL", [.matrix s, .matrix t] => (s.buffer.mul? m workers t.buffer).map Except.toOption
  | "TRAN", [.matrix t] => (t.buffer.transpose? m).map Except.toOption
  | "SOLVE", [.matrix t] => (t.buffer.solve? m).map Except.toOption
  | _, _ => some none

/-- Calls a builtin on a machine. The matrix that it makes has to be well formed. -/
def callOn? (m : Machine) (workers : Nat) (b : Builtin) (operands : List Value) (line : Nat) :
    Option (Except Diagnostic Value) :=
  (cellsOn? m workers b.name operands).bind fun
    | none => some (b.call operands line)
    | some out => (Table.ofCells? out.rows out.cols out.data).map fun t ↦ .ok (.matrix t)

/-- A builtin comes to the same on a machine for operands within `d`, and its results are within `d`
as well. -/
structure FitsOn (m : Machine) (workers d : Nat) (b : Builtin) : Prop where
  callOn?_eq : ∀ (operands : List Value) (line : Nat), (∀ v ∈ operands, v.Within d) →
    b.callOn? m workers operands line = some (b.call operands line)
  within : ∀ (operands : List Value) (line : Nat) (v : Value), (∀ w ∈ operands, w.Within d) →
    b.call operands line = .ok v → v.Within d

/-- Signatures lead from shapes within `d` to such shapes. -/
theorem within_of_signature? {d : Nat} {name : String} {shapes : List Shape} {shape : Shape}
    (h : signature? name shapes = some shape) (hshapes : ∀ x ∈ shapes, x.Within d) :
    shape.Within d := by
  -- one case for each signature: rows and columns of the result are those of operands
  unfold signature? at h
  split at h
  · cases h
    trivial
  · cases h
    trivial
  · obtain ⟨-, h⟩ := Option.ite_none_right_eq_some.1 h
    cases h
    exact hshapes _ List.mem_cons_self
  · cases h
    exact hshapes _ (List.mem_cons_of_mem _ List.mem_cons_self)
  · obtain ⟨-, h⟩ := Option.ite_none_right_eq_some.1 h
    cases h
    obtain ⟨⟨hrows, -⟩, hrows', -⟩ := hshapes _ List.mem_cons_self
    obtain ⟨⟨-, hcols⟩, -, hcols'⟩ := hshapes _ (List.mem_cons_of_mem _ List.mem_cons_self)
    exact ⟨⟨hrows, hcols⟩, hrows', hcols'⟩
  · cases h
    obtain ⟨hpos, hle⟩ := hshapes _ List.mem_cons_self
    exact ⟨hpos.symm, hle.symm⟩
  · obtain ⟨-, h⟩ := Option.ite_none_right_eq_some.1 h
    cases h
    obtain ⟨⟨hrows, -⟩, hrows', -⟩ := hshapes _ List.mem_cons_self
    exact ⟨⟨hrows, Nat.one_pos⟩, hrows', hrows.trans_le hrows'⟩
  · cases h

/-- The standard builtins make values within `d` of such values. -/
theorem within_of_call {d : Nat} {b : Builtin} (hb : b ∈ standard) {operands : List Value}
    {line : Nat} {v : Value} (hoperands : ∀ w ∈ operands, w.Within d)
    (hcall : b.call operands line = .ok v) : v.Within d := by
  obtain ⟨hcount, -⟩ := call_eq_ok_iff.1 hcall
  have hmeets := meets_of_mem_standard hb operands line (checkCount_eq_ok_iff.1 hcount)
  rw [mapError_eq_ok_iff.2 hcall, foreseen_ok_iff] at hmeets
  exact within_of_signature? hmeets (List.forall_mem_map.2 hoperands)

theorem find?_standard {b : Builtin} (hb : b ∈ standard) {name : String} (hname : b.name = name) :
    standard.find? (·.name = name) = some b := by
  subst hname
  simp only [standard, List.mem_cons, List.not_mem_nil, or_false] at hb
  obtain rfl | rfl | rfl | rfl | rfl | rfl | rfl := hb <;> rfl

section

variable {m : Machine} {workers : Nat} {b : Builtin} {operands : List Value} {line : Nat}

theorem addMatrices_of_add {s t u : Table Float} (h : s.add t = .ok u) :
    addMatrices [.matrix s, .matrix t] = .ok (.matrix u) := by
  simp only [addMatrices, Value.toTable, bind, Except.bind, (Table.shapes_of_add h).1, ne_eq,
    not_true_eq_false, if_false, h]
  rfl

theorem mulMatrices_of_mul {s t u : Table Float} (h : s.mul t = .ok u) :
    mulMatrices [.matrix s, .matrix t] = .ok (.matrix u) := by
  simp only [mulMatrices, Value.toTable, bind, Except.bind, (Table.shapes_of_mul h).1, ne_eq,
    not_true_eq_false, if_false, h]
  rfl

theorem solveSystem_of_solve {t u : Table Float} (h : t.solve = .ok u) :
    solveSystem [.matrix t] = .ok (.matrix u) := by
  simp only [solveSystem, Value.toTable, bind, Except.bind, (Table.shapes_of_solve h).1, ne_eq,
    not_true_eq_false, if_false, h]
  rfl

/-- A matrix is made in memory by the cells of a result of `computed`, which is one of the
operations on tables. -/
theorem exists_made {computed : Option (Except Table.Error (Buffer Float))}
    (result : Except Table.Error (Table Float)) (h : computed = some (result.map Table.buffer))
    (hcall : ∀ u, result = .ok u → b.call operands line = .ok (.matrix u)) :
    ∃ made : Option (Table Float), computed.map Except.toOption = some (made.map Table.buffer) ∧
      ∀ u ∈ made, b.call operands line = .ok (.matrix u) := by
  subst h
  refine ⟨result.toOption, ?_, fun u hu ↦ hcall u (toOption_eq_some_iff.1 hu)⟩
  cases result with
  | error e => rfl
  | ok u => rfl

/-- The standard builtins have room for what they make of operands that are within `d`, on a machine
with room for `d` times `d` cells. -/
theorem exists_cellsOn?_eq (line : Nat) {d : Nat} (hm : d * d < m.capacity) (hworkers : 0 < workers)
    (hb : b ∈ standard) (hoperands : ∀ v ∈ operands, v.Within d) :
    ∃ made : Option (Table Float),
      cellsOn? m workers b.name operands = some (made.map Table.buffer) ∧
        ∀ u ∈ made, b.call operands line = .ok (.matrix u) := by
  -- one case for each builtin that makes a matrix, and one for all the rest
  unfold cellsOn?
  split
  · next s t hname =>
    obtain rfl := Option.some.inj (find?_standard hb hname)
    exact exists_made _ (s.add?_buffer t) fun u hu ↦
      call_ofFunction_eq_ok rfl (addMatrices_of_add hu) rfl
  · next x t hname =>
    obtain rfl := Option.some.inj (find?_standard hb hname)
    refine exists_made (.ok (t.scale x)) (t.scale?_buffer x) fun u hu ↦ ?_
    cases hu
    exact call_ofFunction_eq_ok rfl rfl rfl
  · next s t hname =>
    obtain rfl := Option.some.inj (find?_standard hb hname)
    obtain ⟨hs, -⟩ := (hoperands _ List.mem_cons_self).holds hm
    obtain ⟨ht, -⟩ := (hoperands _ (List.mem_cons_of_mem _ List.mem_cons_self)).holds hm
    have hsettles := Table.mul?_settles hs ht hworkers
    have hroom : s.mulOn? m t = some (s.mul t) := by
      have hrows := (hoperands _ List.mem_cons_self).2.1
      have hcols := (hoperands _ (List.mem_cons_of_mem _ List.mem_cons_self)).2.2
      exact if_neg fun h ↦ h.2.not_gt ((Nat.mul_le_mul hrows hcols).trans_lt hm)
    rw [hroom] at hsettles
    exact exists_made _ hsettles fun u hu ↦ call_ofFunction_eq_ok rfl (mulMatrices_of_mul hu) rfl
  · next t hname =>
    obtain rfl := Option.some.inj (find?_standard hb hname)
    obtain ⟨ht, -⟩ := (hoperands _ List.mem_cons_self).holds hm
    refine exists_made (.ok t.transpose) (t.transpose?_buffer ht.cells_lt) fun u hu ↦ ?_
    cases hu
    exact call_ofFunction_eq_ok rfl rfl rfl
  · next t hname =>
    obtain rfl := Option.some.inj (find?_standard hb hname)
    obtain ⟨ht, hwidth⟩ := (hoperands _ List.mem_cons_self).holds hm
    exact exists_made _ (t.solve?_buffer ht hwidth) fun u hu ↦
      call_ofFunction_eq_ok rfl (solveSystem_of_solve hu) rfl
  · exact ⟨none, rfl, nofun⟩

/-- **The standard builtins come to the same on a machine** with room for `d` times `d` cells, as
long as their operands are within `d`. -/
theorem fitsOn_of_mem_standard {d : Nat} (hm : d * d < m.capacity) (hworkers : 0 < workers)
    (hb : b ∈ standard) : b.FitsOn m workers d where
  callOn?_eq operands line hoperands := by
    obtain ⟨made, hcells, hcall⟩ := exists_cellsOn?_eq line hm hworkers hb hoperands
    rw [callOn?, hcells, Option.bind_some]
    cases made with
    | none => rfl
    | some u =>
      show (Table.ofCells? u.buffer.rows u.buffer.cols u.buffer.data).map _ = _
      rw [u.ofCells?_buffer, hcall u rfl]
      rfl
  within _ _ _ hoperands hcall := within_of_call hb hoperands hcall

end

end Builtin

end MatrixScript
