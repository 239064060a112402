import MatrixScript.Proofs.Argument
import MatrixScript.Proofs.Buffer
import MatrixScript.Proofs.Numeral

/-!
# Matrices as texts

A matrix is written from the texts of its cells: the cells of a row with commas between them, the
rows with semicolons between them, and brackets around everything (`matrixText`). Reading cuts a
text at these characters and so gets the cells back (`cells_bodyOf`); every text between
brackets is written from some cells (`exists_hasCells`). What remains is what the cells are and how
long the rows are, and reading asks this in a fixed order: first whether all cells are numbers, from
the first row to the last, and only then whether the rows are of one length.

So a text with an opening bracket meets one of four conditions, and each of them has its outcome
(`Outcome`). Reading comes to it (`read_eq_unclosed`, `read_eq_notNumber`, `read_eq_ragged`,
`read_eq_matrix`), and to no other one (`outcome_iff`). The main theorem, `read_decides_matrices`,
says this for each kind of result.
-/

namespace MatrixScript

/-- **The first row that is not as long as the first one of all is reported.** -/
theorem Table.ofRows_eq_ragged {α : Type} {rows before : List (List α)} {first row : List α}
    (hfirst : rows.head? = some first) (hne : first ≠ [])
    (h : FirstFailure (fun r ↦ r.length = first.length) rows before row) :
    ofRows rows = .error (.ragged (before.length + 1) first.length row.length) := by
  obtain ⟨⟨after, rfl⟩, hbefore, hrow⟩ := h
  have hragged : ¬ ∀ r ∈ before ++ row :: after, r.length = first.length :=
    fun h ↦ hrow (h row (by simp))
  have hindex : (before ++ row :: after).findIdx (fun r ↦ r.length ≠ first.length) =
      before.length := by
    have hnone : before.findIdx (fun r ↦ r.length ≠ first.length) = before.length := by
      rw [List.findIdx_eq_length]
      intro r hr
      simpa using hbefore r hr
    rw [List.findIdx_append, hnone, if_neg (Nat.lt_irrefl _), List.findIdx_cons]
    simp [hrow]
  simp only [ofRows, hfirst, Option.getD_some]
  rw [if_neg (by simpa using hne), dif_neg hragged, hindex]
  simp

/-! ### Cells -/

namespace Literal

open Number

/-- The text of a matrix with the given cells. -/
def matrixText (rows : List (List String)) : String :=
  "[" ++ ";".intercalate (rows.map ",".intercalate) ++ "]"

/-- A text is written from rows of cells. There is a row, and every row has a cell. -/
structure HasCells (text : String) (rows : List (List String)) : Prop where
  text_eq : text = matrixText rows
  ne_nil : rows ≠ []
  row_ne_nil : ∀ row ∈ rows, row ≠ []

/-- A cell that has no character in it that divides cells or rows. -/
def Undivided (cell : String) : Prop :=
  ',' ∉ cell.toList ∧ ';' ∉ cell.toList

/-- The text between the brackets. -/
def bodyOf (rows : List (List String)) : List Char :=
  List.intercalate [';'] (rows.map fun row ↦ List.intercalate [','] (row.map String.toList))

theorem toList_matrixText (rows : List (List String)) :
    (matrixText rows).toList = '[' :: (bodyOf rows ++ [']']) := by
  have hrows : (rows.map ",".intercalate).map String.toList =
      rows.map fun row ↦ List.intercalate [','] (row.map String.toList) := by
    rw [List.map_map]
    exact List.map_congr_left fun row _ ↦ String.toList_intercalate
  rw [matrixText, String.toList_append, String.toList_append, String.toList_intercalate, hrows]
  rfl

/-- **Cutting gives the cells back** that a matrix has been written from. -/
theorem cells_bodyOf {rows : List (List String)} (hne : rows ≠ [])
    (hrow : ∀ row ∈ rows, row ≠ []) (hcell : ∀ cell ∈ rows.flatten, Undivided cell) :
    cells (bodyOf rows) = rows.map (·.map String.toList) := by
  have hcomma : ∀ row ∈ rows, ∀ p ∈ row.map String.toList, ∀ c ∈ p, (c == ',') = false := by
    intro row hmem p hp c hc
    obtain ⟨cell, hin, rfl⟩ := List.mem_map.1 hp
    rw [beq_eq_false_iff_ne]
    rintro rfl
    exact (hcell cell (List.mem_flatten_of_mem hmem hin)).1 hc
  have hsemicolon : ∀ p ∈ rows.map fun row ↦ List.intercalate [','] (row.map String.toList),
      ∀ c ∈ p, (c == ';') = false := by
    intro p hp c hc
    obtain ⟨row, hmem, rfl⟩ := List.mem_map.1 hp
    rw [beq_eq_false_iff_ne]
    rintro rfl
    obtain hdivider | ⟨q, hq, hc⟩ := mem_intercalate hc
    · exact absurd hdivider (by decide)
    · obtain ⟨cell, hin, rfl⟩ := List.mem_map.1 hq
      exact (hcell cell (List.mem_flatten_of_mem hmem hin)).2 hc
  have hpieces : Text.pieces (· == ';') (bodyOf rows) =
      rows.map fun row ↦ List.intercalate [','] (row.map String.toList) := by
    obtain ⟨first, others, rfl⟩ := List.exists_cons_of_ne_nil hne
    exact Text.pieces_intercalate (by decide) hsemicolon
  rw [cells, hpieces, List.map_map]
  refine List.map_congr_left fun row hmem ↦ ?_
  obtain ⟨first, others, rfl⟩ := List.exists_cons_of_ne_nil (hrow row hmem)
  exact Text.pieces_intercalate (by decide) (hcomma _ hmem)

/-- Joining the cells of a text gives the text. -/
theorem bodyOf_cells (body : List Char) :
    bodyOf ((cells body).map (·.map String.ofList)) = body := by
  have hrow : ∀ p : List Char, List.intercalate [',']
      (((Text.pieces (· == ',') p).map String.ofList).map String.toList) = p := by
    intro p
    have hcells : ((Text.pieces (· == ',') p).map String.ofList).map String.toList =
        Text.pieces (· == ',') p := by
      rw [List.map_map]
      exact (List.map_congr_left fun c _ ↦ String.toList_ofList).trans (List.map_id _)
    rw [hcells]
    exact Text.intercalate_pieces (fun x hx ↦ beq_iff_eq.1 hx) p
  have hrows : ((cells body).map (·.map String.ofList)).map
      (fun row ↦ List.intercalate [','] (row.map String.toList)) =
        Text.pieces (· == ';') body := by
    rw [cells, List.map_map, List.map_map]
    exact (List.map_congr_left fun p _ ↦ hrow p).trans (List.map_id _)
  rw [bodyOf, hrows]
  exact Text.intercalate_pieces (fun x hx ↦ beq_iff_eq.1 hx) body

/-- Every text between brackets is written from cells that cannot be divided further. -/
theorem exists_hasCells (body : String) :
    ∃ rows, HasCells ("[" ++ body ++ "]") rows ∧ ∀ cell ∈ rows.flatten, Undivided cell := by
  let rows := (cells body.toList).map (·.map String.ofList)
  have hrows : ∀ row ∈ rows, ∃ p ∈ Text.pieces (· == ';') body.toList,
      row = (Text.pieces (· == ',') p).map String.ofList := by
    intro row hrow
    obtain ⟨q, hq, rfl⟩ := List.mem_map.1 hrow
    obtain ⟨p, hp, rfl⟩ := List.mem_map.1 hq
    exact ⟨p, hp, rfl⟩
  refine ⟨rows, ⟨?_, ?_, fun row hrow ↦ ?_⟩, fun cell hcell ↦ ?_⟩
  · rw [← String.toList_inj, toList_matrixText, bodyOf_cells, String.toList_append,
      String.toList_append]
    rfl
  · simpa [rows, cells] using Text.pieces_ne_nil _ _
  · obtain ⟨p, -, rfl⟩ := hrows row hrow
    simpa using Text.pieces_ne_nil _ p
  · obtain ⟨row, hrow, hcell⟩ := List.mem_flatten.1 hcell
    obtain ⟨p, hp, rfl⟩ := hrows row hrow
    obtain ⟨q, hq, rfl⟩ := List.mem_map.1 hcell
    -- a cell is a part of its row, so it has no semicolon either
    have hpart : q <:+: p := by
      rw [← Text.intercalate_pieces (fun x hx ↦ beq_iff_eq.1 hx) p]
      exact isInfix_intercalate hq
    rw [Undivided, String.toList_ofList]
    refine ⟨fun hmem ↦ ?_, fun hmem ↦ ?_⟩
    · exact absurd (Text.isSeparator_of_mem_pieces hq hmem) (by decide)
    · exact absurd (Text.isSeparator_of_mem_pieces hp (hpart.subset hmem)) (by decide)

/-! ### Reading the cells -/

theorem readNumber_of_isNumber {cs : List Char} {x : Float} (h : IsNumber cs x) :
    readNumber cs = .ok x := by
  rw [readNumber, read?_eq_some_iff.2 h]

theorem readNumber_of_not_isNumber {cs : List Char} (h : ¬ ∃ x, IsNumber cs x) :
    readNumber cs = .error (.notNumber (String.ofList cs)) := by
  have hread : Number.read? cs = none := by
    rw [Option.eq_none_iff_forall_ne_some]
    exact fun x hx ↦ h ⟨x, read?_eq_some_iff.1 hx⟩
  rw [readNumber, hread]

theorem readNumber_eq_ok_iff {cs : List Char} {x : Float} :
    readNumber cs = .ok x ↔ IsNumber cs x := by
  refine ⟨fun h ↦ ?_, readNumber_of_isNumber⟩
  by_cases hx : ∃ y, IsNumber cs y
  · obtain ⟨y, hy⟩ := hx
    rw [readNumber_of_isNumber hy] at h
    exact Except.ok.inj h ▸ hy
  · rw [readNumber_of_not_isNumber hx] at h
    cases h

/-- A number has no character that divides cells or rows. -/
theorem undivided_of_isNumber {cell : String} {x : Float} (h : IsNumber cell.toList x) :
    Undivided cell := by
  have hneutral := neutral_of_read? (read?_eq_some_iff.2 h)
  exact ⟨fun hmem ↦ hneutral _ hmem (by decide), fun hmem ↦ hneutral _ hmem (by decide)⟩

/-- The numbers in rows of cells. -/
def readRows (rows : List (List String)) : Except Error (List (List Float)) :=
  rows.mapM fun row ↦ row.mapM fun cell ↦ readNumber cell.toList

theorem readRows_eq_ok_iff {rows : List (List String)} {xss : List (List Float)} :
    readRows rows = .ok xss ↔
      List.Forall₂ (List.Forall₂ fun cell x ↦ IsNumber cell.toList x) rows xss := by
  simp only [readRows, mapM_eq_ok_iff, readNumber_eq_ok_iff]

/-- The first cell that is not a number is reported. -/
theorem readRows_eq_error {rows : List (List String)} {before : List String} {cell : String}
    (h : FirstFailure (fun c : String ↦ ∃ x, IsNumber c.toList x) rows.flatten before cell) :
    readRows rows = .error (.notNumber cell) := by
  rw [readRows, mapM_mapM_eq_error_iff]
  refine mapM_eq_error (by simpa only [readNumber_eq_ok_iff] using h) ?_
  rw [readNumber_of_not_isNumber h.fails, String.ofList_toList]

/-- Reading a text that is written from cells is reading the cells. -/
theorem HasCells.read_eq {text : String} {rows : List (List String)} (h : HasCells text rows)
    (hcell : ∀ cell ∈ rows.flatten, Undivided cell) :
    read text =
      (readRows rows >>= fun xss ↦ (Table.ofRows xss).mapError .shape).map .matrix := by
  have htext : text.toList = '[' :: (bodyOf rows ++ [']']) := by
    rw [h.text_eq, toList_matrixText]
  have hbody : beforeBracket? (bodyOf rows ++ [']']) = some (bodyOf rows) := by
    rw [beforeBracket?, List.getLast?_concat, if_pos rfl, List.dropLast_concat]
  have hrows : (rows.map (·.map String.toList)).mapM (List.mapM readNumber) = readRows rows := by
    rw [List.mapM_map]
    exact congrArg (rows.mapM ·) (funext fun row ↦ List.mapM_map)
  rw [read, htext]
  show (readMatrix (bodyOf rows ++ [']'])).map Value.matrix = _
  rw [readMatrix, hbody]
  show ((cells (bodyOf rows)).mapM (List.mapM readNumber) >>= _).map _ = _
  rw [cells_bodyOf h.ne_nil h.row_ne_nil hcell, hrows]

/-! ### The outcomes -/

/-- Rows of cells have the numbers of a table: as many rows, as many cells in each of them, and at
every place the number that stands there. -/
structure Gives (rows : List (List String)) (t : Table Float) : Prop where
  length_eq : rows.length = t.rows
  entries : ∀ i : Fin t.rows, ∃ row, rows[i.val]? = some row ∧ row.length = t.cols ∧
    ∀ j : Fin t.cols, ∃ cell, row[j.val]? = some cell ∧ IsNumber cell.toList (t.grid.get i j)

/-- Cells give a table if they are the numbers of its rows, one by one. -/
theorem gives_iff {rows : List (List String)} {t : Table Float} :
    Gives rows t ↔
      List.Forall₂ (List.Forall₂ fun cell x ↦ IsNumber cell.toList x) rows t.grid.toRows := by
  have hrow : ∀ (row : List String) (i : Fin t.rows),
      List.Forall₂ (fun cell x ↦ IsNumber cell.toList x) row (t.grid.row i) ↔
        row.length = t.cols ∧ ∀ j : Fin t.cols, ∃ cell, row[j.val]? = some cell ∧
          IsNumber cell.toList (t.grid.get i j) := by
    intro row i
    rw [Grid.row, List.forall₂_map_right_iff, forall₂_finRange_iff]
  rw [Grid.toRows, List.forall₂_map_right_iff, forall₂_finRange_iff]
  simp only [hrow]
  exact ⟨fun h ↦ ⟨h.length_eq, h.entries⟩, fun h ↦ ⟨h.1, h.2⟩⟩

section Outcomes

variable {text : String} {rows : List (List String)}

/-- A text with an opening bracket and without a closing one. -/
theorem read_eq_unclosed (hstart : text.toList.head? = some '[')
    (hclosed : ¬ ∃ body, text = "[" ++ body ++ "]") : read text = .error (.unclosed text) := by
  obtain ⟨rest, htext⟩ := List.head?_eq_some_iff.1 hstart
  have hlast : rest.getLast? ≠ some ']' := by
    intro hlast
    have hrest : rest = rest.dropLast ++ [']'] := (List.dropLast_append_getLast? _ hlast).symm
    have hbody : (String.ofList rest.dropLast).toList = rest.dropLast := String.toList_ofList
    refine hclosed ⟨String.ofList rest.dropLast, ?_⟩
    rw [← String.toList_inj, htext, String.toList_append, String.toList_append, hbody]
    exact congrArg ('[' :: ·) hrest
  have hwhole : String.ofList ('[' :: rest) = text := by rw [← htext, String.ofList_toList]
  rw [read, htext]
  show (readMatrix rest).map Value.matrix = _
  rw [readMatrix, beforeBracket?, if_neg hlast, hwhole]
  rfl

/-- A text with a cell that is not a number, where all cells before it are numbers. -/
theorem read_eq_notNumber (h : HasCells text rows)
    (hcell : ∀ cell ∈ rows.flatten, Undivided cell) {before : List String} {cell : String}
    (hbad : FirstFailure (fun c : String ↦ ∃ x, IsNumber c.toList x) rows.flatten before cell) :
    read text = .error (.notNumber cell) := by
  rw [h.read_eq hcell, readRows_eq_error hbad]
  rfl

/-- Cells that are numbers can be read. -/
theorem HasCells.read_eq_of_forall₂ (h : HasCells text rows) {xss : List (List Float)}
    (hxss : List.Forall₂ (List.Forall₂ fun cell x ↦ IsNumber cell.toList x) rows xss) :
    read text = ((Table.ofRows xss).mapError Error.shape).map .matrix := by
  have hcell : ∀ cell ∈ rows.flatten, Undivided cell := by
    intro cell hcell
    obtain ⟨row, hrow, hcell⟩ := List.mem_flatten.1 hcell
    obtain ⟨xs, hxs⟩ := exists_of_forall₂ hxss row hrow
    obtain ⟨x, hx⟩ := exists_of_forall₂ hxs cell hcell
    exact undivided_of_isNumber hx
  rw [h.read_eq hcell, readRows_eq_ok_iff.2 hxss]
  rfl

/-- There are as many numbers in every row as there are cells. -/
theorem map_length_eq {xss : List (List Float)}
    (hxss : List.Forall₂ (List.Forall₂ fun cell x ↦ IsNumber cell.toList x) rows xss) :
    xss.map List.length = rows.map List.length := by
  have hrows : List.Forall₂ (fun row xs ↦ xs.length = row.length) rows xss :=
    hxss.imp fun _ _ hrow ↦ hrow.length_eq.symm
  rw [← List.forall₂_eq_eq_eq, List.forall₂_map_left_iff, List.forall₂_map_right_iff]
  exact hrows.flip

/-- A text of numbers with a row that is not as long as the first one. -/
theorem read_eq_ragged (h : HasCells text rows)
    (hnumbers : ∀ cell ∈ rows.flatten, ∃ x, IsNumber cell.toList x) {before : List (List String)}
    {first row : List String} (hfirst : rows.head? = some first)
    (hragged : FirstFailure (fun r ↦ r.length = first.length) rows before row) :
    read text = .error (.shape (.ragged (before.length + 1) first.length row.length)) := by
  obtain ⟨xss, hxss⟩ := exists_forall₂ fun row hrow ↦
    exists_forall₂ fun cell hcell ↦ hnumbers cell (List.mem_flatten_of_mem hrow hcell)
  obtain ⟨xsBefore, xs, hxs, hbefore, hlength⟩ :=
    hragged.of_map_eq (P := (· = first.length)) (map_length_eq hxss)
  have hhead := congrArg List.head? (map_length_eq hxss)
  rw [List.head?_map, List.head?_map, hfirst] at hhead
  obtain ⟨xsFirst, hxsFirst, hwidth⟩ := Option.map_eq_some_iff.1 hhead
  have hne : xsFirst ≠ [] := by
    rw [← List.length_pos_iff, hwidth, List.length_pos_iff]
    exact h.row_ne_nil first (List.mem_of_mem_head? hfirst)
  rw [← hwidth] at hxs
  rw [h.read_eq_of_forall₂ hxss, Table.ofRows_eq_ragged hxsFirst hne hxs, hbefore, hwidth, hlength]
  rfl

/-- A text of numbers with rows of one length. -/
theorem read_eq_matrix (h : HasCells text rows) {t : Table Float} (ht : Gives rows t) :
    read text = .ok (.matrix t) := by
  have hrows : 0 < t.rows := ht.length_eq ▸ List.length_pos_iff.2 h.ne_nil
  obtain ⟨row, hrow, hlength, -⟩ := ht.entries ⟨0, hrows⟩
  have hcols : 0 < t.cols :=
    hlength ▸ List.length_pos_iff.2 (h.row_ne_nil row (List.mem_of_getElem? hrow))
  rw [h.read_eq_of_forall₂ (gives_iff.1 ht), Table.ofRows_eq_ok_iff.2 ⟨rfl, hrows, hcols⟩]
  rfl

end Outcomes

/-- What a text with an opening bracket comes to: an error, with its wording, or a matrix. -/
inductive Outcome (text : String) : Except Fault Value → Prop
  | unclosed (h : ¬ ∃ body, text = "[" ++ body ++ "]") :
    Outcome text (.error (.syntaxError s!"matrix literal '{text}' is missing its closing ']'"))
  | notNumber {rows : List (List String)} {before : List String} {cell : String}
    (h : HasCells text rows) (hcell : ∀ c ∈ rows.flatten, Undivided c)
    (hbad : FirstFailure (fun c : String ↦ ∃ x, IsNumber c.toList x) rows.flatten before cell) :
    Outcome text (.error (.syntaxError s!"'{cell}' is not a number"))
  | ragged {rows before : List (List String)} {first row : List String}
    (h : HasCells text rows) (hnumbers : ∀ c ∈ rows.flatten, ∃ x, IsNumber c.toList x)
    (hfirst : rows.head? = some first)
    (hrow : FirstFailure (fun r ↦ r.length = first.length) rows before row) :
    Outcome text (.error (.dimension
      s!"row {before.length + 1} has {row.length} entries but row 1 has {first.length}"))
  | matrix {rows : List (List String)} {t : Table Float} (h : HasCells text rows)
    (ht : Gives rows t) : Outcome text (.ok (.matrix t))

/-- Every text has an outcome. -/
theorem exists_outcome (text : String) : ∃ outcome, Outcome text outcome := by
  by_cases hclosed : ∃ body, text = "[" ++ body ++ "]"
  swap
  · exact ⟨_, .unclosed hclosed⟩
  obtain ⟨body, rfl⟩ := hclosed
  obtain ⟨rows, h, hcell⟩ := exists_hasCells body
  by_cases hnumbers : ∀ c ∈ rows.flatten, ∃ x, IsNumber c.toList x
  swap
  · obtain ⟨before, cell, hbad⟩ := exists_firstFailure hnumbers
    exact ⟨_, .notNumber h hcell hbad⟩
  obtain ⟨first, others, rfl⟩ := List.exists_cons_of_ne_nil h.ne_nil
  by_cases hlength : ∀ r ∈ first :: others, r.length = first.length
  swap
  · obtain ⟨before, row, hragged⟩ := exists_firstFailure hlength
    exact ⟨_, .ragged h hnumbers rfl hragged⟩
  -- numbers in rows of one length make a table
  obtain ⟨xss, hxss⟩ := exists_forall₂ fun row hrow ↦
    exists_forall₂ fun cell hcell ↦ hnumbers cell (List.mem_flatten_of_mem hrow hcell)
  have hne : xss ≠ [] := by
    rintro rfl
    cases hxss
  have hwidth : ∀ xs ∈ xss, xs.length = first.length := by
    intro xs hxs
    have hmem : xs.length ∈ (first :: others).map List.length :=
      map_length_eq hxss ▸ List.mem_map_of_mem hxs
    obtain ⟨row, hrow, heq⟩ := List.mem_map.1 hmem
    exact heq ▸ hlength row hrow
  have hpos : 0 < first.length :=
    List.length_pos_iff.2 (h.row_ne_nil first List.mem_cons_self)
  obtain ⟨t, ht⟩ := Table.exists_ofRows_eq_ok hne hpos hwidth
  have hgives : Gives (first :: others) t := by
    rwa [gives_iff, (Table.ofRows_eq_ok_iff.1 ht).1]
  exact ⟨_, .matrix h hgives⟩

/-- Reading comes to the outcome of a text. -/
theorem Outcome.read_eq {text : String} (hstart : text.toList.head? = some '[')
    {outcome : Except Fault Value} (h : Outcome text outcome) :
    (read text).mapError Error.fault = outcome := by
  cases h with
  | unclosed h =>
    rw [read_eq_unclosed hstart h]
    rfl
  | notNumber h hcell hbad =>
    rw [read_eq_notNumber h hcell hbad]
    rfl
  | ragged h hnumbers hfirst hrow =>
    rw [read_eq_ragged h hnumbers hfirst hrow]
    rfl
  | matrix h ht =>
    rw [read_eq_matrix h ht]
    rfl

theorem outcome_iff {text : String} (hstart : text.toList.head? = some '[')
    {outcome : Except Fault Value} :
    (read text).mapError Error.fault = outcome ↔ Outcome text outcome := by
  refine ⟨?_, fun h ↦ h.read_eq hstart⟩
  rintro rfl
  obtain ⟨outcome, h⟩ := exists_outcome text
  rwa [h.read_eq hstart]

end Literal

end MatrixScript
