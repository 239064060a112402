import MatrixScript.Proofs.Closest
import MatrixScript.Proofs.MatrixLiteral

/-!
# Printed values

A finite double is printed as a number of units of the last decimal place. Its text is a numeral of
just that many units (`Decimal.read?_writeUnits`), and the double that is read back need not be the
one that was printed. But it is the closest one to the units, so the printed double is no closer,
and what is no further away is rounded to the same units (`exists_read?_text`): reading and printing
again gives the text.

A table is printed with blanks and line feeds where a matrix has commas and semicolons, and there
are none of them in the texts of its entries (`literal_eq`). Values that have been printed can
therefore be read, and are printed alike: `read_printed`.
-/

namespace MatrixScript

namespace Number

/-! ### Reading units -/

namespace Decimal

theorem span_isDigit_append {ds rest : List Char} (hds : ∀ d ∈ ds, d.isDigit = true)
    (hrest : ∀ c ∈ rest.head?, ¬ c.isDigit = true) :
    (ds ++ rest).span Char.isDigit = (ds, rest) := by
  rw [List.span_eq_takeWhile_dropWhile, List.takeWhile_append_of_pos hds,
    List.dropWhile_append_of_pos hds]
  rcases rest with _ | ⟨c, cs⟩
  · rw [List.takeWhile_nil, List.append_nil, List.dropWhile_nil]
  · have hc : ¬ c.isDigit = true := hrest c rfl
    rw [List.takeWhile_cons_of_neg hc, List.append_nil, List.dropWhile_cons_of_neg hc]

/-- Digits around a point are a numeral. -/
theorem readUnsigned?_of_digits (negative : Bool) {whole fraction : List Char} (hne : whole ≠ [])
    (hwhole : ∀ d ∈ whole, d.isDigit = true) (hfraction : ∀ d ∈ fraction, d.isDigit = true) :
    readUnsigned? negative (whole ++ '.' :: fraction) =
      some ⟨negative, ofDigits (whole ++ fraction), -fraction.length⟩ := by
  have hfirst : (whole ++ '.' :: fraction).span Char.isDigit = (whole, '.' :: fraction) :=
    span_isDigit_append hwhole (by simp)
  have hsecond : (fraction ++ []).span Char.isDigit = (fraction, []) :=
    span_isDigit_append hfraction (by simp)
  rw [List.append_nil] at hsecond
  simp only [readUnsigned?, hfirst, splitFraction, hsecond, List.isEmpty_eq_false_iff.2 hne,
    Bool.false_and]
  simp [readExponent?]

theorem read?_signText_append (negative : Bool) {cs : List Char} (h : ¬ ∃ ds, cs = '-' :: ds) :
    read? (signText negative ++ cs) = readUnsigned? negative cs := by
  rcases negative with _ | _
  · exact read?_of_not_minus h
  · rfl

end Decimal

section Units

variable {p : ℕ}

theorem isDigit_of_mem_toDigits {n : ℕ} {c : Char} (h : c ∈ Nat.toDigits 10 n) :
    c.isDigit = true :=
  Nat.isDigit_of_mem_toDigits (by decide) (by decide) h

/-- The digits after the point. -/
def fractionDigits (p n : ℕ) : List Char :=
  (Nat.toDigits 10 (n % 10 ^ p)).leftpad p '0'

theorem isDigit_of_mem_fractionDigits {n : ℕ} {c : Char} (h : c ∈ fractionDigits p n) :
    c.isDigit = true := by
  rcases List.mem_append.1 h with hzero | hdigit
  · rw [List.eq_of_mem_replicate hzero]
    rfl
  · exact isDigit_of_mem_toDigits hdigit

theorem length_fractionDigits (hp : 0 < p) (n : ℕ) : (fractionDigits p n).length = p := by
  have hlt : n % 10 ^ p < 10 ^ p := Nat.mod_lt n (Nat.pow_pos (by decide))
  have hle := (Nat.length_toDigits_le_iff (by decide) hp).2 hlt
  rw [fractionDigits, List.length_leftpad, max_eq_left hle]

/-- The digits on both sides of the point are those of the units. -/
theorem ofDigits_append_fractionDigits (hp : 0 < p) (n : ℕ) :
    Decimal.ofDigits (Nat.toDigits 10 (n / 10 ^ p) ++ fractionDigits p n) = n := by
  have hpad : Nat.ofDigitChars 10 (fractionDigits p n) 0 = n % 10 ^ p := by
    rw [fractionDigits, List.leftpad, Nat.ofDigitChars_append, Nat.ofDigitChars_replicate_zero,
      Nat.mul_zero, Nat.ofDigitChars_ten_toDigits]
  rw [Decimal.ofDigits, Nat.ofDigitChars_append, Nat.ofDigitChars_ten_toDigits,
    Nat.ofDigitChars_eq_ofDigitChars_zero, length_fractionDigits hp, hpad]
  exact Nat.div_add_mod n (10 ^ p)

/-- **Written units are read as they are.** -/
theorem Decimal.read?_writeUnits (negative : Bool) (hp : 0 < p) (n : ℕ) :
    read? (signText negative ++ writeUnits p n) = some ⟨negative, n, -p⟩ := by
  have hwrite : writeUnits p n = Nat.toDigits 10 (n / 10 ^ p) ++ '.' :: fractionDigits p n := rfl
  have hminus : ¬ ∃ ds, writeUnits p n = '-' :: ds := by
    rintro ⟨ds, hds⟩
    obtain ⟨c, cs, hcs⟩ : ∃ c cs, Nat.toDigits 10 (n / 10 ^ p) = c :: cs :=
      List.exists_cons_of_ne_nil Nat.toDigits_ne_nil
    rw [hwrite, hcs] at hds
    obtain ⟨rfl, -⟩ := List.cons.inj hds
    exact absurd (isDigit_of_mem_toDigits (hcs ▸ List.mem_cons_self)) (by decide)
  rw [read?_signText_append negative hminus, hwrite,
    readUnsigned?_of_digits negative Nat.toDigits_ne_nil (fun _ ↦ isDigit_of_mem_toDigits)
      fun _ ↦ isDigit_of_mem_fractionDigits,
    ofDigits_append_fractionDigits hp, length_fractionDigits hp]

/-- Units of a place that is not too far behind the point are a quotient. -/
theorem Decimal.quotient_units (negative : Bool) (hp : 0 < p) (hp' : p ≤ 400) (n : ℕ) :
    quotient ⟨negative, n, -p⟩ = (n, 10 ^ p) := by
  have hexponent : clampedExponent ⟨negative, n, -p⟩ = -p := by
    show max (min (-(p : ℤ)) 400) (-((n.log2 : ℤ) + 400)) = -p
    omega
  rw [quotient, hexponent, if_neg (by omega), neg_neg, Int.toNat_natCast]
  rfl

end Units

/-! ### Printing again -/

/-- **What is closer to the units has the same units.** -/
theorem unitsOf_eq_of_closer {p m m' : ℕ} {q q' : ℤ}
    (h : |(m' : ℚ) * 2 ^ q' - unitsOf p m q / 10 ^ p| ≤
      |(m : ℚ) * 2 ^ q - unitsOf p m q / 10 ^ p|) :
    unitsOf p m' q' = unitsOf p m q := by
  refine (roundsTo_unitsOf p m' q').eq ((roundsTo_unitsOf p m q).of_closer ?_)
  have hpos : (0 : ℚ) < 10 ^ p := by positivity
  rw [abs_sub_comm, abs_sub_comm _ (_ * _), abs_mul_sub _ _ hpos, abs_mul_sub _ _ hpos]
  exact mul_le_mul_of_nonneg_right h hpos.le

/-- Units are not far from what they are units of. -/
theorem abs_sub_unitsOf_le (p m : ℕ) (q : ℤ) : |(m : ℚ) * 2 ^ q - unitsOf p m q / 10 ^ p| ≤ 1 := by
  have hone : (1 : ℚ) ≤ 10 ^ p := one_le_pow₀ (by norm_num)
  have hnear := (roundsTo_unitsOf p m q).near
  rw [abs_sub_comm, abs_mul_sub _ _ (by positivity)] at hnear
  calc |(m : ℚ) * 2 ^ q - unitsOf p m q / 10 ^ p|
      ≤ |(m : ℚ) * 2 ^ q - unitsOf p m q / 10 ^ p| * 10 ^ p :=
        le_mul_of_one_le_right (abs_nonneg _) hone
    _ ≤ 1 := hnear.trans (by norm_num)

theorem toList_text_eq {x : Float} {negative : Bool} {m : ℕ} {q : ℤ}
    (h : Parts.ofFloat x = .finite negative m q) :
    (text x).toList = signText negative ++ writeUnits places (unitsOf places m q) := by
  rw [text, h, String.toList_ofList]
  rfl

/-- **The text of a finite double is a numeral, and its double is printed alike.** -/
theorem exists_read?_text {x : Float} (hx : x.isFinite = true) :
    ∃ y, read? (text x).toList = some y ∧ text y = text x := by
  obtain ⟨negative, m, q, hparts, hm, hq⟩ := exists_ofFloat_eq_finite hx
  obtain ⟨n, hn⟩ : ∃ n, n = unitsOf places m q := ⟨_, rfl⟩
  have hnear := abs_sub_unitsOf_le places m q
  have hfinite : nearestPattern n (10 ^ places) < infinityPattern := by
    refine nearestPattern_lt_infinityPattern (by decide) hm hq ?_
    rw [hn]
    exact_mod_cast hnear
  obtain ⟨y, hy⟩ : ∃ y, ofPattern? negative (nearestPattern n (10 ^ places)) = some y :=
    ⟨_, if_pos hfinite⟩
  obtain ⟨m', q', hparts', hclosest⟩ := closest_of_ofPattern? (by decide) hy
  have hunits : unitsOf places m' q' = n := by
    rw [hn]
    refine unitsOf_eq_of_closer ?_
    rw [← hn]
    exact_mod_cast hclosest hm
  refine ⟨y, ?_, ?_⟩
  · rw [toList_text_eq hparts, ← hn, read?, Decimal.read?_writeUnits negative (by decide),
      Option.bind_some, Decimal.toFloat?, Decimal.quotient_units negative (by decide) (by decide)]
    exact hy
  · rw [← String.toList_inj, toList_text_eq hparts, toList_text_eq hparts', hunits, hn]

/-- A printed finite double has digits, a point and a minus only. -/
theorem char_of_mem_text {x : Float} (hx : x.isFinite = true) {c : Char} (h : c ∈ (text x).toList) :
    c = '-' ∨ c = '.' ∨ c.isDigit = true := by
  obtain ⟨negative, m, q, hparts, -⟩ := exists_ofFloat_eq_finite hx
  rw [toList_text_eq hparts, signText, writeUnits] at h
  rcases List.mem_append.1 h with hsign | hunits
  · split at hsign
    · exact .inl (List.mem_singleton.1 hsign)
    · cases hsign
  · rcases List.mem_append.1 hunits with hwhole | hrest
    · exact .inr (.inr (isDigit_of_mem_toDigits hwhole))
    · rcases List.mem_cons.1 hrest with hpoint | hfraction
      · exact .inr (.inl hpoint)
      · exact .inr (.inr (isDigit_of_mem_fractionDigits hfraction))

end Number

/-! ### Printed tables -/

/-- What divides cells and rows in a matrix, for what divides them in a printed table. -/
def Table.divider (c : Char) : Char :=
  if c = ' ' then ',' else if c = '\n' then ';' else c

/-- The printed form of a table as a matrix: between brackets, with commas for the blanks and
semicolons for the line feeds. -/
def Table.literal (t : Table Float) : String :=
  "[" ++ t.text.map divider ++ "]"

/-- The dividers of a table do not occur in the texts of its entries. -/
theorem Number.map_divider_text {x : Float} (hx : x.isFinite = true) :
    (text x).toList.map Table.divider = (text x).toList := by
  have hkept : ∀ c ∈ (text x).toList, Table.divider c = id c := by
    intro c hc
    have hchar := char_of_mem_text hx hc
    have hblank : c ≠ ' ' := by
      rintro rfl
      exact absurd hchar (by decide)
    have hfeed : c ≠ '\n' := by
      rintro rfl
      exact absurd hchar (by decide)
    rw [Table.divider, if_neg hblank, if_neg hfeed]
    rfl
  rw [List.map_congr_left hkept, List.map_id]

theorem Grid.toRows_map {α β : Type} {rows cols : ℕ} (f : α → β) (g : Grid α rows cols) :
    (g.map f).toRows = g.toRows.map (List.map f) := by
  rw [toRows, toRows, List.map_map]
  refine List.map_congr_left fun i _ ↦ ?_
  show (g.map f).row i = (g.row i).map f
  rw [row, row, List.map_map]
  exact List.map_congr_left fun j _ ↦ g.get_map f i j

namespace Literal

open Number

theorem read_eq_scalar {text : String} {x : Float} (h : IsNumber text.toList x) :
    read text = .ok (.scalar x) := by
  rw [read]
  split
  · next rest htext =>
    have hstarts := h.starts
    rw [htext] at hstarts
    cases hstarts
  · rw [readNumber_of_isNumber h]
    rfl

section Printed

variable {t : Table Float}

/-- A printed table is written from the texts of its entries. -/
theorem literal_eq (hcols : 0 < t.cols) (hfinite : ∀ i j, (t.grid.get i j).isFinite = true) :
    t.literal = matrixText (t.grid.toRows.map (List.map Number.text)) := by
  have hrow : ∀ row ∈ t.grid.toRows,
      (" ".intercalate (row.map Number.text)).toList.map Table.divider =
        List.intercalate [','] ((row.map Number.text).map String.toList) := by
    intro row hrow
    obtain ⟨i, -, rfl⟩ := List.mem_map.1 hrow
    rw [String.toList_intercalate, map_intercalate, List.map_map, List.map_map, List.map_map]
    refine congrArg (List.intercalate [',']) (List.map_congr_left fun x hx ↦ ?_)
    obtain ⟨j, -, rfl⟩ := List.mem_map.1 hx
    exact map_divider_text (hfinite i j)
  have hbody : t.text.toList.map Table.divider =
      bodyOf (t.grid.toRows.map (List.map Number.text)) := by
    rw [Table.text, if_neg hcols.ne', String.toList_intercalate, map_intercalate, bodyOf,
      List.map_map, List.map_map, List.map_map]
    exact congrArg (List.intercalate [';']) (List.map_congr_left hrow)
  rw [← String.toList_inj, toList_matrixText, Table.literal, String.toList_append,
    String.toList_append, String.toList_map, hbody]
  rfl

/-- The text of a table is made of the texts of its entries. -/
theorem text_ofFn {f : Fin t.rows → Fin t.cols → Float}
    (hf : ∀ i j, Number.text (f i j) = Number.text (t.grid.get i j)) :
    (⟨t.rows, t.cols, .ofFn f⟩ : Table Float).text = t.text := by
  have hmap : (Grid.ofFn f).map Number.text = t.grid.map Number.text :=
    Grid.ext fun i j ↦ by rw [Grid.get_map, Grid.get_map, Grid.get_ofFn, hf]
  have hrows := congrArg (fun g ↦ g.toRows.map " ".intercalate) hmap
  simp only [Grid.toRows_map, List.map_map] at hrows
  rw [Table.text, Table.text]
  split
  · rfl
  · exact congrArg "\n".intercalate hrows

/-- **A printed table is read as a table that is printed alike.** -/
theorem read_literal (hrows : 0 < t.rows) (hcols : 0 < t.cols)
    (hfinite : ∀ i j, (t.grid.get i j).isFinite = true) :
    ∃ u, read t.literal = .ok (.matrix u) ∧ u.shape = t.shape ∧ u.text = t.text := by
  choose f hread htext using fun i j ↦ exists_read?_text (hfinite i j)
  have hcells : HasCells t.literal (t.grid.toRows.map (List.map Number.text)) := by
    refine ⟨literal_eq hcols hfinite, ?_, fun cells hcells ↦ ?_⟩
    · exact List.map_eq_nil_iff.not.2 (t.grid.toRows_ne_nil hrows)
    · obtain ⟨row, hrow, rfl⟩ := List.mem_map.1 hcells
      rw [← List.length_pos_iff, List.length_map, t.grid.length_of_mem_toRows row hrow]
      exact hcols
  have hgives : Gives (t.grid.toRows.map (List.map Number.text)) ⟨t.rows, t.cols, .ofFn f⟩ := by
    rw [gives_iff, Grid.toRows, Grid.toRows, List.map_map, List.forall₂_map_left_iff,
      List.forall₂_map_right_iff, List.forall₂_same]
    intro i _
    show List.Forall₂ _ ((t.grid.row i).map Number.text) ((Grid.ofFn f).row i)
    rw [Grid.row, Grid.row, List.map_map, List.forall₂_map_left_iff, List.forall₂_map_right_iff,
      List.forall₂_same]
    intro j _
    rw [Grid.get_ofFn]
    exact read?_eq_some_iff.1 (hread i j)
  exact ⟨⟨t.rows, t.cols, .ofFn f⟩, read_eq_matrix hcells hgives, rfl, text_ofFn htext⟩

/-- **Printed values are read and printed alike.** A table with a row and a column and with finite
entries, printed and put into brackets with the dividers of a matrix, is read as a matrix of its
shape that is printed as it is. A finite double, printed, is read as a double that is printed as
it is. -/
theorem read_printed :
    (∀ t : Table Float, 0 < t.rows → 0 < t.cols →
      (∀ i j, (t.grid.get i j).isFinite = true) →
        ∃ u, read ("[" ++ (Value.matrix t).text.map Table.divider ++ "]") = .ok (.matrix u) ∧
          u.shape = t.shape ∧ (Value.matrix u).text = (Value.matrix t).text) ∧
    ∀ x : Float, x.isFinite = true →
      ∃ y, read (Value.scalar x).text = .ok (.scalar y) ∧
        (Value.scalar y).text = (Value.scalar x).text := by
  refine ⟨fun t hrows hcols hfinite ↦ read_literal hrows hcols hfinite, fun x hx ↦ ?_⟩
  obtain ⟨y, hread, htext⟩ := exists_read?_text hx
  exact ⟨y, read_eq_scalar (read?_eq_some_iff.1 hread), htext⟩

/-- A negative number that is printed as zero, one that is not a double when printed, and one with
more digits than a double has. -/
theorem read_printed_mixed :
    let t : Table Float := ⟨2, 2, ⟨#v[-1.0e-7, 0.1, 2.5, 1.0e22]⟩⟩
    let x : Float := -0.0
    0 < t.rows ∧ 0 < t.cols ∧ (∀ i j, (t.grid.get i j).isFinite = true) ∧
      (∃ u, read "[-0.000000,0.100000;2.500000,10000000000000000000000.000000]" = .ok (.matrix u) ∧
        u.shape = (2, 2) ∧
        u.text = "-0.000000 0.100000\n2.500000 10000000000000000000000.000000") ∧
      x.isFinite = true ∧
      ∃ y, read "-0.000000" = .ok (.scalar y) ∧ Number.text y = "-0.000000" := by
  have ht : (Value.matrix ⟨2, 2, ⟨#v[-1.0e-7, 0.1, 2.5, 1.0e22]⟩⟩).text =
      "-0.000000 0.100000\n2.500000 10000000000000000000000.000000" := by decide
  have hdivided : "-0.000000 0.100000\n2.500000 10000000000000000000000.000000".map Table.divider =
      "-0.000000,0.100000;2.500000,10000000000000000000000.000000" := by
    rw [← String.toList_inj, String.toList_map]
    decide
  have hx : (Value.scalar (-0.0)).text = "-0.000000" := by decide +kernel
  have hzero : (-0.0 : Float).isFinite = true := by decide
  intro t x
  have hfinite : ∀ i j, (t.grid.get i j).isFinite = true := by decide
  obtain ⟨u, hread, hshape, htext⟩ := read_printed.1 t (by decide) (by decide) hfinite
  obtain ⟨y, hread', htext'⟩ := read_printed.2 x hzero
  rw [show (Value.matrix t).text = _ from ht] at hread htext
  rw [hdivided] at hread
  rw [show (Value.scalar x).text = _ from hx] at hread' htext'
  exact ⟨by decide, by decide, hfinite, ⟨u, hread, hshape, htext⟩, hzero, y, hread', htext'⟩

end Printed

end Literal

end MatrixScript
