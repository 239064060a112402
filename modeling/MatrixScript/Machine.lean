/-!
# Machines

What a machine does with sizes: the numbers of rows, columns and cells of a matrix, and what is
worked out from them. Sizes are numbers below a bound. Where a size comes out at the bound or above
it, one machine has no result and another one goes on with the remainder; which of the two it is was
decided when the program was built, and a script cannot tell.

A cell takes eight bytes, and one piece of memory has less than half as many bytes as there are
sizes. So there is room for fewer cells than a sixteenth of the sizes, whatever the machine does
with sizes that are too large.
-/

namespace MatrixScript

/-- A machine, as far as sizes go. -/
structure Machine where
  /-- Sizes are the numbers below this one. -/
  sizes : Nat
  /-- Whether a size that is too large is reduced to its remainder. -/
  wraps : Bool
deriving DecidableEq, Repr

namespace Machine

/-- A machine whose sizes have 64 bits. -/
def wide (wraps : Bool) : Machine :=
  ⟨UInt64.size, wraps⟩

/-- What a machine takes a size for that has been worked out. -/
def size? (m : Machine) (n : Nat) : Option Nat :=
  if n < m.sizes then some n else if m.wraps then some (n % m.sizes) else none

/-- One piece of memory has fewer cells than this number. -/
def capacity (m : Machine) : Nat :=
  m.sizes / 16

/-- How many cells are got if memory for `n` of them is asked for. -/
def room? (m : Machine) (n : Nat) : Option Nat :=
  (m.size? n).filter (· < m.capacity)

/-- A machine has a matrix with `rows` rows and `cols` columns in its memory. -/
structure Holds (m : Machine) (rows cols : Nat) : Prop where
  rows_lt : rows < m.sizes
  cols_lt : cols < m.sizes
  cells_lt : rows * cols < m.capacity

instance (m : Machine) (rows cols : Nat) : Decidable (m.Holds rows cols) :=
  decidable_of_decidable_of_iff (p := rows < m.sizes ∧ cols < m.sizes ∧ rows * cols < m.capacity)
    ⟨fun h ↦ ⟨h.1, h.2.1, h.2.2⟩, fun h ↦ ⟨h.rows_lt, h.cols_lt, h.cells_lt⟩⟩

/-! ### Sizes that are not too large -/

variable {m : Machine} {n : Nat}

theorem capacity_le_sizes (m : Machine) : m.capacity ≤ m.sizes :=
  Nat.div_le_self _ _

theorem size?_of_lt (h : n < m.sizes) : m.size? n = some n :=
  if_pos h

theorem room?_of_lt (h : n < m.capacity) : m.room? n = some n := by
  rw [room?, size?_of_lt (Nat.lt_of_lt_of_le h m.capacity_le_sizes)]
  simp [h]

theorem lt_capacity_of_room? {count : Nat} (h : m.room? n = some count) : count < m.capacity := by
  rw [room?, Option.filter_eq_some_iff] at h
  exact of_decide_eq_true h.2

/-- There are machines with as much room as one likes. -/
theorem exists_lt_capacity (n : Nat) : ∃ m : Machine, n < m.capacity := by
  refine ⟨⟨16 * (n + 1), false⟩, ?_⟩
  rw [capacity, Nat.mul_div_cancel_left _ (by decide)]
  exact Nat.lt_succ_self n

/-! ### Sizes that are -/

/-- A size that is too large is refused or comes out as another one, on machines that reduce it. -/
theorem size?_of_le (h : m.sizes ≤ n) :
    m.size? n = none ∨ m.wraps = true ∧ m.size? n = some (n % m.sizes) := by
  rw [size?, if_neg (Nat.not_lt.2 h)]
  split
  · next hwraps => exact .inr ⟨hwraps, rfl⟩
  · exact .inl rfl

/-- More cells than there is room for are not got: there is no memory, or memory for fewer. -/
theorem room?_of_le (h : m.capacity ≤ n) :
    m.room? n = none ∨ m.wraps = true ∧ ∃ count < n, m.room? n = some count := by
  rcases Nat.lt_or_ge n m.sizes with hlt | hle
  · refine .inl ?_
    rw [room?, size?_of_lt hlt]
    simpa using h
  · rcases size?_of_le hle with hnone | ⟨hwraps, hsome⟩
    · exact .inl (by rw [room?, hnone]; rfl)
    · rcases hroom : m.room? n with _ | count
      · exact .inl rfl
      · refine .inr ⟨hwraps, count, ?_, rfl⟩
        have hpos : 0 < m.sizes := Nat.lt_of_lt_of_le
          (Nat.zero_lt_of_lt (lt_capacity_of_room? hroom)) m.capacity_le_sizes
        rw [room?, hsome, Option.filter_eq_some_iff, Option.some.injEq] at hroom
        obtain ⟨rfl, -⟩ := hroom
        exact Nat.lt_of_lt_of_le (Nat.mod_lt n hpos) hle

end Machine

end MatrixScript
