/-!
# Cutting at separators

A list cut at every element that is a separator. Words of a line, rows and cells of a literal
and lines of a script are all cut this way. There is always at least one piece, and pieces may
be empty; what an empty piece means is for the user of the pieces to say.
-/

namespace MatrixScript.Text

variable {α : Type}

/-- Puts an element in front of the first piece. -/
def extendFirst (x : α) : List (List α) → List (List α)
  | [] => [[x]]
  | p :: ps => (x :: p) :: ps

/-- The pieces of a list between its separators. -/
def pieces (isSeparator : α → Bool) (xs : List α) : List (List α) :=
  xs.foldr (fun x ps ↦ if isSeparator x then [] :: ps else extendFirst x ps) [[]]

@[simp]
theorem pieces_nil (isSeparator : α → Bool) : pieces isSeparator [] = [[]] := rfl

theorem pieces_cons (isSeparator : α → Bool) (x : α) (xs : List α) :
    pieces isSeparator (x :: xs) =
      if isSeparator x then [] :: pieces isSeparator xs
      else extendFirst x (pieces isSeparator xs) := rfl

theorem pieces_ne_nil (isSeparator : α → Bool) (xs : List α) : pieces isSeparator xs ≠ [] := by
  cases xs with
  | nil => simp
  | cons x xs =>
    rw [pieces_cons]
    split
    · simp
    · cases pieces isSeparator xs <;> simp [extendFirst]

/-- What is no separator belongs to the piece that follows it. -/
theorem pieces_cons_of_false {isSeparator : α → Bool} {x : α} {xs p : List α} {ps : List (List α)}
    (hx : isSeparator x = false) (h : pieces isSeparator xs = p :: ps) :
    pieces isSeparator (x :: xs) = (x :: p) :: ps := by
  rw [pieces_cons, hx, h]
  rfl

/-- A list without separators is one piece. -/
theorem pieces_of_forall {isSeparator : α → Bool} {xs : List α}
    (h : ∀ x ∈ xs, isSeparator x = false) : pieces isSeparator xs = [xs] := by
  induction xs with
  | nil => rfl
  | cons x xs ih =>
    rw [pieces_cons, h x (by simp), ih fun y hy ↦ h y (List.mem_cons_of_mem x hy)]
    rfl

/-- A separator ends the piece before it, and the pieces after it are as they are without it. -/
theorem pieces_append_cons {isSeparator : α → Bool} {xs : List α}
    (h : ∀ x ∈ xs, isSeparator x = false) {y : α} (hy : isSeparator y = true) (rest : List α) :
    pieces isSeparator (xs ++ y :: rest) = xs :: pieces isSeparator rest := by
  induction xs with
  | nil => rw [List.nil_append, pieces_cons, if_pos hy]
  | cons x xs ih =>
    rw [List.cons_append, pieces_cons, h x (by simp),
      ih fun z hz ↦ h z (List.mem_cons_of_mem x hz)]
    rfl

end MatrixScript.Text
