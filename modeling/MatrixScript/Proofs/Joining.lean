import MatrixScript.Proofs.Basis
import MatrixScript.Text.Pieces

/-!
# Cutting and joining

Cutting a list at a separator and putting the separator back between the pieces undo each other
(`Text.pieces_eq_iff`): there is one way only to write a list as pieces without separators with
one separator between any two of them, and the pieces are what cutting gives.
-/

namespace MatrixScript.Text

variable {α : Type} {isSeparator : α → Bool}

/-! ### What stands in the pieces -/

/-- An element of a list is a separator or in one of the pieces. -/
theorem mem_pieces (isSeparator : α → Bool) {xs : List α} {x : α} (h : x ∈ xs) :
    isSeparator x = true ∨ ∃ p ∈ pieces isSeparator xs, x ∈ p := by
  induction xs with
  | nil => cases h
  | cons y ys ih =>
    obtain ⟨p, ps, hpieces⟩ := List.exists_cons_of_ne_nil (pieces_ne_nil isSeparator ys)
    rcases hy : isSeparator y with _ | _
    · rw [pieces_cons_of_false hy hpieces]
      rw [hpieces] at ih
      rcases List.mem_cons.1 h with rfl | h
      · exact .inr ⟨_, List.mem_cons_self, List.mem_cons_self⟩
      · obtain hx | ⟨q, hq, hx⟩ := ih h
        · exact .inl hx
        · rcases List.mem_cons.1 hq with rfl | hq
          · exact .inr ⟨_, List.mem_cons_self, List.mem_cons_of_mem y hx⟩
          · exact .inr ⟨q, List.mem_cons_of_mem _ hq, hx⟩
    · rw [pieces_cons, if_pos hy]
      rcases List.mem_cons.1 h with rfl | h
      · exact .inl hy
      · exact (ih h).imp_right fun ⟨q, hq, hx⟩ ↦ ⟨q, List.mem_cons_of_mem _ hq, hx⟩

theorem isSeparator_of_mem_pieces {xs p : List α} {x : α} (hp : p ∈ pieces isSeparator xs)
    (hx : x ∈ p) : isSeparator x = false := by
  induction xs generalizing p with
  | nil =>
    obtain rfl := List.mem_singleton.1 hp
    cases hx
  | cons y ys ih =>
    obtain ⟨q, qs, hpieces⟩ := List.exists_cons_of_ne_nil (pieces_ne_nil isSeparator ys)
    rw [hpieces] at ih
    rcases hy : isSeparator y with _ | _
    · rw [pieces_cons_of_false hy hpieces] at hp
      rcases List.mem_cons.1 hp with rfl | hp
      · rcases List.mem_cons.1 hx with rfl | hx
        · exact hy
        · exact ih List.mem_cons_self hx
      · exact ih (List.mem_cons_of_mem q hp) hx
    · rw [pieces_cons, if_pos hy, hpieces] at hp
      rcases List.mem_cons.1 hp with rfl | hp
      · cases hx
      · exact ih hp hx

/-! ### How many pieces there are and how long they are -/

theorem length_pieces_add (isSeparator : α → Bool) (xs : List α) :
    (pieces isSeparator xs).length + (pieces isSeparator xs).flatten.length = xs.length + 1 := by
  induction xs with
  | nil => rfl
  | cons x xs ih =>
    obtain ⟨p, ps, hps⟩ := List.exists_cons_of_ne_nil (pieces_ne_nil isSeparator xs)
    rw [pieces_cons, hps]
    rw [hps] at ih
    split
    · simp only [List.length_cons, List.flatten_cons, List.length_append, List.length_nil] at ih ⊢
      omega
    · simp only [extendFirst, List.length_cons, List.flatten_cons, List.length_append] at ih ⊢
      omega

/-- Every piece but one takes a separator. -/
theorem length_pieces_le (isSeparator : α → Bool) (xs : List α) :
    (pieces isSeparator xs).length ≤ xs.length + 1 := by
  have := length_pieces_add isSeparator xs
  omega

/-- A piece is no longer than the whole. -/
theorem length_le_of_mem_pieces {xs p : List α} (h : p ∈ pieces isSeparator xs) :
    p.length ≤ xs.length := by
  have hpos := List.length_pos_of_mem h
  have hle := (List.sublist_flatten_of_mem h).length_le
  have := length_pieces_add isSeparator xs
  omega

/-! ### Separators between the pieces -/

/-- A separator divides the pieces before it from those after it. -/
theorem pieces_append {y : α} (hy : isSeparator y = true) (xs rest : List α) :
    pieces isSeparator (xs ++ y :: rest) = pieces isSeparator xs ++ pieces isSeparator rest := by
  induction xs with
  | nil => rw [List.nil_append, pieces_cons, if_pos hy, pieces_nil, List.singleton_append]
  | cons x xs ih =>
    obtain ⟨p, ps, hpieces⟩ := List.exists_cons_of_ne_nil (pieces_ne_nil isSeparator xs)
    rw [hpieces, List.cons_append] at ih
    rcases hx : isSeparator x with _ | _
    · rw [List.cons_append, pieces_cons_of_false hx ih, pieces_cons_of_false hx hpieces,
        List.cons_append]
    · rw [List.cons_append, pieces_cons, if_pos hx, ih, pieces_cons, if_pos hx, hpieces,
        List.cons_append, List.cons_append]

theorem pieces_intercalate {y : α} (hy : isSeparator y = true) {p : List α} {ps : List (List α)}
    (h : ∀ q ∈ p :: ps, ∀ x ∈ q, isSeparator x = false) :
    pieces isSeparator (List.intercalate [y] (p :: ps)) = p :: ps := by
  induction ps generalizing p with
  | nil =>
    rw [List.intercalate_singleton]
    exact pieces_of_forall (h p List.mem_cons_self)
  | cons q qs ih =>
    obtain ⟨hp, hqs⟩ := List.forall_mem_cons.1 h
    rw [List.intercalate_cons_cons, List.append_assoc]
    exact (pieces_append_cons hp hy _).trans (congrArg _ (ih hqs))

/-- Putting the separator back between the pieces gives the list. -/
theorem intercalate_pieces {y : α} (h : ∀ x, isSeparator x = true → x = y) (xs : List α) :
    List.intercalate [y] (pieces isSeparator xs) = xs := by
  induction xs with
  | nil => rfl
  | cons x xs ih =>
    obtain ⟨p, ps, hpieces⟩ := List.exists_cons_of_ne_nil (pieces_ne_nil isSeparator xs)
    rw [hpieces] at ih
    rcases hx : isSeparator x with _ | _
    · rw [pieces_cons_of_false hx hpieces, List.intercalate_cons_cons_left, ih]
    · rw [pieces_cons, if_pos hx, hpieces, List.intercalate_cons_cons, ih, h x hx]
      rfl

/-- **Cutting undoes joining, and nothing else can be undone.** -/
theorem pieces_eq_iff [BEq α] [LawfulBEq α] {y : α} {xs : List α} {ps : List (List α)} :
    pieces (· == y) xs = ps ↔ ps ≠ [] ∧ xs = List.intercalate [y] ps ∧ ∀ p ∈ ps, y ∉ p := by
  constructor
  · rintro rfl
    refine ⟨pieces_ne_nil _ xs, (intercalate_pieces (fun x hx ↦ beq_iff_eq.1 hx) xs).symm, ?_⟩
    intro p hp hy
    have hkept := isSeparator_of_mem_pieces hp hy
    simp at hkept
  · rintro ⟨hne, rfl, hkept⟩
    obtain ⟨p, ps, rfl⟩ := List.exists_cons_of_ne_nil hne
    have hkept' : ∀ q ∈ p :: ps, ∀ x ∈ q, (x == y) = false := by
      intro q hq x hx
      rw [beq_eq_false_iff_ne]
      rintro rfl
      exact hkept q hq hx
    exact pieces_intercalate (by simp) hkept'

end MatrixScript.Text
