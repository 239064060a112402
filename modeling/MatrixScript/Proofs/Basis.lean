import Mathlib.Data.List.FinRange
import Mathlib.Data.List.Forall2

/-!
# Results and lists

What is needed of results, of lists and of texts throughout the project and says nothing about
scripts: when a computation in several steps succeeds or fails, when going through a list does, and
how lists are put together and cut up.
-/

namespace MatrixScript

variable {ε ε' α β γ : Type}

/-! ### Results -/

theorem bind_eq_ok_iff {x : Except ε α} {f : α → Except ε β} {v : β} :
    x >>= f = .ok v ↔ ∃ u, x = .ok u ∧ f u = .ok v := by
  cases x <;> simp [bind, Except.bind]

theorem bind_eq_error_iff {x : Except ε α} {f : α → Except ε β} {e : ε} :
    x >>= f = .error e ↔ x = .error e ∨ ∃ u, x = .ok u ∧ f u = .error e := by
  cases x <;> simp [bind, Except.bind]

theorem map_eq_ok_iff {x : Except ε α} {f : α → β} {v : β} :
    x.map f = .ok v ↔ ∃ u, x = .ok u ∧ f u = v := by
  rcases x with e | u
  · show Except.error e = .ok v ↔ _
    simp
  · show Except.ok (f u) = .ok v ↔ _
    simp

theorem mapError_eq_ok_iff {x : Except ε α} {f : ε → ε'} {v : α} :
    x.mapError f = .ok v ↔ x = .ok v := by
  rcases x with e | u
  · show Except.error (f e) = .ok v ↔ _
    simp
  · show Except.ok u = .ok v ↔ _
    simp

theorem mapError_eq_error_iff {x : Except ε α} {f : ε → ε'} {e : ε'} :
    x.mapError f = .error e ↔ ∃ e', x = .error e' ∧ f e' = e := by
  rcases x with e' | u
  · show Except.error (f e') = .error e ↔ _
    simp
  · show Except.ok u = .error e ↔ _
    simp

theorem bind_pure_eq_error_iff {x : Except ε α} {g : α → β} {e : ε} :
    (x >>= fun u ↦ pure (g u)) = .error e ↔ x = .error e := by
  rw [bind_eq_error_iff]
  exact or_iff_left fun ⟨_, _, hpure⟩ ↦ nomatch hpure

theorem toOption_eq_some_iff {x : Except ε α} {v : α} :
    x.toOption = some v ↔ x = .ok v := by
  cases x <;> simp [Except.toOption]

/-! ### Lists side by side -/

/-- What holds of the second members of all pairs holds of all of the second list. -/
theorem forall_of_forall_zip {P : β → Prop} {xs : List α} {ys : List β}
    (length : xs.length = ys.length) (h : ∀ {x y}, (x, y) ∈ xs.zip ys → P y) : ∀ y ∈ ys, P y := by
  intro y hy
  rw [← List.map_snd_zip (Nat.le_of_eq length.symm)] at hy
  obtain ⟨⟨x, y⟩, hmem, rfl⟩ := List.mem_map.1 hy
  exact h hmem

/-- A relation that goes by way of a third, from list to list. -/
theorem forall₂_exists_iff {R : α → β → Prop} {S : β → γ → Prop} {xs : List α}
    {zs : List γ} :
    List.Forall₂ (fun x z ↦ ∃ y, R x y ∧ S y z) xs zs ↔
      ∃ ys, List.Forall₂ R xs ys ∧ List.Forall₂ S ys zs := by
  constructor
  · intro h
    induction h with
    | nil => exact ⟨[], .nil, .nil⟩
    | cons hhead _ ih =>
      obtain ⟨y, hxy, hyz⟩ := hhead
      obtain ⟨ys, hxs, hzs⟩ := ih
      exact ⟨y :: ys, .cons hxy hxs, .cons hyz hzs⟩
  · rintro ⟨ys, hxs, hzs⟩
    induction hxs generalizing zs with
    | nil =>
      cases hzs
      exact .nil
    | cons hxy _ ih =>
      obtain _ | ⟨hyz, hzs⟩ := hzs
      exact .cons ⟨_, hxy, hyz⟩ (ih hzs)

theorem exists_forall₂ {R : α → β → Prop} {xs : List α} (h : ∀ x ∈ xs, ∃ y, R x y) :
    ∃ ys, List.Forall₂ R xs ys := by
  induction xs with
  | nil => exact ⟨[], .nil⟩
  | cons x xs ih =>
    obtain ⟨y, hy⟩ := h x (by simp)
    obtain ⟨ys, hys⟩ := ih fun x' hx' ↦ h x' (List.mem_cons_of_mem _ hx')
    exact ⟨y :: ys, .cons hy hys⟩

theorem exists_of_forall₂ {R : α → β → Prop} {xs : List α} {ys : List β}
    (h : List.Forall₂ R xs ys) : ∀ x ∈ xs, ∃ y, R x y := by
  induction h with
  | nil => exact nofun
  | @cons x y xs ys hxy _ ih => exact List.forall_mem_cons.2 ⟨⟨y, hxy⟩, ih⟩

theorem forall₂_finRange_iff {n : ℕ} {R : α → Fin n → Prop} {xs : List α} :
    List.Forall₂ R xs (List.finRange n) ↔
      xs.length = n ∧ ∀ i : Fin n, ∃ x, xs[i.val]? = some x ∧ R x i := by
  have hlength : (List.finRange n).length = n := List.length_finRange
  rw [List.forall₂_iff_get]
  constructor
  · rintro ⟨hxs, h⟩
    refine ⟨hxs.trans hlength, fun i ↦ ?_⟩
    have hi : i.val < xs.length := by omega
    refine ⟨xs.get ⟨i.val, hi⟩, List.getElem?_eq_getElem hi, ?_⟩
    simpa using h i.val hi (by omega)
  · rintro ⟨hxs, h⟩
    refine ⟨hxs.trans hlength.symm, fun i hi hi' ↦ ?_⟩
    obtain ⟨x, hx, hR⟩ := h ⟨i, hxs ▸ hi⟩
    obtain rfl : xs.get ⟨i, hi⟩ = x := Option.some.inj ((List.getElem?_eq_getElem hi).symm.trans hx)
    simpa using hR

/-! ### Going through a list -/

/-- All of a list denotes something exactly if each member does. -/
theorem mapM_eq_some_iff {f : α → Option β} {R : α → β → Prop} {xs : List α}
    (h : ∀ x ∈ xs, ∀ y, f x = some y ↔ R x y) (ys : List β) :
    xs.mapM f = some ys ↔ List.Forall₂ R xs ys := by
  induction xs generalizing ys with
  | nil => simp [eq_comm]
  | cons x xs ih =>
    have htail := ih fun x' hx' ↦ h x' (List.mem_cons_of_mem x hx')
    rw [List.mapM_cons, List.forall₂_cons_left_iff]
    simp only [Option.bind_eq_bind, Option.bind_eq_some_iff, Option.pure_def, Option.some.injEq]
    constructor
    · rintro ⟨y, hy, ys', hys', rfl⟩
      exact ⟨y, ys', (h x (by simp) y).1 hy, (htail ys').1 hys', rfl⟩
    · rintro ⟨y, ys', hy, hys', rfl⟩
      exact ⟨y, (h x (by simp) y).2 hy, ys', (htail ys').2 hys', rfl⟩

theorem mapM_congr {f g : α → Option β} {xs : List α} (h : ∀ x ∈ xs, f x = g x) :
    xs.mapM f = xs.mapM g := by
  have hsame : ∀ x ∈ xs, ∀ y, f x = some y ↔ g x = some y := fun x hx y ↦ by rw [h x hx]
  ext ys
  exact (mapM_eq_some_iff hsame ys).trans (mapM_eq_some_iff (fun _ _ _ ↦ Iff.rfl) ys).symm

theorem mapM_eq_some_map {f : β → Option γ} {g : β → γ} {xs : List β}
    (h : ∀ x ∈ xs, f x = some (g x)) : xs.mapM f = some (xs.map g) := by
  induction xs with
  | nil => rfl
  | cons x xs ih =>
    obtain ⟨hx, hxs⟩ := List.forall_mem_cons.1 h
    rw [List.mapM_cons, hx, ih hxs]
    rfl

theorem mapM_eq_ok_iff {f : α → Except ε β} {xs : List α} {ys : List β} :
    xs.mapM f = .ok ys ↔ List.Forall₂ (fun x y ↦ f x = .ok y) xs ys := by
  induction xs generalizing ys with
  | nil =>
    rw [List.mapM_nil, List.forall₂_nil_left_iff]
    exact ⟨fun h ↦ (Except.ok.inj h).symm, fun h ↦ congrArg _ h.symm⟩
  | cons x xs ih =>
    rw [List.mapM_cons, List.forall₂_cons_left_iff]
    simp only [bind_eq_ok_iff, ih]
    constructor
    · rintro ⟨y, hy, ys', hys, hpure⟩
      exact ⟨y, ys', hy, hys, (Except.ok.inj hpure).symm⟩
    · rintro ⟨y, ys', hy, hys, rfl⟩
      exact ⟨y, hy, ys', hys, rfl⟩

/-- An item of a list is the first one without a property; the items before it have it. -/
structure FirstFailure {α : Type} (P : α → Prop) (xs before : List α) (x : α) : Prop where
  split : ∃ after, xs = before ++ x :: after
  before : ∀ b ∈ before, P b
  fails : ¬ P x

theorem exists_firstFailure {P : α → Prop} {xs : List α} (h : ¬ ∀ x ∈ xs, P x) :
    ∃ before x, FirstFailure P xs before x := by
  induction xs with
  | nil => exact absurd (List.forall_mem_nil P) h
  | cons x xs ih =>
    by_cases hx : P x
    · obtain ⟨before, y, ⟨after, rfl⟩, hbefore, hy⟩ :=
        ih fun hxs ↦ h (List.forall_mem_cons.2 ⟨hx, hxs⟩)
      exact ⟨x :: before, y, ⟨after, rfl⟩, List.forall_mem_cons.2 ⟨hx, hbefore⟩, hy⟩
    · exact ⟨[], x, ⟨xs, rfl⟩, List.forall_mem_nil P, hx⟩

/-- Where the first failure is can be told from images of the items. -/
theorem FirstFailure.of_map_eq {f : α → γ} {g : β → γ} {P : γ → Prop}
    {xs before : List α} {x : α} {ys : List β} (h : FirstFailure (fun z ↦ P (f z)) xs before x)
    (hmap : ys.map g = xs.map f) :
    ∃ before' y, FirstFailure (fun z ↦ P (g z)) ys before' y ∧ before'.length = before.length ∧
      g y = f x := by
  obtain ⟨⟨after, rfl⟩, hbefore, hx⟩ := h
  rw [List.map_append, List.map_cons, List.map_eq_append_iff] at hmap
  obtain ⟨before', rest, rfl, hbefore', hrest⟩ := hmap
  obtain ⟨y, after', rfl, hy, -⟩ := List.map_eq_cons_iff.1 hrest
  refine ⟨before', y, ⟨⟨after', rfl⟩, fun b hb ↦ ?_, hy ▸ hx⟩, ?_, hy⟩
  · have hmem : g b ∈ before.map f := hbefore' ▸ List.mem_map_of_mem hb
    obtain ⟨a, ha, heq⟩ := List.mem_map.1 hmem
    exact heq ▸ hbefore a ha
  · simpa using congrArg List.length hbefore'

section

variable {f : α → Except ε β} {e : ε}

/-- Going through a list fails as its first item does that fails. -/
theorem mapM_eq_error {xs before : List α} {x : α}
    (h : FirstFailure (fun b ↦ ∃ y, f b = .ok y) xs before x) (hx : f x = .error e) :
    xs.mapM f = .error e := by
  obtain ⟨⟨after, rfl⟩, hbefore, -⟩ := h
  induction before with
  | nil =>
    rw [List.nil_append, List.mapM_cons, hx]
    rfl
  | cons b before ih =>
    obtain ⟨⟨y, hy⟩, hbefore⟩ := List.forall_mem_cons.1 hbefore
    rw [List.cons_append, List.mapM_cons, hy]
    exact bind_pure_eq_error_iff.2 (ih hbefore)

/-- Going through lists one after the other fails as going through all of their items does. -/
theorem mapM_mapM_eq_error_iff {xss : List (List α)} :
    xss.mapM (·.mapM f) = .error e ↔ xss.flatten.mapM f = .error e := by
  induction xss with
  | nil =>
    rw [List.flatten_nil, List.mapM_nil, List.mapM_nil]
    exact iff_of_false nofun nofun
  | cons xs xss ih =>
    rw [List.mapM_cons, List.flatten_cons, List.mapM_append, bind_eq_error_iff, bind_eq_error_iff]
    simp only [bind_pure_eq_error_iff, ih]

end

/-! ### Joins -/

theorem mem_intercalate {sep : List α} {ps : List (List α)} {x : α}
    (h : x ∈ List.intercalate sep ps) : x ∈ sep ∨ ∃ p ∈ ps, x ∈ p := by
  induction ps with
  | nil => cases h
  | cons p ps ih =>
    rcases ps with _ | ⟨q, ps⟩
    · rw [List.intercalate_singleton] at h
      exact .inr ⟨p, List.mem_cons_self, h⟩
    · rw [List.intercalate_cons_cons, List.append_assoc, List.mem_append, List.mem_append] at h
      obtain h | h | h := h
      · exact .inr ⟨p, List.mem_cons_self, h⟩
      · exact .inl h
      · exact (ih h).imp_right fun ⟨p', hp', hx⟩ ↦ ⟨p', List.mem_cons_of_mem p hp', hx⟩

/-- A member of a list lies within the list joined together. -/
theorem isInfix_intercalate {sep p : List α} {ps : List (List α)} (h : p ∈ ps) :
    p <:+: List.intercalate sep ps := by
  induction ps with
  | nil => cases h
  | cons q qs ih =>
    cases qs with
    | nil =>
      have hq : p = List.intercalate sep [q] := by
        rw [List.intercalate_singleton]
        exact List.mem_singleton.1 h
      exact ⟨[], [], by simpa using hq⟩
    | cons q' qs =>
      rw [List.intercalate_cons_cons]
      rcases List.mem_cons.1 h with rfl | h
      · rw [List.append_assoc]
        exact (List.prefix_append _ _).isInfix
      · exact (ih h).trans (List.suffix_append _ _).isInfix

/-- Replacing every element by a list goes into a join. -/
theorem flatMap_intercalate (f : α → List β) (sep : List α) (ps : List (List α)) :
    (sep.intercalate ps).flatMap f = (sep.flatMap f).intercalate (ps.map (·.flatMap f)) := by
  induction ps with
  | nil => rfl
  | cons p ps ih =>
    rcases ps with _ | ⟨p', ps⟩
    · simp only [List.intercalate_singleton, List.map_cons, List.map_nil]
    · simp only [List.intercalate_cons_cons, List.flatMap_append, List.map_cons] at ih ⊢
      rw [ih]

theorem map_intercalate (f : α → β) (sep : List α) (ps : List (List α)) :
    (sep.intercalate ps).map f = (sep.map f).intercalate (ps.map (List.map f)) := by
  simp only [List.map_eq_flatMap, flatMap_intercalate]

/-- Pieces with a separator between them make up the text with separators. -/
theorem join_intersperse (sep : String) (texts : List String) :
    String.join (texts.intersperse sep) = sep.intercalate texts := by
  induction texts with
  | nil => rfl
  | cons text texts ih =>
    rcases texts with _ | ⟨next, texts⟩
    · simp
    · rw [List.intersperse_cons_cons, String.join_cons, String.join_cons, ih,
        String.intercalate_cons_cons, String.append_assoc]

/-- Lists of pieces with a separator between them make up the text of their texts. -/
theorem join_flatten_intersperse (sep : String) (pieces : List (List String)) :
    String.join (pieces.intersperse [sep]).flatten = sep.intercalate (pieces.map String.join) := by
  induction pieces with
  | nil => rfl
  | cons piece pieces ih =>
    rcases pieces with _ | ⟨next, pieces⟩
    · simp
    · rw [List.intersperse_cons_cons, List.flatten_cons, List.flatten_cons, String.join_append,
        String.join_append, ih]
      simp [String.append_assoc]

/-! ### Pieces of one length -/

theorem drop_flatten {k : Nat} {ps : List (List α)} (h : ∀ p ∈ ps, p.length = k) (i : Nat) :
    ps.flatten.drop (i * k) = (ps.drop i).flatten := by
  induction i generalizing ps with
  | zero => rw [Nat.zero_mul, List.drop_zero, List.drop_zero]
  | succ i ih =>
    rcases ps with _ | ⟨p, ps⟩
    · simp
    · obtain ⟨hp, hps⟩ := List.forall_mem_cons.1 h
      have hlength : (i + 1) * k = p.length + i * k := by rw [hp, Nat.succ_mul, Nat.add_comm]
      rw [List.flatten_cons, hlength, List.drop_length_add_append, ih hps, List.drop_succ_cons]

/-- The pieces that a list has been joined from are found at multiples of their length. -/
theorem take_drop_flatten {k : Nat} {ps : List (List α)} (h : ∀ p ∈ ps, p.length = k) {i : Nat}
    (hi : i < ps.length) : (ps.flatten.drop (i * k)).take k = ps[i] := by
  have hk : ps[i].length = k := h _ (List.getElem_mem hi)
  rw [drop_flatten h, List.drop_eq_getElem_cons hi, List.flatten_cons]
  conv_lhs => rw [← hk]
  rw [List.take_left]

theorem lt_ceil_iff {k : Nat} (hk : 0 < k) {i m : Nat} : i < (m + k - 1) / k ↔ i * k < m := by
  rw [Nat.lt_iff_add_one_le, Nat.le_div_iff_mul_le hk, Nat.succ_mul]
  omega

/-- Enough pieces next to each other make up the whole list. -/
theorem flatten_pieces {k count : Nat} {l : List α} (h : l.length ≤ count * k) :
    ((List.range count).map fun i ↦ (l.drop (i * k)).take k).flatten = l := by
  have htake : ∀ count, ((List.range count).map fun i ↦ (l.drop (i * k)).take k).flatten =
      l.take (count * k) := by
    intro count
    induction count with
    | zero => simp
    | succ count ih =>
      rw [List.range_succ, List.map_append, List.flatten_append, ih, Nat.succ_mul, List.take_add]
      simp
  rw [htake, List.take_of_length_le h]

theorem zipIdx_map_range (f : Nat → β) (count : Nat) :
    ((List.range count).map f).zipIdx = (List.range count).map fun i ↦ (f i, i) := by
  refine List.ext_getElem (by simp) fun i hi hi' ↦ ?_
  simp

theorem take_range' (first count k : Nat) :
    (List.range' first count).take k = List.range' first (min k count) := by
  rcases Nat.le_total count k with h | h
  · rw [List.take_range'_of_length_le h, Nat.min_eq_right h]
  · rw [List.take_range'_of_length_ge h, Nat.min_eq_left h]

/-! ### Indices -/

/-- The indices from `first` on. -/
theorem map_val_filter_le (first n : Nat) :
    ((List.finRange n).filter (first ≤ ·.val)).map Fin.val = List.range' first (n - first) := by
  have hfilter : ((List.finRange n).filter (first ≤ ·.val)).map Fin.val =
      (List.range n).filter (first ≤ ·) := by
    rw [← List.map_coe_finRange_eq_range, List.filter_map]
    rfl
  rw [hfilter, List.range_eq_range']
  rcases Nat.le_total first n with h | h
  · obtain ⟨count, rfl⟩ := Nat.exists_eq_add_of_le h
    rw [← List.range'_append_1, List.filter_append, Nat.zero_add, Nat.add_sub_cancel_left]
    have hbefore : (List.range' 0 first).filter (first ≤ ·) = [] := by
      simp [List.filter_eq_nil_iff]
    have hafter : (List.range' first count).filter (first ≤ ·) = List.range' first count := by
      rw [List.filter_eq_self]
      intro k hk
      exact decide_eq_true (List.mem_range'_1.1 hk).1
    rw [hbefore, hafter, List.nil_append]
  · rw [Nat.sub_eq_zero_of_le h, List.range'_zero, List.filter_eq_nil_iff]
    intro k hk
    have hlt := (List.mem_range'_1.1 hk).2
    rw [decide_eq_true_iff]
    omega

/-- The first indices are those below their number. -/
theorem filter_lt_finRange (width n : Nat) :
    (List.finRange n).filter (·.val < width) = (List.finRange n).take width := by
  conv_lhs => rw [← List.take_append_drop width (List.finRange n)]
  have hbefore : ((List.finRange n).take width).filter (·.val < width) =
      (List.finRange n).take width := by
    refine List.filter_eq_self.2 fun i hi ↦ ?_
    obtain ⟨k, hk, rfl⟩ := List.mem_take_iff_getElem.1 hi
    rw [decide_eq_true_iff, List.getElem_finRange]
    exact (Nat.lt_min.1 hk).1
  have hafter : ((List.finRange n).drop width).filter (·.val < width) = [] := by
    refine List.filter_eq_nil_iff.2 fun i hi ↦ ?_
    obtain ⟨k, hk, rfl⟩ := List.mem_drop_iff_getElem.1 hi
    simp
  rw [List.filter_append, hbefore, hafter, List.append_nil]

end MatrixScript
