import MatrixScript.Journal

/-!
# Attempting every argument

The arguments of a call are all worked on, from left to right, even after one of them has
failed. Only then is it decided how the call goes on: with all values, or with a failure. Of
several failures the last one is returned, and the ones before it are recorded.
-/

namespace MatrixScript

/-- Applies an action to every item, from left to right, with a state passed along. -/
def attemptAll {σ α β : Type} (act : σ → α → β × σ) : σ → List α → List β × σ
  | s, [] => ([], s)
  | s, x :: xs =>
    let (y, s) := act s x
    let (ys, s) := attemptAll act s xs
    (y :: ys, s)

/-- The values of results, if there are nothing but values; otherwise the failures among them,
the last one apart. -/
def verdict {ε β : Type} : List (Except ε β) → Except (List ε × ε) (List β)
  | [] => .ok []
  | .ok v :: rest =>
    match verdict rest with
    | .ok vs => .ok (v :: vs)
    | .error e => .error e
  | .error e :: rest =>
    match verdict rest with
    | .ok _ => .error ([], e)
    | .error (es, last) => .error (e :: es, last)

/-- The failures among results, in order. -/
def failures {ε β : Type} (results : List (Except ε β)) : List ε :=
  results.filterMap fun
    | .error e => some e
    | .ok _ => none

@[simp]
theorem failures_nil {ε β : Type} : failures ([] : List (Except ε β)) = [] := rfl

@[simp]
theorem failures_ok_cons {ε β : Type} (v : β) (rest : List (Except ε β)) :
    failures (.ok v :: rest) = failures rest := rfl

@[simp]
theorem failures_error_cons {ε β : Type} (e : ε) (rest : List (Except ε β)) :
    failures (.error e :: rest) = e :: failures rest := rfl

/-- The verdict is a list of values exactly if the results are these values. -/
theorem verdict_eq_ok_iff {ε β : Type} {results : List (Except ε β)} {vs : List β} :
    verdict results = .ok vs ↔ results = vs.map .ok := by
  induction results generalizing vs with
  | nil => cases vs <;> simp [verdict]
  | cons r rest ih =>
    cases r with
    | ok v =>
      cases vs with
      | nil => cases hv : verdict rest <;> simp [verdict, hv]
      | cons w ws =>
        have hrest := @ih ws
        cases hv : verdict rest <;> simp_all [verdict]
    | error e =>
      cases vs <;> rcases hv : verdict rest with ⟨es, last⟩ | us <;> simp [verdict, hv]

/-- The verdict is a failure exactly if there are failures, and it then tells them all. -/
theorem verdict_eq_error_iff {ε β : Type} {results : List (Except ε β)} {earlier : List ε}
    {last : ε} :
    verdict results = .error (earlier, last) ↔ failures results = earlier ++ [last] := by
  induction results generalizing earlier last with
  | nil => simp [verdict]
  | cons r rest ih =>
    cases r with
    | ok v =>
      have hrest := @ih earlier last
      cases hv : verdict rest <;> simp_all [verdict]
    | error e =>
      rcases hv : verdict rest with ⟨es, e'⟩ | us
      · have hrest := (@ih es e').1 hv
        simp only [verdict, hv, failures_error_cons, hrest, Except.error.injEq, Prod.mk.injEq]
        cases earlier with
        | nil => simp
        | cons x xs => simp [and_assoc]
      · have hrest : failures rest = [] := by
          rw [verdict_eq_ok_iff.1 hv]
          clear hv
          induction us with
          | nil => rfl
          | cons u us ih => exact ih
        simp only [verdict, hv, failures_error_cons, hrest, Except.error.injEq, Prod.mk.injEq]
        cases earlier with
        | nil => simp
        | cons x xs => simp

/-- Decides on the results of a call's arguments. -/
def Journal.settle {β : Type} (j : Journal) (results : List (Except Diagnostic β)) :
    Except Diagnostic (List β) × Journal :=
  match verdict results with
  | .ok vs => (.ok vs, j)
  | .error (earlier, last) => (.error last, j.recordAll earlier)

/-- A call goes on only with the values of all arguments, and then nothing is recorded. -/
theorem Journal.settle_eq_ok {β : Type} {j j' : Journal} {results : List (Except Diagnostic β)}
    {vs : List β} (h : j.settle results = (.ok vs, j')) : results = vs.map .ok ∧ j' = j := by
  rw [settle] at h
  split at h
  · next us hus =>
    cases h
    exact ⟨verdict_eq_ok_iff.1 hus, rfl⟩
  · cases h

/-- A call that does not go on records all failures but the last one, which it returns. -/
theorem Journal.settle_eq_error {β : Type} {j j' : Journal}
    {results : List (Except Diagnostic β)} {d : Diagnostic}
    (h : j.settle results = (.error d, j')) :
    ∃ earlier, failures results = earlier ++ [d] ∧ j' = j.recordAll earlier := by
  rw [settle] at h
  split at h
  · cases h
  · next earlier last hlast =>
    cases h
    exact ⟨earlier, verdict_eq_error_iff.1 hlast, rfl⟩

end MatrixScript
