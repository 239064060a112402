import MatrixScript.Proofs.Failures

/-!
# The order of the record

What a line leaves on record if its expression fails, for both phases of an expression: the failing
texts are those of its dissection (`diagnostics_step`). The record has each innermost failure once
(`diagnostics_step_perm`).

Its order is not always that in which the failures come about. In `ADD(a,ADD(b,c))` with three
variables that are not there, `a` fails first. But the outer call keeps that failure until both
arguments are through, and the inner call has recorded `b` by then. `Dissection.InOrder` is the
exact condition for the two orders to agree (`diagnostics_step_order`): an argument that comes after
a failing one has one failure at most.
-/

namespace MatrixScript

/-! ### Phases -/

/-- What is done with an expression, one after the other. -/
inductive Phase
  | reading
  | evaluating
deriving DecidableEq, Repr

/-- The failure of a text itself in a phase. -/
def Phase.failure? (r : Registry) (s : Store) (line : Nat) : Phase → String → Option Diagnostic
  | reading => Term.readFailure? r line
  | evaluating => evaluationFailure? r s line

/-- An expression fails in a phase. It is evaluated only if it can be read. -/
def FailsIn (r : Registry) (s : Store) (line : Nat) (text : String) : Phase → Prop
  | .reading => ∃ d, (Arena.read r line {} text).1 = .error d
  | .evaluating => ∃ a d,
      (Arena.read r line {} text).1 = .ok a ∧ (a.evaluate s line {}).1 = .error d

/-- Whether an expression fails in a phase can be found out. -/
instance (r : Registry) (s : Store) (line : Nat) (text : String) (phase : Phase) :
    Decidable (FailsIn r s line text phase) :=
  match phase with
  | .reading =>
    decidable_of_iff ((failureOf (Arena.read r line {} text).1).isSome = true) <| by
      simp only [Option.isSome_iff_exists, failureOf_eq_some_iff, FailsIn]
  | .evaluating =>
    decidable_of_iff (((Arena.read r line {} text).1.toOption.bind fun a ↦
        failureOf (a.evaluate s line {}).1).isSome = true) <| by
      simp only [Option.isSome_iff_exists, Option.bind_eq_some_iff, toOption_eq_some_iff,
        failureOf_eq_some_iff, FailsIn]
      exact exists_comm.trans (exists_congr fun a ↦ exists_congr fun d ↦ Iff.rfl)

theorem FailsIn.innermost {r : Registry} {s : Store} {line : Nat} {text : String} {phase : Phase}
    (h : FailsIn r s line text phase) : (dissect r text).Innermost (phase.failure? r s line) := by
  rcases phase with _ | _
  · exact Term.innermost_dissect_readFailure? r line text
  · obtain ⟨a, d, hread, -⟩ := h
    obtain ⟨t, ht, -⟩ := Arena.read_eq_ok_iff.1 hread
    exact ht.innermost s line

namespace Session

/-- Evaluating the text of an expression that fails tells its dissection in the failing phase. -/
theorem tells_evaluate (s : Session) {text : String} {phase : Phase}
    (h : FailsIn s.registry s.store s.line text phase) :
    ∃ d recorded j, s.evaluate text = (.error d, j) ∧
      j.diagnostics = s.journal.diagnostics ++ recorded ∧
      (dissect s.registry text).Tells (phase.failure? s.registry s.store s.line)
        (⟨.error d, recorded⟩ : Report Value) := by
  obtain ⟨d, recorded, htells, hread, hresult, hj⟩ | ⟨t, ht, hresult, hj⟩ := s.evaluate_cases text
  · refine ⟨d, recorded, _, Prod.ext hresult rfl, hj, ?_⟩
    rcases phase with _ | _
    · exact htells
    · obtain ⟨a, d', hok, -⟩ := h
      rw [hread] at hok
      cases hok
  · have hok : (Arena.read s.registry s.line {} text).1 = .ok (Arena.ofTerm t) :=
      Arena.read_eq_ok_iff.2 ⟨t, ht, rfl⟩
    rcases phase with _ | _
    · obtain ⟨d, hd⟩ := h
      rw [hok] at hd
      cases hd
    · -- the failure without a record is the one that is reported
      obtain ⟨a, d, hread, hd⟩ := h
      obtain rfl : Arena.ofTerm t = a := Except.ok.inj (hok.symm.trans hread)
      rw [Outline.arena_ofTerm, Outline.evaluate_arena,
        (Outline.evaluate_report s.store s.line (Outline.ofTerm t) 0 {}).1] at hd
      have htells := ht.tells_report s.store s.line
      rw [hd] at hresult
      refine ⟨d, _, _, Prod.ext hresult rfl, hj, ?_, htells.2⟩
      rw [← hd]
      exact htells.1

/-! ### A whole line -/

variable {text : String} {statement : Statement} {phase : Phase}

/-- The expression is what a line fails for, and nothing else is recorded. -/
theorem tells_perform (s : Session)
    (hstatement : Statement.ofWords s.registry (words text) = .ok statement)
    (hfails : FailsIn s.registry s.store s.line statement.expression phase) :
    ∃ d recorded j, s.perform text = (.error d, { s with journal := j }) ∧
      j.diagnostics = s.journal.diagnostics ++ recorded ∧
      (dissect s.registry statement.expression).Tells (phase.failure? s.registry s.store s.line)
        (⟨.error d, recorded⟩ : Report Value) := by
  simp only [perform, Journal.readWords, Journal.readStatement, hstatement]
  -- the session that evaluates differs from `s` in two notes
  generalize hj : Journal.note _ (Note.classified s.line statement) = j
  have hnotes : j.diagnostics = s.journal.diagnostics := by
    rw [← hj]
    rfl
  obtain ⟨d, recorded, j', hevaluate, hj', htells⟩ :=
    tells_evaluate { s with journal := j } hfails
  rw [hevaluate]
  exact ⟨d, recorded, j', rfl, hnotes ▸ hj', htells⟩

/-- **The record of a line whose expression fails** is what its dissection reports. -/
theorem diagnostics_step (s : Session)
    (hstatement : Statement.ofWords s.registry (words text) = .ok statement)
    (hfails : FailsIn s.registry s.store (s.line + 1) statement.expression phase) :
    (∃ d, (s.step text).1 = .error d) ∧ (s.step text).2.line = s.line + 1 ∧
      (s.step text).2.journal.diagnostics =
        (dissect s.registry statement.expression).reported
          (phase.failure? s.registry s.store (s.line + 1)) := by
  obtain ⟨d, recorded, j, hperform, hj, hreturned, hrecorded⟩ :=
    (s.advance text).tells_perform hstatement hfails
  rw [step, hperform]
  refine ⟨⟨d, rfl⟩, rfl, ?_⟩
  show j.diagnostics ++ [d] = _
  -- there was nothing on record when the line began
  rw [hj]
  exact congrArg₂ (fun earlier last ↦ earlier ++ Option.toList last) hrecorded hreturned

/-- **No failure is lost and none is told twice.** If the expression of a line fails in a phase,
then the line fails, and the record has one diagnostic for each innermost failure of that phase:
for each text of the dissection that fails on its own. -/
theorem diagnostics_step_perm (s : Session)
    (hstatement : Statement.ofWords s.registry (words text) = .ok statement)
    (hfails : FailsIn s.registry s.store (s.line + 1) statement.expression phase) :
    (∃ d, (s.step text).1 = .error d) ∧
      (s.step text).2.journal.diagnostics.Perm
        ((dissect s.registry statement.expression).texts.filterMap
          (phase.failure? s.registry s.store (s.line + 1))) := by
  obtain ⟨hfailure, -, hrecord⟩ := s.diagnostics_step hstatement hfails
  refine ⟨hfailure, ?_⟩
  rw [hrecord]
  exact Dissection.reported_perm_raised hfails.innermost

/-- A literal that is no number, a name that no builtin has and a call without its argument, at two
depths. -/
theorem diagnostics_step_perm_nested :
    Statement.ofWords .standard (words "OUT = ADD(1x,ADD(F(y),TRAN()))") =
        .ok ⟨.output, "ADD(1x,ADD(F(y),TRAN()))"⟩ ∧
      FailsIn .standard .empty 1 "ADD(1x,ADD(F(y),TRAN()))" .reading ∧
      (({} : Session).step "OUT = ADD(1x,ADD(F(y),TRAN()))").2.journal.diagnostics.Perm
        [⟨1, .syntaxError "'1x' is not a number"⟩, ⟨1, .unknownFunction "F"⟩,
          ⟨1, .arity "TRAN" 1 0⟩] := by
  have hstatement : Statement.ofWords .standard (words "OUT = ADD(1x,ADD(F(y),TRAN()))") =
      .ok ⟨.output, "ADD(1x,ADD(F(y),TRAN()))"⟩ := by
    decide +kernel
  have hfails : FailsIn .standard .empty 1 "ADD(1x,ADD(F(y),TRAN()))" .reading := by
    decide +kernel
  obtain ⟨-, hperm⟩ := diagnostics_step_perm {} hstatement hfails
  refine ⟨hstatement, hfails, hperm.trans (List.Perm.of_eq ?_)⟩
  decide +kernel

/-- **The order of the record.** A line whose expression fails leaves on record what its dissection
reports, and a run that stops there hands this over in reverse. This is the order in which the
failures come about, if no argument with several failures comes after a failing one; and if the
failures are all different, only then. -/
theorem diagnostics_step_order (s : Session)
    (hstatement : Statement.ofWords s.registry (words text) = .ok statement)
    (hfails : FailsIn s.registry s.store (s.line + 1) statement.expression phase) :
    let own := phase.failure? s.registry s.store (s.line + 1)
    let d := dissect s.registry statement.expression
    (s.step text).2.journal.diagnostics = d.reported own ∧
    (s.step text).2.abort.1 = .error (.aborted (s.line + 1) (d.reported own).reverse) ∧
    (d.InOrder own → (s.step text).2.journal.diagnostics = d.raised own) ∧
    ((d.raised own).Nodup → (s.step text).2.journal.diagnostics = d.raised own →
      d.InOrder own) := by
  intro own d
  obtain ⟨-, hline, hrecord⟩ := s.diagnostics_step hstatement hfails
  have hinnermost : d.Innermost own := hfails.innermost
  refine ⟨hrecord, ?_, fun horder ↦ ?_, fun hnodup hraised ↦ ?_⟩
  · show Except.error (RunError.aborted _ _) = _
    rw [hline, hrecord]
  · exact hrecord.trans (Dissection.reported_eq_raised hinnermost horder)
  · exact Dissection.inOrder_of_reported_eq_raised hinnermost hnodup (hrecord.symm.trans hraised)

/-- A sum with two failures in its first argument and one in its second. -/
theorem diagnostics_step_order_sum :
    Statement.ofWords .standard (words "OUT = ADD(ADD(a,b),c)") =
        .ok ⟨.output, "ADD(ADD(a,b),c)"⟩ ∧
      FailsIn .standard .empty 1 "ADD(ADD(a,b),c)" .evaluating ∧
      (dissect .standard "ADD(ADD(a,b),c)").InOrder (evaluationFailure? .standard .empty 1) := by
  have hstatement : Statement.ofWords .standard (words "OUT = ADD(ADD(a,b),c)") =
      .ok ⟨.output, "ADD(ADD(a,b),c)"⟩ := by
    decide +kernel
  have hfails : FailsIn .standard .empty 1 "ADD(ADD(a,b),c)" .evaluating := by
    decide +kernel
  obtain ⟨-, -, -, honly⟩ := diagnostics_step_order {} hstatement hfails
  exact ⟨hstatement, hfails, honly (by decide +kernel) (by decide +kernel)⟩

/-- The other way round, with one failure in the first argument and two in the second, the record is
not in order: `a` comes about before `b`, and it does not stand before `b`. -/
theorem not_sublist_diagnostics_step :
    Statement.ofWords .standard (words "OUT = ADD(a,ADD(b,c))") =
        .ok ⟨.output, "ADD(a,ADD(b,c))"⟩ ∧
      FailsIn .standard .empty 1 "ADD(a,ADD(b,c))" .evaluating ∧
      [⟨1, .undeclared "a"⟩, ⟨1, .undeclared "b"⟩].Sublist
        ((dissect .standard "ADD(a,ADD(b,c))").raised (evaluationFailure? .standard .empty 1)) ∧
      ¬ [⟨1, .undeclared "a"⟩, ⟨1, .undeclared "b"⟩].Sublist
        (({} : Session).step "OUT = ADD(a,ADD(b,c))").2.journal.diagnostics :=
  ⟨by decide +kernel, by decide +kernel, by decide +kernel, by decide +kernel⟩

end Session

end MatrixScript
