import MatrixScript.Proofs.Denotation
import MatrixScript.Proofs.Writing

/-!
# The effect of a line

What one line of a script does to a session. A line that fails leaves the variables as they are,
and what has been printed too, unless printing is what failed. A line that succeeds has the value
that its expression denotes and does one thing with it: it adds a binding at the end of the store,
it changes the value of a binding in its place, or it prints the value on a line of its own.

The value is settled before anything is done with it. So the steps of a line fall into two parts:
`perform_cases` says that everything before the value is there does no more than write the
journal, and `carryOut_cases` says what becomes of the value, for each target. Success is decided
in the same two places, by what the line asks for (`Asks`) and what the session permits
(`Permits`).
-/

namespace MatrixScript

namespace Store

theorem contains_eq_false_iff {s : Store} {name : String} :
    s.contains name = false ↔ name ∉ s.names := by
  rw [← contains_iff_mem_names, Bool.not_eq_true]

/-- Declaring appends a binding if there is none of the name, and fails if there is one. -/
theorem declare_cases (s : Store) (j : Journal) (name : String) (v : Value) :
    (name ∉ s.names ∧ ∃ j', s.declare j name v = (.ok ⟨s.bindings ++ [(name, v)]⟩, j')) ∨
    (name ∈ s.names ∧ s.declare j name v = (.error (.duplicate name), j)) := by
  by_cases hmem : name ∈ s.names
  · refine .inr ⟨hmem, ?_⟩
    rw [declare, insert, if_pos (contains_iff_mem_names.2 hmem)]
  · refine .inl ⟨hmem, j.note (.declared name v.kind), ?_⟩
    rw [declare, insert, contains_eq_false_iff.2 hmem]
    rfl

/-- Reassigning changes the bindings of the name alone if there are any, and fails otherwise. -/
theorem assign_cases (s : Store) (j : Journal) (name : String) (v : Value) :
    (name ∈ s.names ∧ ∃ j' s', s.assign j name v = (.ok s', j') ∧ s'.names = s.names ∧
      s'.bindings = s.bindings.map fun b ↦ if b.1 = name then (name, v) else b) ∨
    (name ∉ s.names ∧ s.assign j name v = (.error (.undeclared name), j)) := by
  by_cases hmem : name ∈ s.names
  · have hcontains := contains_iff_mem_names.2 hmem
    obtain ⟨old, hold⟩ := Option.isSome_iff_exists.1 hcontains
    have hreplace : s.replace name v =
        .ok ⟨s.bindings.map fun b ↦ if b.1 = name then (name, v) else b⟩ := by
      rw [replace, if_pos hcontains]
    refine .inl ⟨hmem, j.note (.reassigned name old.kind v.kind), _, ?_, ?_, rfl⟩
    · rw [assign, lookup, hold, hreplace]
    · exact names_replace hreplace
  · refine .inr ⟨hmem, ?_⟩
    have hnone : s.find? name = none := by
      rw [← Option.isNone_iff_eq_none, ← Option.isSome_eq_false_iff]
      exact contains_eq_false_iff.2 hmem
    rw [assign, lookup, hnone]

end Store

namespace Session

/-! ### Effects -/

/-- The effect of a failure `d`: nothing has changed, except that a failure to print may come
after a part of what was to be printed. -/
def Keeps (s : Session) (d : Diagnostic) (s' : Session) : Prop :=
  s'.store = s.store ∧ (s'.sink = s.sink ∨ ∃ reason, d.fault = .outputFailed reason)

/-- The effect of declaring a variable: one more binding at the end, of the declared kind. -/
def Declares (s : Session) (kind : Kind) (name : String) (v : Value) (s' : Session) : Prop :=
  v.kind = kind ∧ s'.store.bindings = s.store.bindings ++ [(name, v)] ∧ s'.sink = s.sink

/-- The effect of a reassignment: the same names in the same order, and only the variable's value
is another one. -/
def Assigns (s : Session) (name : String) (v : Value) (s' : Session) : Prop :=
  s'.store.names = s.store.names ∧
    s'.store.bindings = (s.store.bindings.map fun b ↦ if b.1 = name then (name, v) else b) ∧
    s'.sink = s.sink

/-- The effect of printing: the sink has received the text of the value and one line feed. -/
def Prints (s : Session) (v : Value) (s' : Session) : Prop :=
  s'.store = s.store ∧
    s'.sink = { s.sink with taken := s.sink.taken ++ (v.text ++ "\n").toUTF8 }

/-- The effect of a target on a value, once it has succeeded. -/
def Does (s : Session) (v : Value) (s' : Session) : Target → Prop
  | .declare kind name => s.Declares kind name v s'
  | .assign name => s.Assigns name v s'
  | .output => s.Prints v s'

/-- What a target needs for succeeding with a value: a declaration a value of the kind and a new
name, a reassignment a name that is there, and printing a sink with enough room. -/
def Permits (s : Session) (v : Value) : Target → Prop
  | .declare kind name => v.kind = kind ∧ name ∉ s.store.names
  | .assign name => name ∈ s.store.names
  | .output => s.sink.accepts (v.text ++ "\n").toUTF8.size = (v.text ++ "\n").toUTF8.size

/-- A text asks, as line number `line`, for a statement with a value: it is the statement, and the
statement's expression denotes the value. -/
def Asks (s : Session) (line : Nat) (text : String) (statement : Statement) (v : Value) : Prop :=
  Statement.ofWords s.registry (words text) = .ok statement ∧
    denote s.registry s.store line statement.expression = some v

/-- A text asks for one thing at most. -/
theorem Asks.unique {s : Session} {line : Nat} {text : String} {statement statement' : Statement}
    {v v' : Value} (h : s.Asks line text statement v) (h' : s.Asks line text statement' v') :
    statement = statement' ∧ v = v' := by
  obtain ⟨hstatement, hdenote⟩ := h
  obtain ⟨hstatement', hdenote'⟩ := h'
  obtain rfl : statement = statement' := Except.ok.inj (hstatement.symm.trans hstatement')
  exact ⟨rfl, Option.some.inj (hdenote.symm.trans hdenote')⟩

/-! ### Carrying out -/

/-- **What becomes of a value**: the target is permitted and does what it says, or it is not and
keeps everything. -/
theorem carryOut_cases (s : Session) (target : Target) (v : Value) :
    (s.Permits v target ∧ ∃ s', s.carryOut target v = (.ok (), s') ∧ s'.line = s.line ∧
      s.Does v s' target) ∨
    (¬ s.Permits v target ∧ ∃ d s', s.carryOut target v = (.error d, s') ∧ s'.line = s.line ∧
      s.Keeps d s') := by
  cases target with
  | declare kind name =>
    by_cases hkind : v.kind = kind
    · rw [carryOut, if_pos hkind]
      obtain ⟨hnew, j, h⟩ | ⟨hold, h⟩ := s.store.declare_cases s.journal name v
      · rw [h]
        exact .inl ⟨⟨hkind, hnew⟩, _, rfl, rfl, hkind, rfl, rfl⟩
      · rw [h]
        exact .inr ⟨fun hp ↦ hp.2 hold, _, _, rfl, rfl, rfl, .inl rfl⟩
    · rw [carryOut, if_neg hkind]
      exact .inr ⟨fun hp ↦ hkind hp.1, _, _, rfl, rfl, rfl, .inl rfl⟩
  | assign name =>
    rw [carryOut]
    obtain ⟨hold, j, store, h, hnames, hbindings⟩ | ⟨hnew, h⟩ :=
      s.store.assign_cases s.journal name v
    · rw [h]
      exact .inl ⟨hold, _, rfl, rfl, hnames, hbindings, rfl⟩
    · rw [h]
      exact .inr ⟨hnew, _, _, rfl, rfl, rfl, .inl rfl⟩
  | output =>
    simp only [carryOut, print_eq]
    obtain ⟨hroom, h⟩ | ⟨hfull, sink, h⟩ := s.sink.write_cases (v.text ++ "\n")
    · rw [h]
      exact .inl ⟨hroom, _, rfl, rfl, rfl, rfl⟩
    · -- the sink may have taken a part of the text, but then the failure says so
      rw [h]
      exact .inr ⟨hfull, _, _, rfl, rfl, rfl, .inr ⟨_, rfl⟩⟩

/-! ### Reading and evaluating -/

/-- An expression is evaluated to the value that it denotes. -/
theorem evaluate_eq_ok_iff {s : Session} {text : String} {v : Value} :
    (s.evaluate text).1 = .ok v ↔ denote s.registry s.store s.line text = some v := by
  rw [denote_eq_some_iff, evaluate]
  have hread := @Arena.read_eq_ok_iff s.registry s.line s.journal text
  rcases hresult : Arena.read s.registry s.line s.journal text with ⟨d | a, j⟩
  · simp only [hresult, reduceCtorEq, false_iff] at hread ⊢
    rintro ⟨t, ht, -⟩
    exact hread ⟨t, ht, rfl⟩
  · simp only [hresult, Except.ok.injEq] at hread ⊢
    constructor
    · intro hvalue
      obtain ⟨t, ht, rfl⟩ := hread.1 rfl
      exact ⟨t, ht, Arena.evaluate_ofTerm_eq_ok_iff.1 hvalue⟩
    · rintro ⟨t, ht, houtcome⟩
      rw [hread.2 ⟨t, ht, rfl⟩]
      exact Arena.evaluate_ofTerm_eq_ok_iff.2 houtcome

theorem denote_ne_of_evaluate_eq_error {s : Session} {text : String} {d : Diagnostic} {j : Journal}
    (h : s.evaluate text = (.error d, j)) (v : Value) :
    denote s.registry s.store s.line text ≠ some v := by
  intro hdenote
  have hvalue := evaluate_eq_ok_iff.2 hdenote
  rw [h] at hvalue
  cases hvalue

/-- A line either asks for a statement with a value and comes down to carrying it out, or asks for
nothing and fails. What is done until then is to write the journal. -/
theorem perform_cases (s : Session) (text : String) :
    (∃ statement v j, s.Asks s.line text statement v ∧
      s.perform text = { s with journal := j }.carryOut statement.target v) ∨
    ((∀ statement v, ¬ s.Asks s.line text statement v) ∧
      ∃ d j, s.perform text = (.error d, { s with journal := j })) := by
  simp only [perform, Journal.readWords, Journal.readStatement]
  cases hstatement : Statement.ofWords s.registry (words text) with
  | error e =>
    refine .inr ⟨fun statement v hasks ↦ ?_, _, _, rfl⟩
    cases hstatement.symm.trans hasks.1
  | ok statement =>
    simp only
    -- the session that evaluates differs from `s` in its journal alone
    rcases heval : evaluate _ statement.expression with ⟨d | v, j⟩
    · refine .inr ⟨fun statement' v hasks ↦ ?_, d, j, rfl⟩
      obtain rfl : statement = statement' := Except.ok.inj (hstatement.symm.trans hasks.1)
      have hne := denote_ne_of_evaluate_eq_error heval v
      exact hne hasks.2
    · have hdenote := evaluate_eq_ok_iff.1 (congrArg Prod.fst heval)
      exact .inl ⟨statement, v, j, ⟨hstatement, hdenote⟩, rfl⟩

/-! ### One line -/

/-- **A line has exactly one of four effects**, and counts as one line in any case. If it fails,
nothing is changed. If it succeeds, it asks for a statement with a value, and it declares a
variable with that value, or gives it to a variable, or prints it. It fails only if it asks for
nothing that the session permits. -/
theorem step_effect (s : Session) (text : String) :
    (s.step text).2.line = s.line + 1 ∧
    match s.step text with
    | (.error d, s') => s.Keeps d s' ∧
        ∀ statement v, s.Asks (s.line + 1) text statement v → ¬ s.Permits v statement.target
    | (.ok (), s') => ∃ statement v, s.Asks (s.line + 1) text statement v ∧
        s.Permits v statement.target ∧ s.Does v s' statement.target := by
  rw [step]
  obtain ⟨statement, v, j, hasks, h⟩ | ⟨hnothing, d, j, h⟩ :=
    (s.advance text).perform_cases text
  · obtain ⟨hpermits, s', hs', hline, hdoes⟩ | ⟨hrefuses, d, s', hs', hline, hkeeps⟩ :=
      { s.advance text with journal := j }.carryOut_cases statement.target v
    · rw [h, hs']
      exact ⟨hline, statement, v, hasks, hpermits, hdoes⟩
    · rw [h, hs']
      refine ⟨hline, hkeeps, fun statement' v' hasks' ↦ ?_⟩
      obtain ⟨rfl, rfl⟩ := hasks'.unique hasks
      exact hrefuses
  · rw [h]
    refine ⟨rfl, ⟨rfl, .inl rfl⟩, fun statement v hasks ↦ ?_⟩
    exact absurd hasks (hnothing statement v)

end Session

end MatrixScript
