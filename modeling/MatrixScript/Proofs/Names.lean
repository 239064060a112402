import MatrixScript.Proofs.Grammar
import MatrixScript.Proofs.Run
import MatrixScript.Proofs.Statement

/-!
# The names of variables

Only a declaration looks at the name that it is given; a reassignment takes any word and fails if no
variable has it for a name. So what is checked when a variable is declared holds of all variables of
a session, whatever has been done with it (`Reached.orderly`): names are different from each other,
can be names, and are not reserved. They stand in the order of the declarations.

Such a name can be used. A line that prints it is cut into its three words, the third of them reads
as a variable and not as a literal or a call, and it denotes the value that it is bound to
(`asks_output_name`).
-/

namespace MatrixScript

/-- With different names, a variable has the value that it is bound to. -/
theorem Store.find?_of_mem {s : Store} (hnodup : s.names.Nodup) {name : String} {v : Value}
    (hmem : (name, v) ∈ s.bindings) : s.find? name = some v := by
  obtain ⟨bs⟩ := s
  induction bs with
  | nil => exact nomatch hmem
  | cons b bs ih =>
    obtain ⟨hnew, hnodup⟩ := List.nodup_cons.1 hnodup
    rcases List.mem_cons.1 hmem with rfl | hmem
    · simp [find?]
    · have hne : ¬ b.1 = name := by
        rintro rfl
        exact hnew (List.mem_map.2 ⟨_, hmem, rfl⟩)
      have htail := ih hnodup hmem
      simpa [find?, hne] using htail

namespace Session

/-! ### Histories of a session -/

/-- The name that a line declares: that of its declaration, if it is one and succeeds. -/
def declared (s : Session) (text : String) : List String :=
  match (s.step text).1, Statement.ofWords s.registry (words text) with
  | .ok (), .ok ⟨.declare _ name, _⟩ => [name]
  | _, _ => []

/-- The sessions that there can be over a registry, each with the names that have been declared
since the last run has come to its end. In the middle of a run there are those that lines lead to
once the run has begun. -/
inductive Reached (r : Registry) : Session → List String → Prop
  | created (sink : Sink) : Reached r { registry := r, sink } []
  | line {s : Session} {names : List String} (reached : Reached r s names) (text : String) :
    Reached r (s.step text).2 (names ++ s.declared text)
  | begun {s : Session} {names : List String} (reached : Reached r s names) :
    Reached r s.begun names
  | ran {s : Session} {names : List String} (reached : Reached r s names) (source : Source) :
    Reached r (s.run source).2 []

/-- The variables of a session have the names in this order, which are different from each other,
can be names and are not reserved. -/
structure Orderly (r : Registry) (s : Session) (names : List String) : Prop where
  registry : s.registry = r
  names_eq : s.store.names = names
  nodup : names.Nodup
  free : ∀ name ∈ names, Statement.checkName r name = .ok ()

/-- A line adds the name that it declares at the end, and this is a new one that has been
checked. -/
theorem names_step (s : Session) (text : String) :
    (s.step text).2.store.names = s.store.names ++ s.declared text ∧
      (s.declared text = [] ∨ ∃ name, s.declared text = [name] ∧ name ∉ s.store.names ∧
        Statement.checkName s.registry name = .ok ()) := by
  rw [declared]
  obtain ⟨s', -, -, ⟨⟨target, expression⟩, v, hasks, hpermits, h, hdoes⟩ | ⟨d, -, h, hstore⟩⟩ :=
    s.step_cases text
  · rw [h, hasks.1]
    rcases target with ⟨kind, name⟩ | name | _
    · obtain ⟨-, hbindings, -⟩ := hdoes
      refine ⟨?_, .inr ⟨name, rfl, hpermits.2, (Statement.ofWords_eq_ok_iff.1 hasks.1).2⟩⟩
      rw [Store.names, hbindings, List.map_append]
      rfl
    · obtain ⟨hnames, -, -⟩ := hdoes
      exact ⟨hnames.trans (List.append_nil _).symm, .inl rfl⟩
    · obtain ⟨hstore, -⟩ := hdoes
      exact ⟨(congrArg Store.names hstore).trans (List.append_nil _).symm, .inl rfl⟩
  · rw [h]
    exact ⟨(congrArg Store.names hstore).trans (List.append_nil _).symm, .inl rfl⟩

theorem Orderly.step {r : Registry} {s : Session} {names : List String} (h : Orderly r s names)
    (text : String) : Orderly r (s.step text).2 (names ++ s.declared text) := by
  obtain ⟨rfl, rfl, hnodup, hfree⟩ := h
  have hregistry := (s.registry_line_step text).1
  obtain ⟨hnames, hnone | ⟨name, hname, hnew, hchecked⟩⟩ := s.names_step text
  · rw [hnone, List.append_nil] at hnames ⊢
    exact ⟨hregistry, hnames, hnodup, hfree⟩
  · rw [hname] at hnames ⊢
    refine ⟨hregistry, hnames, ?_, ?_⟩
    · refine List.nodup_append.2 ⟨hnodup, List.pairwise_singleton _ name, ?_⟩
      rintro x hx _ hy rfl
      exact hnew (List.mem_singleton.1 hy ▸ hx)
    · intro x hx
      rcases List.mem_append.1 hx with hx | hx
      · exact hfree x hx
      · rwa [List.mem_singleton.1 hx]

/-- Carrying out what a reader gets keeps the builtins. -/
theorem registry_runReads (s : Session) (reads : List (Except String (List UInt8))) :
    (s.runReads reads).2.registry = s.registry := by
  induction reads generalizing s with
  | nil => rfl
  | cons read rest ih =>
    rcases read with reason | bytes
    · rfl
    rcases hdecode : Text.Utf8.decode bytes with fault | text
    · rw [runReads_of_fault hdecode]
    have hregistry := (s.registry_line_step text).1
    rcases hstep : s.step text with ⟨d | ⟨⟩, s'⟩
    · rw [hstep] at hregistry
      rw [runReads_of_error hdecode hstep]
      exact hregistry
    · rw [hstep] at hregistry
      rw [runReads_of_ok hdecode hstep, ih]
      exact hregistry

/-- **Whatever is done with a session, its variables are in order.** -/
theorem Reached.orderly {r : Registry} {s : Session} {names : List String}
    (h : Reached r s names) : Orderly r s names := by
  induction h with
  | created sink => exact ⟨rfl, rfl, List.nodup_nil, List.forall_mem_nil _⟩
  | line _ text ih => exact ih.step text
  | begun _ ih => exact ⟨ih.registry, ih.names_eq, ih.nodup, ih.free⟩
  | @ran s names _ source ih =>
    exact ⟨(registry_runReads s.begun source.reads).trans ih.registry, rfl, List.nodup_nil,
      List.forall_mem_nil _⟩

/-! ### Printing a variable -/

/-- A line that prints a variable asks for its value. -/
theorem asks_output_name {r : Registry} {s : Session} {names : List String}
    (h : Orderly r s names) {name : String} {v : Value} (hmem : (name, v) ∈ s.store.bindings)
    (line : Nat) : s.Asks line ("OUT = " ++ name) ⟨.output, name⟩ v := by
  have hname : name ∈ names := by
    rw [← h.names_eq]
    exact List.mem_map.2 ⟨_, hmem, rfl⟩
  obtain ⟨hisName, -, -⟩ := Statement.checkName_eq_ok_iff.1 (h.free name hname)
  have hword := (Word.isName_iff_identifier.1 hisName).isWord
  refine ⟨?_, ?_⟩
  · have hwritable : Statement.Writable s.registry ⟨.output, name⟩ := ⟨trivial, hword⟩
    have hline : "OUT = " ++ name = " ".intercalate (Statement.toWords ⟨.output, name⟩) := rfl
    rw [hline]
    exact Statement.ofWords_words_intercalate hwritable
  · have hliteral := Word.beginsLiteral_of_isName hisName []
    rw [List.append_nil] at hliteral
    show denote s.registry s.store line name = some v
    rw [denote_of_reference hword.ne_empty hliteral
      (Word.not_mem_of_isName hisName)]
    refine Store.find?_of_mem ?_ hmem
    rw [h.names_eq]
    exact h.nodup

/-- **The variables of a session.** In every session that there can be over a registry, the names of
the variables are those that have been declared since the last run has come to its end, in this
order. They are different from each other, can be names, and are neither keywords nor names of
builtins. And a line that prints a variable succeeds on a sink that takes everything, and prints the
value that the variable is bound to. -/
theorem names_of_reached {r : Registry} {s : Session} {names : List String}
    (h : Reached r s names) :
    s.store.names = names ∧ names.Nodup ∧
      (∀ name ∈ names, Word.Identifier name ∧ name ∉ ["MAT", "NUM", "OUT"] ∧ name ∉ r.names) ∧
      ∀ name v, (name, v) ∈ s.store.bindings → ∀ sink : Sink, sink.capacity = none →
        ∃ s', ({ s with sink } : Session).step ("OUT = " ++ name) = (.ok (), s') ∧
          s'.sink = { sink with taken := sink.taken ++ (v.text ++ "\n").toUTF8 } := by
  have horderly := h.orderly
  refine ⟨horderly.names_eq, horderly.nodup, fun name hname ↦ ?_, ?_⟩
  · obtain ⟨hisName, hfree⟩ := Statement.checkName_eq_ok_iff.1 (horderly.free name hname)
    exact ⟨Word.isName_iff_identifier.1 hisName, hfree⟩
  · intro name v hmem sink hsink
    have hasks : ({ s with sink } : Session).Asks (s.line + 1) ("OUT = " ++ name)
        ⟨.output, name⟩ v := asks_output_name horderly hmem (s.line + 1)
    have hpermits : ({ s with sink } : Session).Permits v .output := by
      show sink.accepts _ = _
      rw [Sink.accepts, hsink]
    obtain ⟨s', -, -, ⟨statement, u, hasks', -, hstep, hdoes⟩ | ⟨d, hrefuses, -⟩⟩ :=
      ({ s with sink } : Session).step_cases ("OUT = " ++ name)
    · obtain ⟨rfl, rfl⟩ := hasks'.unique hasks
      exact ⟨s', hstep, hdoes.2⟩
    · exact absurd hpermits (hrefuses _ v hasks)

/-- A variable of an earlier run, two declarations and a reassignment of the first. -/
theorem names_of_reached_reassigned :
    let s₀ := (({} : Session).run (.ofString "NUM old = 1")).2
    let s := (((s₀.step "NUM x = 1").2.step "MAT m = [1,2]").2.step "x = 3").2
    Reached .standard s ["x", "m"] ∧ s.store.names = ["x", "m"] ∧
      ∃ s', ({ s with sink := {} } : Session).step "OUT = x" = (.ok (), s') ∧
        s'.sink = { taken := "3.000000\n".toUTF8 } := by
  intro s₀ s
  have hreached : Reached .standard s ["x", "m"] := by
    convert ((((Reached.created {}).ran (.ofString "NUM old = 1")).line "NUM x = 1").line
      "MAT m = [1,2]").line "x = 3" using 1
    decide +kernel
  have hbound : ∃ b ∈ s.store.bindings, b.1 = "x" ∧ b.2.text = "3.000000" := by decide +kernel
  obtain ⟨⟨_, v⟩, hmem, rfl, hv : v.text = "3.000000"⟩ := hbound
  obtain ⟨hnames, -, -, hprints⟩ := names_of_reached hreached
  obtain ⟨s', hstep, hsink⟩ := hprints "x" v hmem {} rfl
  rw [hv] at hsink
  exact ⟨hreached, hnames, s', hstep, hsink⟩

end Session

end MatrixScript
