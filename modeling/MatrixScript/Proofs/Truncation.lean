import MatrixScript.Proofs.Run

/-!
# Output that does not fit

Two runs of one script side by side, one into a sink that takes everything and one into a sink that
takes a number of bytes and then refuses. The sink has no say in anything but printing: a line that
does not print does the same with either sink, and a line that prints does the same up to the moment
of printing (`step_onto`). So the runs stay in step as long as the output fits, whatever else
happens in them.

The first line whose output does not fit ends the second run. What has been taken by then is the
beginning of what the first run goes on to print, since nothing that has been printed is ever taken
back (`taken_runReads`).

It does not matter in which pieces a value is handed to a sink (`Session.print_eq`): the sink breaks
off at the same byte, be it inside a piece or between two.
-/

namespace MatrixScript

namespace Sink

/-- The sink that takes `n` bytes in all and has taken what this one has. -/
def limited (s : Sink) (n : Nat) (refusal : String) : Sink :=
  { capacity := some n, refusal, taken := s.taken }

section

variable {s : Sink} {text : String} {n : Nat}

/-- What a sink takes is added at the end. -/
theorem exists_taken_write (s : Sink) (text : String) :
    ∃ more, (s.write text).2.taken = s.taken ++ more := by
  by_cases h : s.accepts text.toUTF8.size = text.toUTF8.size
  · rw [write_of_accepts h]
    exact ⟨_, rfl⟩
  · rw [write_of_not_accepts h]
    exact ⟨_, rfl⟩

/-- A text that fits is taken whole by a limited sink. -/
theorem write_limited_of_le (refusal : String) (h : (s.taken ++ text.toUTF8).size ≤ n) :
    (s.limited n refusal).write text =
      (.ok (), { capacity := some n, refusal, taken := s.taken ++ text.toUTF8 }) := by
  rw [ByteArray.size_append] at h
  refine write_of_accepts ?_
  show min text.toUTF8.size (n - s.taken.size) = text.toUTF8.size
  omega

/-- Of a text that does not fit, a limited sink takes what makes up its number of bytes. -/
theorem write_limited_of_lt (refusal : String) (hwithin : s.taken.size ≤ n)
    (h : n < (s.taken ++ text.toUTF8).size) :
    (s.limited n refusal).write text =
      (.error refusal,
        { capacity := some n, refusal, taken := (s.taken ++ text.toUTF8).extract 0 n }) := by
  rw [ByteArray.size_append] at h
  have haccepts : (s.limited n refusal).accepts text.toUTF8.size = n - s.taken.size := by
    show min text.toUTF8.size (n - s.taken.size) = n - s.taken.size
    omega
  have hne : (s.limited n refusal).accepts text.toUTF8.size ≠ text.toUTF8.size := by
    rw [haccepts]
    omega
  rw [write_of_not_accepts hne, haccepts, ByteArray.extract_append,
    extract_zero_of_size_le hwithin, Nat.zero_sub]
  rfl

end

end Sink

namespace Session

/-! ### The sink has no say in anything but printing -/

/-- The session with another sink. -/
def onto (s : Session) (sink : Sink) : Session :=
  { s with sink }

/-- A target other than printing does the same with any sink. -/
theorem carryOut_onto (s : Session) {target : Target} (hne : target ≠ .output) (v : Value)
    (sink : Sink) :
    (s.onto sink).carryOut target v =
      ((s.carryOut target v).1, (s.carryOut target v).2.onto sink) := by
  -- a change of the store goes through with any sink alike
  have hstore : ∀ p, (s.onto sink).withStore p =
      ((s.withStore p).1, (s.withStore p).2.onto sink) := by
    rintro ⟨e | store, journal⟩
    · rfl
    · rfl
  rcases target with ⟨kind, name⟩ | name | _
  · rw [carryOut, carryOut]
    split
    · exact hstore _
    · rfl
  · exact hstore _
  · exact absurd rfl hne

/-- The session when the words of a line have been recognised as a statement. -/
def recognised (s : Session) (text : String) (statement : Statement) : Session :=
  { s with
    journal := (s.journal.note (.tokenized text (words text))).note
      (.classified s.line statement) }

section

variable {s : Session} {text : String}

theorem perform_of_shape_error {e : Statement.Error}
    (h : Statement.ofWords s.registry (words text) = .error e) :
    s.perform text = (.error (e.fault.onLine s.line),
      { s with journal := s.journal.note (.tokenized text (words text)) }) := by
  simp only [perform, Journal.readWords, Journal.readStatement, h]

theorem perform_of_evaluate_error {statement : Statement} {d : Diagnostic} {j : Journal}
    (h : Statement.ofWords s.registry (words text) = .ok statement)
    (heval : (s.recognised text statement).evaluate statement.expression = (.error d, j)) :
    s.perform text = (.error d, { s with journal := j }) := by
  rw [recognised] at heval
  simp only [perform, Journal.readWords, Journal.readStatement, h, heval]

theorem perform_of_evaluate_ok {statement : Statement} {v : Value} {j : Journal}
    (h : Statement.ofWords s.registry (words text) = .ok statement)
    (heval : (s.recognised text statement).evaluate statement.expression = (.ok v, j)) :
    s.perform text = ({ s with journal := j } : Session).carryOut statement.target v := by
  rw [recognised] at heval
  simp only [perform, Journal.readWords, Journal.readStatement, h, heval]

end

/-- A line comes to the same with any sink, or it comes down to printing a value with nothing more
on record. -/
theorem perform_onto (s : Session) (text : String) :
    (∃ (result : Except Diagnostic Unit) (s' : Session),
      ∀ sink, (s.onto sink).perform text = (result, s'.onto sink)) ∨
    ∃ (expression : String) (v : Value) (s' : Session),
      s.Asks s.line text ⟨.output, expression⟩ v ∧
        s'.journal.diagnostics = s.journal.diagnostics ∧
        ∀ sink, (s.onto sink).perform text = (s'.onto sink).print v := by
  rcases hstatement : Statement.ofWords s.registry (words text) with e | ⟨target, expression⟩
  · refine .inl ⟨.error (e.fault.onLine s.line),
      { s with journal := s.journal.note (.tokenized text (words text)) }, fun sink ↦ ?_⟩
    exact perform_of_shape_error (s := s.onto sink) hstatement
  -- what an expression evaluates to is a matter of builtins, variables, line and journal
  rcases heval : (s.recognised text ⟨target, expression⟩).evaluate expression with ⟨d | v, j⟩
  · refine .inl ⟨.error d, { s with journal := j }, fun sink ↦ ?_⟩
    exact perform_of_evaluate_error (s := s.onto sink) hstatement heval
  have hperform : ∀ sink, (s.onto sink).perform text =
      (({ s with journal := j } : Session).onto sink).carryOut target v := fun sink ↦
    perform_of_evaluate_ok (s := s.onto sink) hstatement heval
  by_cases htarget : target = .output
  · subst htarget
    have hdenote := evaluate_eq_ok_iff.1 (congrArg Prod.fst heval)
    have hj := diagnostics_of_evaluate heval
    exact .inr ⟨expression, v, { s with journal := j }, ⟨hstatement, hdenote⟩, hj, hperform⟩
  · have hcarry := carryOut_onto { s with journal := j } htarget v
    exact .inl ⟨_, _, fun sink ↦ (hperform sink).trans (hcarry sink)⟩

/-- The failure that a line returns goes on record. -/
def closed : Except Diagnostic Unit × Session → Except Diagnostic Unit × Session
  | (.ok (), s) => (.ok (), s)
  | (.error d, s) => (.error d, { s with journal := s.journal.record d })

theorem step_eq_closed (s : Session) (text : String) :
    s.step text = closed ((s.advance text).perform text) := by
  rw [step]
  rcases (s.advance text).perform text with ⟨d | ⟨⟩, s'⟩
  · rfl
  · rfl

/-- **What the sink has to do with a line**: nothing, or the line comes down to printing a value. -/
theorem step_onto (s : Session) (text : String) :
    (∃ (result : Except Diagnostic Unit) (s' : Session),
      ∀ sink, (s.onto sink).step text = (result, s'.onto sink)) ∨
    ∃ (expression : String) (v : Value) (s' : Session),
      s.Asks (s.line + 1) text ⟨.output, expression⟩ v ∧ s'.journal.diagnostics = [] ∧
        ∀ sink, (s.onto sink).step text = closed ((s'.onto sink).print v) := by
  obtain ⟨result, s', hperform⟩ | ⟨expression, v, s', hasks, hj, hperform⟩ :=
    (s.advance text).perform_onto text
  · refine .inl ⟨result, (closed (result, s')).2, fun sink ↦ ?_⟩
    rw [step_eq_closed]
    show closed (((s.advance text).onto sink).perform text) = _
    rw [hperform]
    rcases result with d | ⟨⟩
    · rfl
    · rfl
  · refine .inr ⟨expression, v, s', hasks, hj, fun sink ↦ ?_⟩
    rw [step_eq_closed]
    show closed (((s.advance text).onto sink).perform text) = _
    rw [hperform]

/-! ### Printing -/

section

variable {s : Session} {v : Value} {sink : Sink}

theorem print_of_ok (h : s.sink.write (v.text ++ "\n") = (.ok (), sink)) :
    s.print v =
      (.ok (), { s with sink, journal := s.journal.note (.printed (v.text ++ "\n")) }) := by
  rw [print_eq, h]

theorem print_of_error {reason : String}
    (h : s.sink.write (v.text ++ "\n") = (.error reason, sink)) :
    s.print v = (.error ((Fault.outputFailed reason).onLine s.line), { s with sink }) := by
  rw [print_eq, h]

end

/-- Nothing that has been printed is taken back by a line. -/
theorem taken_step (s : Session) (text : String) :
    ∃ more, (s.step text).2.sink.taken = s.sink.taken ++ more := by
  show ∃ more, ((s.onto s.sink).step text).2.sink.taken = _
  obtain ⟨result, s', hstep⟩ | ⟨expression, v, s', -, -, hstep⟩ := s.step_onto text
  · rw [hstep]
    exact ⟨.empty, ByteArray.append_empty.symm⟩
  · obtain ⟨more, hmore⟩ := s.sink.exists_taken_write (v.text ++ "\n")
    rcases hwrite : s.sink.write (v.text ++ "\n") with ⟨reason | ⟨⟩, sink⟩
    · rw [hstep, print_of_error (s := s'.onto s.sink) hwrite]
      rw [hwrite] at hmore
      exact ⟨more, hmore⟩
    · rw [hstep, print_of_ok (s := s'.onto s.sink) hwrite]
      rw [hwrite] at hmore
      exact ⟨more, hmore⟩

/-- Nothing that has been printed is taken back by a run. -/
theorem taken_runReads (s : Session) (reads : List (Except String (List UInt8))) :
    ∃ more, (s.runReads reads).2.sink.taken = s.sink.taken ++ more := by
  induction reads generalizing s with
  | nil => exact ⟨.empty, ByteArray.append_empty.symm⟩
  | cons read rest ih =>
    rcases read with reason | bytes
    · exact ⟨.empty, ByteArray.append_empty.symm⟩
    rcases hdecode : Text.Utf8.decode bytes with fault | text
    · rw [runReads_of_fault hdecode]
      exact ⟨.empty, ByteArray.append_empty.symm⟩
    obtain ⟨more, hmore⟩ := s.taken_step text
    rcases hstep : s.step text with ⟨d | ⟨⟩, s'⟩
    · rw [hstep] at hmore
      rw [runReads_of_error hdecode hstep]
      exact ⟨more, hmore⟩
    · rw [hstep] at hmore
      obtain ⟨rest', hrest⟩ := ih s'
      rw [runReads_of_ok hdecode hstep, hrest, hmore]
      exact ⟨more ++ rest', ByteArray.append_assoc⟩

/-! ### Two runs -/

/-- Carrying out what a reader gets comes to a line that prints past the first `n` bytes, and leaves
`s'`. All lines before it succeed and leave the output within `n` bytes; it is a line that prints,
succeeds and takes the output beyond. -/
inductive Passes (n : Nat) (s' : Session) : Session → List (Except String (List UInt8)) → Prop
  | here {s : Session} {bytes : List UInt8} {text expression : String} {v : Value}
    {rest : List (Except String (List UInt8))} (decode : Text.Utf8.decode bytes = .ok text)
    (asks : s.Asks (s.line + 1) text ⟨.output, expression⟩ v) (step : s.step text = (.ok (), s'))
    (within : s.sink.taken.size ≤ n) (beyond : n < s'.sink.taken.size) :
    Passes n s' s (.ok bytes :: rest)
  | later {s next : Session} {bytes : List UInt8} {text : String}
    {rest : List (Except String (List UInt8))} (decode : Text.Utf8.decode bytes = .ok text)
    (step : s.step text = (.ok (), next)) (within : next.sink.taken.size ≤ n)
    (passes : Passes n s' next rest) : Passes n s' s (.ok bytes :: rest)

/-- What becomes of a run `p` if the sink takes `n` bytes only: the first `n` bytes of the output
are taken, the result is the same if this is all of it, and otherwise the run is aborted on the line
that prints past `n` bytes, for this reason alone. -/
structure Truncates (n : Nat) (refusal : String) (s : Session)
    (reads : List (Except String (List UInt8))) (p q : Except RunError Unit × Session) : Prop where
  taken : q.2.sink.taken = p.2.sink.taken.extract 0 n
  fits : p.2.sink.taken.size ≤ n → q.1 = p.1
  exceeds : n < p.2.sink.taken.size → ∃ s', Passes n s' s reads ∧
    q.1 = .error (.aborted s'.line [(Fault.outputFailed refusal).onLine s'.line])

section

variable {n : Nat} {refusal : String} {s : Session} {bytes : List UInt8} {text : String}
  {rest : List (Except String (List UInt8))}

/-- Nothing is printed and the results are the same. -/
theorem truncates_of_quiet {reads : List (Except String (List UInt8))}
    {p q : Except RunError Unit × Session} (hresult : q.1 = p.1)
    (hp : p.2.sink.taken = s.sink.taken) (hq : q.2.sink.taken = s.sink.taken)
    (hwithin : s.sink.taken.size ≤ n) : Truncates n refusal s reads p q := by
  refine ⟨?_, fun _ ↦ hresult, fun hlt ↦ ?_⟩
  · rw [hp, hq, Sink.extract_zero_of_size_le hwithin]
  · rw [hp] at hlt
    exact absurd hwithin (Nat.not_le_of_lt hlt)

/-- A line in front that succeeds and leaves the output within the limit makes no difference. -/
theorem Truncates.later {next : Session} {p q : Except RunError Unit × Session}
    (h : Truncates n refusal next rest p q) (hdecode : Text.Utf8.decode bytes = .ok text)
    (hstep : s.step text = (.ok (), next)) (hwithin : next.sink.taken.size ≤ n) :
    Truncates n refusal s (.ok bytes :: rest) p q := by
  refine ⟨h.taken, h.fits, fun hlt ↦ ?_⟩
  obtain ⟨s', hpasses, hresult⟩ := h.exceeds hlt
  exact ⟨s', .later hdecode hstep hwithin hpasses, hresult⟩

/-- A line that prints past the limit ends the run into the limited sink. What the other run prints
from there on is beyond the limit too. -/
theorem truncates_of_beyond {next stopped : Session} {expression : String} {v : Value}
    (hdecode : Text.Utf8.decode bytes = .ok text)
    (hasks : s.Asks (s.line + 1) text ⟨.output, expression⟩ v)
    (hstep : s.step text = (.ok (), next)) (hwithin : s.sink.taken.size ≤ n)
    (hbeyond : n < next.sink.taken.size)
    (htaken : stopped.sink.taken = next.sink.taken.extract 0 n) (hline : stopped.line = next.line)
    (hj : stopped.journal.diagnostics = [(Fault.outputFailed refusal).onLine next.line]) :
    Truncates n refusal s (.ok bytes :: rest) (next.runReads rest) stopped.abort := by
  obtain ⟨more, hmore⟩ := next.taken_runReads rest
  have hsize : n < (next.runReads rest).2.sink.taken.size := by
    rw [hmore, ByteArray.size_append]
    omega
  refine ⟨?_, fun hle ↦ absurd hle (Nat.not_le_of_lt hsize), fun _ ↦ ?_⟩
  · show stopped.sink.taken = _
    rw [htaken, hmore, ByteArray.extract_append, Nat.sub_eq_zero_of_le hbeyond.le]
    simp
  · refine ⟨next, .here hdecode hasks hstep hwithin hbeyond, ?_⟩
    show Except.error (RunError.aborted stopped.line stopped.journal.diagnostics.reverse) = _
    rw [hj, hline]
    rfl

end

/-- **A sink that fills up only truncates**, whatever a reader gets. -/
theorem truncates_runReads {n : Nat} (refusal : String) {s : Session}
    (hcapacity : s.sink.capacity = none) (hwithin : s.sink.taken.size ≤ n)
    (reads : List (Except String (List UInt8))) :
    Truncates n refusal s reads (s.runReads reads)
      ((s.onto (s.sink.limited n refusal)).runReads reads) := by
  -- the sessions differ in their sinks alone, and have printed the same, until the limit is passed
  induction reads generalizing s with
  | nil => exact truncates_of_quiet rfl rfl rfl hwithin
  | cons read rest ih =>
    rcases read with reason | bytes
    · exact truncates_of_quiet rfl rfl rfl hwithin
    rcases hdecode : Text.Utf8.decode bytes with fault | text
    · rw [runReads_of_fault hdecode, runReads_of_fault hdecode]
      exact truncates_of_quiet rfl rfl rfl hwithin
    obtain ⟨result, s', hsteps⟩ | ⟨expression, v, s', hasks, hj, hsteps⟩ := s.step_onto text
    · have hstep : s.step text = (result, s'.onto s.sink) := hsteps s.sink
      have hstep' := hsteps (s.sink.limited n refusal)
      rcases result with d | ⟨⟩
      · rw [runReads_of_error hdecode hstep, runReads_of_error hdecode hstep']
        exact truncates_of_quiet rfl rfl rfl hwithin
      · rw [runReads_of_ok hdecode hstep, runReads_of_ok hdecode hstep']
        exact (ih (s := s'.onto s.sink) hcapacity hwithin).later hdecode hstep hwithin
    · have hwrite := Sink.write_of_capacity_none hcapacity (v.text ++ "\n")
      have hstep : s.step text = _ := hsteps s.sink
      have hstep' := hsteps (s.sink.limited n refusal)
      rw [print_of_ok (s := s'.onto s.sink) hwrite] at hstep
      rw [runReads_of_ok hdecode hstep]
      rcases Nat.lt_or_ge n (s.sink.taken ++ (v.text ++ "\n").toUTF8).size with hlt | hle
      · have hwrite' := Sink.write_limited_of_lt refusal hwithin hlt
        rw [print_of_error (s := s'.onto (s.sink.limited n refusal)) hwrite'] at hstep'
        rw [runReads_of_error hdecode hstep']
        refine truncates_of_beyond hdecode hasks hstep hwithin hlt rfl rfl ?_
        show s'.journal.diagnostics ++ _ = _
        rw [hj]
        rfl
      · have hwrite' := Sink.write_limited_of_le refusal hle
        rw [print_of_ok (s := s'.onto (s.sink.limited n refusal)) hwrite'] at hstep'
        rw [runReads_of_ok hdecode hstep']
        refine Truncates.later ?_ hdecode hstep hle
        exact ih hcapacity hle

/-- **A sink that fills up only truncates.** A script is run in two sessions that are alike but for
their sinks. One takes everything, the other one `n` bytes. Then the latter takes the first `n`
bytes of what the former does, or all if there are no more than that. If it takes all, the results
are the same. Otherwise its run is aborted on the first line whose output, added to the output
before it, exceeds `n` bytes, with the failure to print as the only diagnostic. In how many pieces a
text is handed to a sink makes no difference to any of this. -/
theorem run_truncates (s : Session) (source : Source) (n : Nat) (refusal : String) :
    let full := s.onto {}
    let cut := s.onto { capacity := some n, refusal }
    let printed := (full.run source).2.sink.taken
    (cut.run source).2.sink.taken = printed.extract 0 (min n printed.size) ∧
      (printed.size ≤ n → (cut.run source).1 = (full.run source).1) ∧
      (n < printed.size → ∃ s', Passes n s' full.begun source.reads ∧
        (cut.run source).1 =
          .error (.aborted s'.line [⟨s'.line, .outputFailed refusal⟩])) ∧
      ∀ (sink : Sink) (pieces : List String),
        sink.writeAll pieces = sink.write (String.join pieces) := by
  intro full cut printed
  have htruncates : Truncates n refusal full.begun source.reads
      (full.begun.runReads source.reads) (cut.begun.runReads source.reads) :=
    truncates_runReads refusal (s := full.begun) rfl (Nat.zero_le n) source.reads
  refine ⟨?_, htruncates.fits, htruncates.exceeds, fun sink pieces ↦ sink.writeAll_eq_write pieces⟩
  show (cut.begun.runReads source.reads).2.sink.taken = _
  rw [htruncates.taken]
  show printed.extract 0 n = _
  rcases le_total n printed.size with hle | hle
  · rw [min_eq_left hle]
  · rw [min_eq_right hle, ByteArray.extract_zero_size, Sink.extract_zero_of_size_le hle]

end Session

end MatrixScript
