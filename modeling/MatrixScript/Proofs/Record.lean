import MatrixScript.Proofs.Builtin
import MatrixScript.Proofs.Failures
import MatrixScript.Proofs.Writing

/-!
# What is on record

The failures of a line are found in many places, and most of them are recorded where they are
found while one is handed on. When the line is through, the record holds all of them: it is empty
exactly if the line has succeeded, and otherwise it ends with the failure that is returned. All of
it is about this line, since a line begins by forgetting what the one before has left.

Up to the last moment the record and the returned failure are apart. `Told` says what the parts of
a line do to a session in this respect, and every part does it: recognising a statement, evaluating
its expression (`exists_report_evaluate`) and carrying it out. `OnRecord` is what follows for the
line as a whole (`onRecord_step`).

All of this is on one line. A failure of reading is put on the line at hand wherever it is found,
and a failure of evaluating as well, as far as the builtins are punctual (`Report.OnLine`).

A run stops at the first line that fails, and its failure is what this line has left on record.
`StopsAt` says which line this is, and what it returns.
-/

namespace MatrixScript

namespace Store

theorem diagnostics_declare (s : Store) (j : Journal) (name : String) (v : Value) :
    (s.declare j name v).2.diagnostics = j.diagnostics := by
  rw [declare]
  split
  · rfl
  · rfl

theorem diagnostics_assign (s : Store) (j : Journal) (name : String) (v : Value) :
    (s.assign j name v).2.diagnostics = j.diagnostics := by
  rw [assign]
  split
  · rfl
  · rfl
  · rfl

end Store

/-! ### Failures of an expression -/

/-- A report is about a line: nothing is recorded along with a value, and a failure is on the line
with everything that is recorded along with it. -/
def Report.OnLine {α : Type} (line : Nat) : Report α → Prop
  | ⟨.ok _, recorded⟩ => recorded = []
  | ⟨.error d, recorded⟩ => ∀ e ∈ recorded ++ [d], e.line = line

/-- A report that tells a dissection is about the line that the failures of its texts are on. -/
theorem Dissection.Tells.onLine {α : Type} {own : String → Option Diagnostic} {d : Dissection}
    {report : Report α} {line : Nat} (h : d.Tells own report) (hinnermost : d.Innermost own)
    (hown : ∀ text e, own text = some e → e.line = line) : report.OnLine line := by
  obtain ⟨hreturned, hrecorded⟩ := h
  rcases report with ⟨last | v, recorded⟩
  · intro e he
    have hreported : d.reported own = recorded ++ [last] :=
      (congrArg₂ (fun earlier last ↦ earlier ++ Option.toList last) hrecorded hreturned).symm
    rw [← hreported, (reported_perm_raised hinnermost).mem_iff] at he
    obtain ⟨text, -, htext⟩ := List.mem_filterMap.1 he
    exact hown text e htext
  · exact hrecorded.trans (recorded_eq_nil_of_returned hinnermost hreturned.symm)

theorem Term.line_of_readFailure? {r : Registry} {line : Nat} {text : String} {d : Diagnostic}
    (h : readFailure? r line text = some d) : d.line = line := by
  obtain ⟨fault, -, rfl⟩ := Option.map_eq_some_iff.1 h
  rfl

theorem line_of_evaluationFailure? {r : Registry} (hr : ∀ b ∈ r.entries, b.Punctual) {s : Store}
    {line : Nat} {text : String} {d : Diagnostic}
    (h : evaluationFailure? r s line text = some d) : d.line = line := by
  rw [evaluationFailure?] at h
  split at h
  · cases h
  split at h
  · split at h
    · cases h
    · cases h
      rfl
  · split at h
    · cases h
    · split at h
      · next b operands hfind _ =>
        have hb := hr b (List.mem_of_find?_eq_some hfind)
        exact hb.line_eq (failureOf_eq_some_iff.1 h)
      · cases h

namespace Session

/-- **Evaluating the text of an expression makes a report about the session's line.** -/
theorem exists_report_evaluate (s : Session) (hr : ∀ b ∈ s.registry.entries, b.Punctual)
    (text : String) :
    ∃ report : Report Value, report.OnLine s.line ∧ (s.evaluate text).1 = report.result ∧
      (s.evaluate text).2.diagnostics = s.journal.diagnostics ++ report.recorded := by
  obtain ⟨d, recorded, htells, -, hresult, hj⟩ | ⟨t, ht, hresult, hj⟩ := s.evaluate_cases text
  · have honLine := htells.onLine (Term.innermost_dissect_readFailure? s.registry s.line text)
      fun _ _ ↦ Term.line_of_readFailure?
    exact ⟨⟨.error d, recorded⟩, honLine, hresult, hj⟩
  · have honLine := (ht.tells_report s.store s.line).onLine (ht.innermost s.store s.line)
      fun _ _ ↦ line_of_evaluationFailure? hr
    exact ⟨_, honLine, hresult, hj⟩

/-! ### The parts of a line -/

/-- What a part of a line does to a session: builtins and line number stay, and the result with what
has been recorded along with it is a report about the line. -/
structure Told (s : Session) (p : Except Diagnostic Unit × Session) : Prop where
  registry : p.2.registry = s.registry
  line : p.2.line = s.line
  reports : ∃ recorded, p.2.journal.diagnostics = s.journal.diagnostics ++ recorded ∧
    Report.OnLine s.line ⟨p.1, recorded⟩

variable {s s' : Session}

/-- A journal with the same diagnostics is as good. -/
theorem Told.of_journal {j : Journal} {p : Except Diagnostic Unit × Session}
    (h : Told { s with journal := j } p) (hj : j.diagnostics = s.journal.diagnostics) :
    s.Told p := by
  obtain ⟨hregistry, hline, recorded, hrecorded, honLine⟩ := h
  exact ⟨hregistry, hline, recorded, hj ▸ hrecorded, honLine⟩

theorem told_ok (s : Session) {store : Store} {journal : Journal} {sink : Sink}
    (hj : journal.diagnostics = s.journal.diagnostics) :
    s.Told (.ok (), { s with store, journal, sink }) :=
  ⟨rfl, rfl, [], by rw [List.append_nil]; exact hj, rfl⟩

theorem told_fault (s : Session) (fault : Fault) {journal : Journal} {sink : Sink}
    (hj : journal.diagnostics = s.journal.diagnostics) :
    s.Told (.error (fault.onLine s.line), { s with journal, sink }) := by
  refine ⟨rfl, rfl, [], by rw [List.append_nil]; exact hj, fun e he ↦ ?_⟩
  rw [List.mem_singleton.1 he]
  rfl

theorem told_withStore (s : Session) {p : Except Store.Error Store × Journal}
    (hj : p.2.diagnostics = s.journal.diagnostics) : s.Told (s.withStore p) := by
  obtain ⟨e | store, j⟩ := p
  · exact s.told_fault e.fault hj
  · exact s.told_ok hj

theorem told_carryOut (s : Session) (target : Target) (v : Value) :
    s.Told (s.carryOut target v) := by
  cases target with
  | declare kind name =>
    rw [carryOut]
    split
    · exact s.told_withStore (s.store.diagnostics_declare s.journal name v)
    · exact s.told_fault _ rfl
  | assign name => exact s.told_withStore (s.store.diagnostics_assign s.journal name v)
  | output =>
    simp only [carryOut, print_eq]
    rcases s.sink.write (v.text ++ "\n") with ⟨reason | ⟨⟩, sink⟩
    · exact s.told_fault _ rfl
    · exact s.told_ok rfl

/-- **All of a line**, up to recording the failure that it returns. -/
theorem told_perform (s : Session) (hr : ∀ b ∈ s.registry.entries, b.Punctual) (text : String) :
    s.Told (s.perform text) := by
  simp only [perform, Journal.readWords, Journal.readStatement]
  cases Statement.ofWords s.registry (words text) with
  | error e => exact s.told_fault e.fault rfl
  | ok statement =>
    simp only
    -- the session that evaluates differs from `s` in two notes
    generalize hj : Journal.note _ (Note.classified s.line statement) = j
    have hnotes : j.diagnostics = s.journal.diagnostics := by
      rw [← hj]
      rfl
    refine Told.of_journal ?_ hnotes
    obtain ⟨⟨d | v, recorded⟩, honLine, hresult, hj'⟩ :=
      exists_report_evaluate { s with journal := j } hr statement.expression
    · rcases heval : evaluate { s with journal := j } statement.expression with ⟨result, j'⟩
      rw [heval] at hresult hj'
      cases hresult
      exact ⟨rfl, rfl, recorded, hj', honLine⟩
    · rcases heval : evaluate { s with journal := j } statement.expression with ⟨result, j'⟩
      rw [heval] at hresult hj'
      cases hresult
      have hnil : recorded = [] := honLine
      rw [hnil, List.append_nil] at hj'
      have htold := told_carryOut { s with journal := j' } statement.target v
      exact Told.of_journal (s := { s with journal := j }) htold hj'

/-! ### A whole line -/

/-- What is on record when a line is through: nothing if it has succeeded; otherwise its failures,
all on its line, the returned one last. -/
def OnRecord : Except Diagnostic Unit × Session → Prop
  | (.ok (), s) => s.journal.diagnostics = []
  | (.error d, s) => s.journal.diagnostics.getLast? = some d ∧
      ∀ e ∈ s.journal.diagnostics, e.line = s.line

theorem OnRecord.diagnostics_eq_nil_iff {p : Except Diagnostic Unit × Session} (h : OnRecord p) :
    p.2.journal.diagnostics = [] ↔ p.1 = .ok () := by
  obtain ⟨d | ⟨⟩, s⟩ := p
  · have hne : s.journal.diagnostics ≠ [] := by
      intro hnil
      have hlast := h.1
      rw [hnil] at hlast
      exact nomatch hlast
    exact ⟨fun hnil ↦ absurd hnil hne, nofun⟩
  · exact ⟨fun _ ↦ rfl, fun _ ↦ h⟩

theorem OnRecord.of_error {p : Except Diagnostic Unit × Session} (h : OnRecord p) {d : Diagnostic}
    (hd : p.1 = .error d) : OnRecord (.error d, p.2) := by
  rwa [← hd]

/-- **The record is complete when a line is through**, and the builtins are still the same. -/
theorem onRecord_step (s : Session) (hr : ∀ b ∈ s.registry.entries, b.Punctual) (text : String) :
    OnRecord (s.step text) ∧ (s.step text).2.registry = s.registry := by
  obtain ⟨hregistry, hline, recorded, hrecorded, honLine⟩ := (s.advance text).told_perform hr text
  rw [step]
  -- there was nothing on record when the line began
  rcases hperform : (s.advance text).perform text with ⟨d | ⟨⟩, s'⟩
  · rw [hperform] at hregistry hline hrecorded honLine
    have hrecord : (s'.journal.record d).diagnostics = recorded ++ [d] := by
      rw [Journal.diagnostics_record, hrecorded]
      rfl
    refine ⟨⟨?_, fun e he ↦ ?_⟩, hregistry⟩
    · show (s'.journal.record d).diagnostics.getLast? = some d
      rw [hrecord, List.getLast?_concat]
    · change e ∈ (s'.journal.record d).diagnostics at he
      rw [hrecord] at he
      exact (honLine e he).trans hline.symm
  · rw [hperform] at hregistry hrecorded honLine
    have hnil : recorded = [] := honLine
    rw [hnil] at hrecorded
    exact ⟨hrecorded, hregistry⟩

/-! ### A whole script -/

/-- What a reader gets brings a session to a line that fails: all lines before it succeed, and it
returns `d` and leaves `s'`. -/
inductive StopsAt (d : Diagnostic) (s' : Session) :
    Session → List (Except String (List UInt8)) → Prop
  | here {s : Session} {bytes : List UInt8} {text : String}
    {rest : List (Except String (List UInt8))} (decode : Text.Utf8.decode bytes = .ok text)
    (step : s.step text = (.error d, s')) : StopsAt d s' s (.ok bytes :: rest)
  | later {s next : Session} {bytes : List UInt8} {text : String}
    {rest : List (Except String (List UInt8))} (decode : Text.Utf8.decode bytes = .ok text)
    (step : s.step text = (.ok (), next)) (stops : StopsAt d s' next rest) :
    StopsAt d s' s (.ok bytes :: rest)

/-- A run that is aborted has come to a line that fails. -/
theorem exists_stopsAt_of_aborted {reads : List (Except String (List UInt8))} {line : Nat}
    {ds : List Diagnostic} (h : (s.runReads reads).1 = .error (.aborted line ds)) :
    ∃ d s', StopsAt d s' s reads ∧ s.runReads reads = s'.abort := by
  induction reads generalizing s with
  | nil => exact nomatch h
  | cons read rest ih =>
    rcases read with reason | bytes
    · exact nomatch h
    rw [runReads] at h ⊢
    rcases hdecode : Text.Utf8.decode bytes with fault | text
    · rw [hdecode] at h
      exact nomatch h
    simp only [hdecode] at h ⊢
    rcases hstep : s.step text with ⟨d | ⟨⟩, s'⟩
    · exact ⟨d, s', .here hdecode hstep, rfl⟩
    · rw [hstep] at h
      obtain ⟨d, s'', hstops, habort⟩ := ih h
      exact ⟨d, s'', .later hdecode hstep hstops, habort⟩

/-- The line that a run stops at has all its failures on record. -/
theorem StopsAt.onRecord {d : Diagnostic} {reads : List (Except String (List UInt8))}
    (h : StopsAt d s' s reads) (hr : ∀ b ∈ s.registry.entries, b.Punctual) :
    OnRecord (.error d, s') := by
  induction h with
  | @here s bytes text rest decode step =>
    rw [← step]
    exact (s.onRecord_step hr text).1
  | @later s next bytes text rest decode step stops ih =>
    have hregistry := (s.onRecord_step hr text).2
    rw [step] at hregistry
    refine ih ?_
    rw [hregistry]
    exact hr

/-- An aborted run hands over what the line that it stops at has left on record. -/
theorem exists_stopsAt_of_run {source : Source} {line : Nat} {ds : List Diagnostic}
    (h : (s.run source).1 = .error (.aborted line ds)) :
    ∃ d s', StopsAt d s' { s with journal := s.journal.note (.runStarted s.registry.names.length) }
        source.reads ∧
      line = s'.line ∧ ds = s'.journal.diagnostics.reverse ∧ (s.run source).2.line = s'.line ∧
      (s.run source).2.journal.diagnostics = [] := by
  obtain ⟨d, s', hstops, habort⟩ := exists_stopsAt_of_aborted h
  rw [run] at h ⊢
  simp only [habort] at h ⊢
  obtain ⟨rfl, rfl⟩ : s'.line = line ∧ s'.journal.diagnostics.reverse = ds := by
    simpa [abort, Journal.drain] using h
  exact ⟨d, s', hstops, rfl, rfl, rfl, rfl⟩

/-! ### The record and the failure -/

/-- **The record tells success and failure.** The standard builtins are punctual. In a session all
of whose builtins are, and for every line: the record is empty afterwards exactly if the line
succeeds; and if it fails, the failure is the last on record and all of the record is on the line.
So if a run is aborted, this is on the session's line and with the failures of this line, the first
of which the line that it stops at has returned; and the record is empty again. -/
theorem record_tells_failure :
    (∀ b ∈ Registry.standard.entries, b.Punctual) ∧
    ∀ s : Session, (∀ b ∈ s.registry.entries, b.Punctual) →
      (∀ text,
        ((s.step text).2.journal.diagnostics = [] ↔ (s.step text).1 = .ok ()) ∧
        ∀ d, (s.step text).1 = .error d →
          (s.step text).2.journal.diagnostics.getLast? = some d ∧
          ∀ e ∈ (s.step text).2.journal.diagnostics, e.line = (s.step text).2.line) ∧
      ∀ source line ds, (s.run source).1 = .error (.aborted line ds) →
        line = (s.run source).2.line ∧ (∀ e ∈ ds, e.line = line) ∧
        (s.run source).2.journal.diagnostics = [] ∧
        ∃ d earlier s', ds = d :: earlier ∧
          StopsAt d s'
            { s with journal := s.journal.note (.runStarted s.registry.names.length) }
            source.reads := by
  refine ⟨fun b hb ↦ Builtin.punctual_of_mem_standard hb, fun s hr ↦ ⟨fun text ↦ ?_, ?_⟩⟩
  · have hrecord := (s.onRecord_step hr text).1
    exact ⟨hrecord.diagnostics_eq_nil_iff, fun d hd ↦ hrecord.of_error hd⟩
  · intro source line ds h
    obtain ⟨d, s', hstops, rfl, rfl, hline, hempty⟩ := exists_stopsAt_of_run h
    obtain ⟨hlast, honLine⟩ := hstops.onRecord hr
    obtain ⟨earlier, hrecord⟩ := List.getLast?_eq_some_iff.1 hlast
    refine ⟨hline.symm, fun e he ↦ honLine e (List.mem_reverse.1 he), hempty, ?_⟩
    refine ⟨d, earlier.reverse, s', ?_, hstops⟩
    rw [hrecord, List.reverse_concat]

/-- A script whose second line fails twice. -/
theorem record_tells_failure_sum :
    (∀ b ∈ ({} : Session).registry.entries, b.Punctual) ∧
      (({} : Session).run (.ofString "NUM x = 1\nOUT = ADD(a,b)\n")).1 =
        .error (.aborted 2 [⟨2, .undeclared "b"⟩, ⟨2, .undeclared "a"⟩]) ∧
      (({} : Session).run (.ofString "NUM x = 1\nOUT = ADD(a,b)\n")).2.line = 2 ∧
      (({} : Session).run
        (.ofString "NUM x = 1\nOUT = ADD(a,b)\n")).2.journal.diagnostics = [] := by
  obtain ⟨hstandard, hsession⟩ := record_tells_failure
  have hrun : (({} : Session).run (.ofString "NUM x = 1\nOUT = ADD(a,b)\n")).1 =
      .error (.aborted 2 [⟨2, .undeclared "b"⟩, ⟨2, .undeclared "a"⟩]) := by
    decide +kernel
  obtain ⟨hline, -, hempty, -⟩ := (hsession {} hstandard).2 _ _ _ hrun
  exact ⟨hstandard, hrun, hline.symm, hempty⟩

end Session

end MatrixScript
