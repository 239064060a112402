import MatrixScript.Proofs.Effect
import MatrixScript.Proofs.Lines
import MatrixScript.Proofs.Record

/-!
# Runs

A run carries out the lines of its source as if they were handed to the session one by one. What
that is like is said by `attemptAll step`: every line of a list is carried out, whether the ones
before it succeed or not. A run stops before it would come to that. So there is a beginning of the
lines, possibly all of them, that the run carries out, and the four ways in which it can end there
are the cases of `Ending`: there is no more line, the reader fails, the next line is no text, or the
last line that was carried out has failed.

The step of the induction is a line that succeeds, and it leaves the ending as it is
(`Ending.cons`).
-/

namespace MatrixScript.Session

/-! ### One line -/

/-- **What a line does.** It keeps the builtins and is counted. It does what its statement says if
it asks for something that the session permits, and otherwise fails and keeps the variables. -/
theorem step_cases (s : Session) (text : String) :
    ∃ s', s'.registry = s.registry ∧ s'.line = s.line + 1 ∧
      ((∃ statement v, s.Asks (s.line + 1) text statement v ∧ s.Permits v statement.target ∧
          s.step text = (.ok (), s') ∧ s.Does v s' statement.target) ∨
        ∃ d, (∀ statement v, s.Asks (s.line + 1) text statement v →
            ¬ s.Permits v statement.target) ∧
          s.step text = (.error d, s') ∧ s'.store = s.store) := by
  rw [step]
  obtain ⟨statement, v, j, hasks, h⟩ | ⟨hnothing, d, j, h⟩ := (s.advance text).perform_cases text
  · have htold := told_carryOut { s.advance text with journal := j } statement.target v
    rw [h]
    obtain ⟨hpermits, s', hs', -, hdoes⟩ | ⟨hrefuses, d, s', hs', -, hkeeps⟩ :=
      { s.advance text with journal := j }.carryOut_cases statement.target v
    · rw [hs'] at htold ⊢
      exact ⟨s', htold.registry, htold.line, .inl ⟨statement, v, hasks, hpermits, rfl, hdoes⟩⟩
    · rw [hs'] at htold ⊢
      refine ⟨{ s' with journal := s'.journal.record d }, htold.registry, htold.line,
        .inr ⟨d, fun statement' v' hasks' ↦ ?_, rfl, hkeeps.1⟩⟩
      obtain ⟨rfl, rfl⟩ := hasks'.unique hasks
      exact hrefuses
  · rw [h]
    refine ⟨{ s.advance text with journal := j.record d }, rfl, rfl,
      .inr ⟨d, fun statement v hasks ↦ ?_, rfl, rfl⟩⟩
    exact absurd hasks (hnothing statement v)

/-- A line keeps the builtins, and the session counts it. -/
theorem registry_line_step (s : Session) (text : String) :
    (s.step text).2.registry = s.registry ∧ (s.step text).2.line = s.line + 1 := by
  obtain ⟨s', hregistry, hline, ⟨statement, v, -, -, h, -⟩ | ⟨d, -, h, -⟩⟩ := s.step_cases text
  · rw [h]
    exact ⟨hregistry, hline⟩
  · rw [h]
    exact ⟨hregistry, hline⟩

/-- Lines are counted, whether they succeed or not. -/
theorem line_attemptAll_step (s : Session) (texts : List String) :
    (attemptAll step s texts).2.line = s.line + texts.length := by
  induction texts generalizing s with
  | nil => rfl
  | cons text texts ih =>
    show (attemptAll step (s.step text).2 texts).2.line = _
    rw [ih, (s.registry_line_step text).2, List.length_cons]
    omega

/-! ### How a run ends -/

/-- How a run ends that has carried out `texts`, given what carrying them out has come to. The lines
are those that the reader gets, before it fails for the reason if there is one. -/
inductive Ending (lines : List (List UInt8)) (reason? : Option String) (texts : List String) :
    List (Except Diagnostic Unit) × Session → Except RunError Unit → Prop
  /-- All lines have been carried out, and the script is at its end. -/
  | finished {results : List (Except Diagnostic Unit)} {s : Session}
    (succeeded : ∀ x ∈ results, x = .ok ()) (length : texts.length = lines.length)
    (read : reason? = none) : Ending lines reason? texts (results, s) (.ok ())
  /-- All lines have been carried out, and the reader has failed. -/
  | broken {results : List (Except Diagnostic Unit)} {s : Session} {reason : String}
    (succeeded : ∀ x ∈ results, x = .ok ()) (length : texts.length = lines.length)
    (read : reason? = some reason) :
    Ending lines reason? texts (results, s) (.error (.unreadable reason))
  /-- The next line is no text. It is not counted. -/
  | undecodable {results : List (Except Diagnostic Unit)} {s : Session} {bytes : List UInt8}
    {fault : Text.Utf8.Fault} (succeeded : ∀ x ∈ results, x = .ok ())
    (next : lines[texts.length]? = some bytes) (decode : Text.Utf8.decode bytes = .error fault) :
    Ending lines reason? texts (results, s)
      (.error (.unreadable (encodingFault (s.line + 1) fault)))
  /-- The last line has failed, and no other. -/
  | aborted {earlier : List (Except Diagnostic Unit)} {d : Diagnostic} {s : Session}
    (succeeded : ∀ x ∈ earlier, x = .ok ()) :
    Ending lines reason? texts (earlier ++ [.error d], s)
      (.error (.aborted s.line s.journal.diagnostics.reverse))

/-- A run carries out `texts`, a beginning of the lines: nothing else is counted or printed, it ends
accordingly, and all variables are given up. -/
structure CarriesOut (s : Session) (lines : List (List UInt8)) (reason? : Option String)
    (texts : List String) (p : Except RunError Unit × Session) : Prop where
  decoded : (lines.take texts.length).map Text.Utf8.decode = texts.map .ok
  ending : Ending lines reason? texts (attemptAll step s texts) p.1
  line : p.2.line = s.line + texts.length
  sink : p.2.sink = (attemptAll step s texts).2.sink
  store : p.2.store = .empty

variable {lines : List (List UInt8)} {reason? : Option String} {texts : List String}

/-- A line that succeeds in front of the others makes no difference to the ending. -/
theorem Ending.cons {results : List (Except Diagnostic Unit)} {s : Session}
    {end? : Except RunError Unit} (h : Ending lines reason? texts (results, s) end?)
    (bytes : List UInt8) (text : String) :
    Ending (bytes :: lines) reason? (text :: texts) (.ok () :: results, s) end? := by
  cases h with
  | finished succeeded length read =>
    exact .finished (List.forall_mem_cons.2 ⟨rfl, succeeded⟩) (congrArg _ length) read
  | broken succeeded length read =>
    exact .broken (List.forall_mem_cons.2 ⟨rfl, succeeded⟩) (congrArg _ length) read
  | undecodable succeeded next decode =>
    exact .undecodable (List.forall_mem_cons.2 ⟨rfl, succeeded⟩) next decode
  | @aborted earlier d _ succeeded =>
    rw [← List.cons_append]
    exact .aborted (List.forall_mem_cons.2 ⟨rfl, succeeded⟩)

section

variable {s s' : Session} {bytes : List UInt8} {text : String}
  {rest : List (Except String (List UInt8))}

theorem runReads_of_fault {fault : Text.Utf8.Fault}
    (hdecode : Text.Utf8.decode bytes = .error fault) :
    s.runReads (.ok bytes :: rest) =
      (.error (.unreadable (encodingFault (s.line + 1) fault)), s) := by
  rw [runReads, hdecode]

theorem runReads_of_error (hdecode : Text.Utf8.decode bytes = .ok text) {d : Diagnostic}
    (hstep : s.step text = (.error d, s')) : s.runReads (.ok bytes :: rest) = s'.abort := by
  simp only [runReads, hdecode, hstep]

theorem runReads_of_ok (hdecode : Text.Utf8.decode bytes = .ok text)
    (hstep : s.step text = (.ok (), s')) : s.runReads (.ok bytes :: rest) = s'.runReads rest := by
  simp only [runReads, hdecode, hstep]

end

/-- **Carrying out what a reader gets** comes to carrying out a beginning of the lines. -/
theorem exists_ending_runReads (s : Session) (lines : List (List UInt8)) (reason? : Option String) :
    let p := s.runReads (lines.map .ok ++ (reason?.map .error).toList)
    ∃ texts : List String,
      (lines.take texts.length).map Text.Utf8.decode = texts.map .ok ∧
        Ending lines reason? texts (attemptAll step s texts) p.1 ∧
        p.2.line = (attemptAll step s texts).2.line ∧
        p.2.sink = (attemptAll step s texts).2.sink := by
  have hnone := List.forall_mem_nil fun x : Except Diagnostic Unit ↦ x = .ok ()
  induction lines generalizing s with
  | nil =>
    rcases reason? with _ | reason
    · exact ⟨[], rfl, .finished hnone rfl rfl, rfl, rfl⟩
    · exact ⟨[], rfl, .broken hnone rfl rfl, rfl, rfl⟩
  | cons bytes lines ih =>
    rw [List.map_cons, List.cons_append]
    rcases hdecode : Text.Utf8.decode bytes with fault | text
    · rw [runReads_of_fault hdecode]
      exact ⟨[], rfl, .undecodable hnone rfl hdecode, rfl, rfl⟩
    rcases hstep : s.step text with ⟨d | ⟨⟩, s'⟩
    · have hall : attemptAll step s [text] = ([] ++ [.error d], s') := by
        simp only [attemptAll, hstep, List.nil_append]
      rw [runReads_of_error hdecode hstep]
      refine ⟨[text], ?_, ?_⟩
      · show [Text.Utf8.decode bytes] = _
        rw [hdecode]
        rfl
      · rw [hall]
        exact ⟨.aborted hnone, rfl, rfl⟩
    · obtain ⟨texts, hdecoded, hending, hline, hsink⟩ := ih s'
      have hall : attemptAll step s (text :: texts) =
          (.ok () :: (attemptAll step s' texts).1, (attemptAll step s' texts).2) := by
        simp only [attemptAll, hstep]
      rw [runReads_of_ok hdecode hstep]
      refine ⟨text :: texts, ?_, ?_⟩
      · show Text.Utf8.decode bytes :: (lines.take texts.length).map Text.Utf8.decode = _
        rw [hdecode, hdecoded]
        rfl
      · rw [hall]
        exact ⟨hending.cons bytes text, hline, hsink⟩

/-! ### A whole script -/

/-- The session at the beginning of a run, which is noted. -/
def begun (s : Session) : Session :=
  { s with journal := s.journal.note (.runStarted s.registry.names.length) }

/-- **A run carries out the lines of its source one by one.** The bytes that the reader is delivered
divide into lines that are ended and a rest. Of these lines, and at the end of the script of the
rest as well, the run carries out all up to the first that fails or is no text, and then ends. -/
theorem run_carriesOut_lines (s : Session) (source : Source) :
    (∃ ended rest, Source.Divides source.delivered ended rest) ∧
      ∀ ended rest, Source.Divides source.delivered ended rest →
        ∃ texts, s.begun.CarriesOut (source.linesOf ended rest) source.reason? texts
          (s.run source) := by
  refine ⟨Source.exists_divides _, fun ended rest hdivides ↦ ?_⟩
  obtain ⟨texts, hdecoded, hending, hline, hsink⟩ :=
    s.begun.exists_ending_runReads (source.linesOf ended rest) source.reason?
  rw [← source.reads_eq hdivides] at hending hline hsink
  rw [line_attemptAll_step] at hline
  exact ⟨texts, hdecoded, hending, hline, hsink, rfl⟩

/-- A reader that fails in the second of two lines loses what it has got of it. -/
theorem run_carriesOut_lines_broken :
    let text := (Source.ofString "OUT = 1\nOUT = 2").bytes
    let source : Source := { bytes := text, failure := some (12, .failed "source failed") }
    let line := (Source.ofString "OUT = 1").bytes
    Source.Divides source.delivered [line] (Source.ofString "OUT ").bytes ∧
      ∃ texts, ({} : Session).begun.CarriesOut [line] (some "source failed") texts
        (({} : Session).run source) := by
  intro text source line
  have hdivides : Source.Divides source.delivered [line] (Source.ofString "OUT ").bytes :=
    ⟨by decide +kernel, by decide +kernel, by decide +kernel⟩
  exact ⟨hdivides, (run_carriesOut_lines {} source).2 [line] _ hdivides⟩

end MatrixScript.Session
