import MatrixScript.Proofs.Denotation
import MatrixScript.Proofs.Dissection
import MatrixScript.Session

/-!
# The failures of a line

Which failures a line with a failing expression leaves on record, and in which order. An expression
is read and then evaluated, and it fails in one of these two phases.

`dissect` takes the text of an expression apart, through all calls that are well formed: that divide
into a name and arguments, name a builtin and have as many arguments as it takes. On these texts the
innermost failures of either phase can be told one by one.

* `readFailure?`: the text is empty, or starts like a literal and is none, or is a call that is not
  well formed.
* `evaluationFailure?`: the text is a variable without a value, or a call all of whose arguments
  denote values, and the builtin fails on these.

Reading and evaluating return and record exactly what `Dissection.returned` and
`Dissection.recorded` say of these functions (`exists_report_read`, `Reads.tells_report`). With
that a line has each of the innermost failures on record once, and it is known in which order.
-/

namespace MatrixScript

namespace Dissection

/-! ### Reports that tell a dissection -/

section

variable (own : String → Option Diagnostic) {α β : Type}

/-- A report has what a dissection returns and records. -/
def Tells (d : Dissection) (report : Report α) : Prop :=
  failureOf report.result = d.returned own ∧ report.recorded = d.recorded own

variable {own} {ds : List Dissection} {text : String}

theorem tells_leaf {result : Except Diagnostic α} (h : failureOf result = own text) :
    (node text []).Tells own ⟨result, []⟩ :=
  ⟨h, rfl⟩

theorem returnedAll_recordedAll_eq {rs : List (Report α)}
    (h : List.Forall₂ (Tells own) ds rs) :
    failures (rs.map Report.result) = returnedAll own ds ∧
      rs.flatMap Report.recorded = recordedAll own ds := by
  induction h with
  | nil => exact ⟨rfl, rfl⟩
  | @cons d r ds rs hhead _ ih =>
    refine ⟨?_, ?_⟩
    · rw [List.map_cons, failures_cons, hhead.1, ih.1]
      rfl
    · rw [List.flatMap_cons, hhead.2, ih.2]
      rfl

/-- **From arguments to a call.** With failing arguments it returns the last of their failures and
records the others, and with values for all it has no failure but its own. -/
theorem tells_settle {rs : List (Report α)} {finish : List α → Except Diagnostic β}
    (h : List.Forall₂ (Tells own) ds rs)
    (hfinish : ∀ vs, List.Forall₂ (fun r v ↦ r.result = .ok v) rs vs →
      failureOf (finish vs) = own text) : (node text ds).Tells own (.settle rs finish) := by
  obtain ⟨hreturned, hrecorded⟩ := returnedAll_recordedAll_eq h
  obtain ⟨vs, hvs⟩ | ⟨earlier, last, hfailures⟩ := Report.values_or_failures rs
  · rw [Report.map_result_eq_iff.2 hvs, failures_map_ok] at hreturned
    rw [Report.settle_of_forall₂ hvs]
    refine ⟨?_, ?_⟩
    · show failureOf (finish vs) = (returnedAll own ds).getLast?.or (own text)
      rw [← hreturned, hfinish vs hvs]
      rfl
    · show rs.flatMap Report.recorded = recordedAll own ds ++ (returnedAll own ds).dropLast
      rw [hrecorded, ← hreturned]
      exact (List.append_nil _).symm
  · rw [hfailures] at hreturned
    rw [Report.settle_of_failures hfailures]
    refine ⟨?_, ?_⟩
    · show some last = (returnedAll own ds).getLast?.or (own text)
      rw [← hreturned, List.getLast?_concat]
      rfl
    · show rs.flatMap Report.recorded ++ earlier =
        recordedAll own ds ++ (returnedAll own ds).dropLast
      rw [hrecorded, ← hreturned, List.dropLast_concat]

end

end Dissection

/-! ### Taking a text apart -/

/-- What is wrong with a text, apart from its arguments. -/
def Term.fault? (r : Registry) (text : String) : Option Fault :=
  if text = "" then some missing
  else if Word.beginsLiteral text.toList then
    (failureOf (Literal.read text)).map Literal.Error.fault
  else if '(' ∉ text.toList then none
  else
    match Call.split text with
    | .error e => some (e.fault text)
    | .ok c =>
      match r.find? c.name with
      | none => some (.unknownFunction c.name)
      | some b => failureOf (b.checkCount c.arguments.length)

/-- The arguments of a well-formed call. No other text has any. -/
def Term.argumentTexts (r : Registry) (text : String) : List String :=
  match Call.split text with
  | .error _ => []
  | .ok c =>
    if Word.beginsLiteral text.toList = false ∧ fault? r text = none then c.arguments else []

theorem Term.exists_split_of_mem_argumentTexts {r : Registry} {text a : String}
    (h : a ∈ argumentTexts r text) : ∃ c, Call.split text = .ok c ∧ a ∈ c.arguments := by
  rw [argumentTexts] at h
  split at h
  · exact nomatch h
  · next c hc =>
    split at h
    · exact ⟨c, hc, h⟩
    · exact nomatch h

/-- The dissection of the text of an expression, through all well-formed calls. -/
def dissect (r : Registry) (text : String) : Dissection :=
  .node text ((Term.argumentTexts r text).attach.map fun a ↦ dissect r a.1)
termination_by text.length
decreasing_by
  obtain ⟨c, hc, ha⟩ := Term.exists_split_of_mem_argumentTexts a.2
  exact Call.length_lt_of_split hc ha

theorem dissect_eq (r : Registry) (text : String) :
    dissect r text = .node text ((Term.argumentTexts r text).map (dissect r)) := by
  rw [dissect, List.map_subtype, List.unattach_attach]
  intro a _
  rfl

/-! ### Reading -/

namespace Term

/-- The failure of reading a text itself. -/
def readFailure? (r : Registry) (line : Nat) (text : String) : Option Diagnostic :=
  (fault? r text).map (·.onLine line)

section

variable {r : Registry} {line : Nat} {text : String}

theorem argumentTexts_of_fault {f : Fault} (h : fault? r text = some f) :
    argumentTexts r text = [] := by
  rw [argumentTexts]
  split
  · rfl
  · rw [if_neg fun hc ↦ by rw [hc.2] at h; exact nomatch h]

theorem argumentTexts_of_literal (h : Word.beginsLiteral text.toList = true) :
    argumentTexts r text = [] := by
  rw [argumentTexts]
  split
  · rfl
  · rw [if_neg fun hc ↦ by rw [hc.1] at h; exact nomatch h]

theorem argumentTexts_of_reference (h : '(' ∉ text.toList) : argumentTexts r text = [] := by
  rw [argumentTexts]
  split
  · rfl
  · next c hc => exact absurd (Call.mem_of_split hc) h

theorem fault?_of_split {c : Call} (hliteral : Word.beginsLiteral text.toList = false)
    (hsplit : Call.split text = .ok c) :
    fault? r text =
      match r.find? c.name with
      | none => some (.unknownFunction c.name)
      | some b => failureOf (b.checkCount c.arguments.length) := by
  have hparen := Call.mem_of_split hsplit
  have hne : text ≠ "" := by
    rintro rfl
    exact nomatch hparen
  rw [fault?, if_neg hne, if_neg (by simp [hliteral]), if_neg (by simpa using hparen), hsplit]

theorem argumentTexts_of_call {c : Call} {b : Builtin}
    (hliteral : Word.beginsLiteral text.toList = false) (hsplit : Call.split text = .ok c)
    (hfind : r.find? c.name = some b) (hcount : b.checkCount c.arguments.length = .ok ()) :
    argumentTexts r text = c.arguments := by
  have hfault : fault? r text = none := by
    rw [fault?_of_split hliteral hsplit, hfind]
    simp only [hcount]
    rfl
  rw [argumentTexts, hsplit]
  exact if_pos ⟨hliteral, hfault⟩

/-- **What reading a text does**, given a reader for arguments: it returns the fault of the text; or
there is none, and the text is no call and reads as a value or a variable, or it is a well-formed
call and reads as its arguments do. -/
theorem readWith_cases (r : Registry) (line : Nat)
    (readArgument : Journal → String → Except Diagnostic Term × Journal) (text : String) :
    (∃ f, fault? r text = some f ∧ ∀ j, ∃ j', j'.diagnostics = j.diagnostics ∧
      readWith r line readArgument j text = (.error (f.onLine line), j')) ∨
    (∃ t, fault? r text = none ∧ argumentTexts r text = [] ∧
      ∀ j, readWith r line readArgument j text = (.ok t, j)) ∨
    (∃ b, fault? r text = none ∧ ∀ j, ∃ j', j'.diagnostics = j.diagnostics ∧
      readWith r line readArgument j text =
        match (attemptAll readArgument j' (argumentTexts r text)).2.settle
          (attemptAll readArgument j' (argumentTexts r text)).1 with
        | (.error d, j'') => (.error d, j'')
        | (.ok args, j'') => (.ok (.call b args), j'')) := by
  by_cases hne : text = ""
  · subst hne
    exact .inl ⟨missing, rfl, fun j ↦ ⟨j, rfl, rfl⟩⟩
  have hnil : text.toList ≠ [] := fun h ↦ hne (String.toList_inj.1 h)
  by_cases hliteral : Word.beginsLiteral text.toList = true
  · have hfault : fault? r text = (failureOf (Literal.read text)).map Literal.Error.fault := by
      rw [fault?, if_neg hne, if_pos hliteral]
    simp only [readWith, hnil, hliteral, if_true, if_false]
    rcases hread : Literal.read text with e | v
    · refine .inl ⟨e.fault, ?_, fun j ↦ ⟨j, rfl, rfl⟩⟩
      rw [hfault, hread]
      rfl
    · refine .inr (.inl ⟨.value v, ?_, argumentTexts_of_literal hliteral, fun j ↦ rfl⟩)
      rw [hfault, hread]
      rfl
  rw [Bool.not_eq_true] at hliteral
  by_cases hparen : '(' ∈ text.toList
  · simp only [readWith, hnil, hliteral, List.contains_eq_mem, hparen, decide_true, Bool.not_true,
      Bool.false_eq_true, if_false, Journal.readCall]
    rcases hsplit : Call.split text with e | c
    · refine .inl ⟨e.fault text, ?_, fun j ↦ ⟨j, rfl, rfl⟩⟩
      rw [fault?, if_neg hne, if_neg (by simp [hliteral]), if_neg (by simpa using hparen), hsplit]
    have hfault := fault?_of_split (r := r) hliteral hsplit
    simp only
    rcases hfind : r.find? c.name with _ | b
    · rw [hfind] at hfault
      exact .inl ⟨_, hfault, fun j ↦ ⟨j.note (.divided text c), rfl, rfl⟩⟩
    rw [hfind] at hfault
    simp only at hfault ⊢
    rcases hcount : b.checkCount c.arguments.length with f | ⟨⟩
    · rw [hcount] at hfault
      exact .inl ⟨f, hfault, fun j ↦ ⟨j.note (.divided text c), rfl, rfl⟩⟩
    · rw [hcount] at hfault
      refine .inr (.inr ⟨b, hfault, fun j ↦ ⟨j.note (.divided text c), rfl, ?_⟩⟩)
      exact argumentTexts_of_call hliteral hsplit hfind hcount ▸ rfl
  · refine .inr (.inl ⟨.reference text, ?_, argumentTexts_of_reference hparen, fun j ↦ ?_⟩)
    · rw [fault?, if_neg hne, if_neg (by simp [hliteral]), if_pos hparen]
    · simp only [readWith, hnil, hliteral, List.contains_eq_mem, hparen, decide_false,
        Bool.not_false, Bool.false_eq_true, if_true, if_false]

end

/-- **Reading a text tells its dissection**, whatever has been recorded before. -/
theorem exists_report_read (r : Registry) (line : Nat) (text : String) :
    ∃ report : Report Term, (dissect r text).Tells (readFailure? r line) report ∧
      ∀ j, (read r line j text).1 = report.result ∧
        (read r line j text).2.diagnostics = j.diagnostics ++ report.recorded := by
  induction text using Call.text_induction with
  | step text ih =>
    simp only [read_eq]
    rw [dissect_eq]
    obtain ⟨f, hfault, h⟩ | ⟨t, hfault, hnone, h⟩ | ⟨b, hfault, h⟩ :=
      readWith_cases r line (read r line) text
    · have hown : readFailure? r line text = some (f.onLine line) := by
        rw [readFailure?, hfault]
        rfl
      rw [argumentTexts_of_fault hfault]
      refine ⟨⟨.error (f.onLine line), []⟩, Dissection.tells_leaf hown.symm, fun j ↦ ?_⟩
      obtain ⟨j', hj, hread⟩ := h j
      rw [hread, List.append_nil]
      exact ⟨rfl, hj⟩
    · have hown : readFailure? r line text = none := by
        rw [readFailure?, hfault]
        rfl
      rw [hnone]
      refine ⟨⟨.ok t, []⟩, Dissection.tells_leaf hown.symm, fun j ↦ ?_⟩
      rw [h j, List.append_nil]
      exact ⟨rfl, rfl⟩
    · have hown : readFailure? r line text = none := by
        rw [readFailure?, hfault]
        rfl
      obtain ⟨reports, htells, hall⟩ := Report.exists_attemptAll fun a ha ↦ by
        obtain ⟨c, hc, ha⟩ := exists_split_of_mem_argumentTexts ha
        exact ih c hc a ha
      refine ⟨.settle reports fun args ↦ .ok (call b args), ?_, fun j ↦ ?_⟩
      · exact Dissection.tells_settle (List.forall₂_map_left_iff.2 htells) fun _ _ ↦ hown.symm
      · obtain ⟨j', hj, hread⟩ := h j
        obtain ⟨hresults, hrecorded⟩ := hall j'
        rw [hj] at hrecorded
        rw [hread]
        obtain ⟨d, j'', hsettle, hresult, hj''⟩ | ⟨args, hsettle, -, hreport⟩ :=
          Report.settle_cases hresults hrecorded fun args ↦ .ok (call b args)
        · rw [hsettle]
          exact ⟨hresult.symm, hj''⟩
        · rw [hsettle, hreport]
          exact ⟨rfl, hrecorded⟩

/-- A text with a fault of its own is not taken apart. -/
theorem innermost_dissect_readFailure? (r : Registry) (line : Nat) (text : String) :
    (dissect r text).Innermost (readFailure? r line) := by
  induction text using Call.text_induction with
  | step text ih =>
    rw [dissect_eq]
    refine .node (fun p hp ↦ ?_) fun hown ↦ ?_
    · obtain ⟨a, ha, rfl⟩ := List.mem_map.1 hp
      obtain ⟨c, hc, ha⟩ := exists_split_of_mem_argumentTexts ha
      exact ih c hc a ha
    · obtain ⟨d, hd⟩ := Option.ne_none_iff_exists'.1 hown
      obtain ⟨f, hf, -⟩ := Option.map_eq_some_iff.1 hd
      rw [argumentTexts_of_fault hf]
      rfl

end Term

/-! ### Evaluating -/

/-- The failure of evaluating a text itself. -/
def evaluationFailure? (r : Registry) (s : Store) (line : Nat) (text : String) :
    Option Diagnostic :=
  if Word.beginsLiteral text.toList then none
  else if '(' ∉ text.toList then
    match s.find? text with
    | some _ => none
    | none => some ((Fault.undeclared text).onLine line)
  else
    match Call.split text with
    | .error _ => none
    | .ok c =>
      match r.find? c.name, c.arguments.mapM (denote r s line) with
      | some b, some operands => failureOf (b.call operands line)
      | _, _ => none

section

variable {r : Registry} {s : Store} {line : Nat} {text : String}

theorem evaluationFailure?_of_call {c : Call} {b : Builtin}
    (hliteral : Word.beginsLiteral text.toList = false) (hsplit : Call.split text = .ok c)
    (hfind : r.find? c.name = some b) (s : Store) (line : Nat) :
    evaluationFailure? r s line text =
      (c.arguments.mapM (denote r s line)).bind fun operands ↦
        failureOf (b.call operands line) := by
  have hparen := Call.mem_of_split hsplit
  rw [evaluationFailure?, if_neg (by simp [hliteral]), if_neg (by simpa using hparen), hsplit]
  simp only [hfind]
  rcases c.arguments.mapM (denote r s line) with _ | operands
  · rfl
  · rfl

/-- The values that the arguments of a call have are those that they denote. -/
theorem mapM_denote_of_reports {texts : List String} {args : List Term} {vs : List Value}
    (h : List.Forall₂ (Term.Reads r) texts args)
    (hvalues : List.Forall₂ (fun t v ↦ ((Outline.ofTerm t).report s line).result = .ok v) args vs) :
    texts.mapM (denote r s line) = some vs := by
  rw [mapM_eq_some_iff (fun a _ ↦ denote_eq_some_iff r s line a), forall₂_exists_iff]
  exact ⟨args, h, hvalues⟩

/-- **The report of what a text reads as tells its dissection.** -/
theorem Term.Reads.tells_report {t : Term} (h : Term.Reads r text t) (s : Store) (line : Nat) :
    (dissect r text).Tells (evaluationFailure? r s line) ((Outline.ofTerm t).report s line) := by
  induction h with
  | @value text v literal read =>
    rw [dissect_eq, argumentTexts_of_literal literal]
    refine Dissection.tells_leaf ?_
    rw [evaluationFailure?, if_pos literal]
    rfl
  | @reference name ne_empty literal call =>
    rw [dissect_eq, argumentTexts_of_reference call, Outline.ofTerm, Outline.report]
    have hown : evaluationFailure? r s line name =
        match s.find? name with
        | some _ => none
        | none => some ((Fault.undeclared name).onLine line) := by
      rw [evaluationFailure?, if_neg (by simp [literal]), if_pos call]
    rcases hfind : s.find? name with _ | v
    · rw [hfind] at hown
      exact Dissection.tells_leaf hown.symm
    · rw [hfind] at hown
      exact Dissection.tells_leaf hown.symm
  | @call text c b args literal split find count length arguments ih =>
    have hreads : List.Forall₂ (Term.Reads r) c.arguments args :=
      List.forall₂_iff_zip.2 ⟨length, arguments⟩
    have htells := List.forall₂_iff_zip.2 ⟨length, ih⟩
    rw [dissect_eq, argumentTexts_of_call literal split find (Builtin.checkCount_eq_ok_iff.2 count),
      Outline.ofTerm, Outline.report, Outline.reports_eq_map, Outline.ofTerms_eq_map, List.map_map]
    refine Dissection.tells_settle ?_ fun vs hvs ↦ ?_
    · exact List.forall₂_map_left_iff.2 (List.forall₂_map_right_iff.2 htells)
    · -- the operands are what the arguments denote, so the call fails as the failure function says
      have hoperands := mapM_denote_of_reports hreads (List.forall₂_map_left_iff.1 hvs)
      rw [evaluationFailure?_of_call literal split find, hoperands, Option.bind_some]

/-- A text that denotes a value has no failures. -/
theorem raised_eq_nil_of_denote {v : Value} (h : denote r s line text = some v) :
    (dissect r text).raised (evaluationFailure? r s line) = [] := by
  obtain ⟨t, hreads, hvalue⟩ := (denote_eq_some_iff r s line text v).1 h
  have htells := (hreads.tells_report s line).1
  rw [hvalue] at htells
  exact Dissection.raised_eq_nil_of_returned htells.symm

/-- A call that fails on its own has arguments that denote values. -/
theorem Term.Reads.innermost {t : Term} (h : Term.Reads r text t) (s : Store) (line : Nat) :
    (dissect r text).Innermost (evaluationFailure? r s line) := by
  induction h with
  | @value text v literal read =>
    rw [dissect_eq, argumentTexts_of_literal literal]
    exact .node nofun fun _ ↦ rfl
  | @reference name ne_empty literal call =>
    rw [dissect_eq, argumentTexts_of_reference call]
    exact .node nofun fun _ ↦ rfl
  | @call text c b args literal split find count length arguments ih =>
    rw [dissect_eq, argumentTexts_of_call literal split find (Builtin.checkCount_eq_ok_iff.2 count)]
    refine .node (fun p hp ↦ ?_) fun hown ↦ ?_
    · obtain ⟨a, ha, rfl⟩ := List.mem_map.1 hp
      obtain ⟨-, hinnermost⟩ := exists_of_forall₂ (List.forall₂_iff_zip.2 ⟨length, ih⟩) a ha
      exact hinnermost
    · rw [evaluationFailure?_of_call literal split find] at hown
      obtain ⟨d, hd⟩ := Option.ne_none_iff_exists'.1 hown
      obtain ⟨operands, hoperands, -⟩ := Option.bind_eq_some_iff.1 hd
      refine Dissection.raisedAll_eq_nil fun p hp ↦ ?_
      obtain ⟨a, ha, rfl⟩ := List.mem_map.1 hp
      rw [mapM_eq_some_iff (fun _ _ _ ↦ Iff.rfl)] at hoperands
      obtain ⟨v, hv⟩ := exists_of_forall₂ hoperands a ha
      exact raised_eq_nil_of_denote hv

end

/-! ### Both in turn -/

/-- **What becomes of the text of an expression.** It cannot be read, and reading tells why; or it
reads as a term, with nothing recorded, and the rest is up to the term. -/
theorem Session.evaluate_cases (s : Session) (text : String) :
    (∃ d recorded, (dissect s.registry text).Tells (Term.readFailure? s.registry s.line)
        (⟨.error d, recorded⟩ : Report Term) ∧
      (∀ j, (Arena.read s.registry s.line j text).1 = .error d) ∧
      (s.evaluate text).1 = .error d ∧
      (s.evaluate text).2.diagnostics = s.journal.diagnostics ++ recorded) ∨
    ∃ t, Term.Reads s.registry text t ∧
      (s.evaluate text).1 = ((Outline.ofTerm t).report s.store s.line).result ∧
      (s.evaluate text).2.diagnostics =
        s.journal.diagnostics ++ ((Outline.ofTerm t).report s.store s.line).recorded := by
  obtain ⟨⟨d | t, recorded⟩, htells, hread⟩ := Term.exists_report_read s.registry s.line text
  · have harena : ∀ j, Arena.read s.registry s.line j text =
        (.error d, (Term.read s.registry s.line j text).2) := by
      intro j
      have hresult := (hread j).1
      rw [Arena.read]
      rcases hterm : Term.read s.registry s.line j text with ⟨result, j'⟩
      rw [hterm] at hresult
      cases hresult
      rfl
    refine .inl ⟨d, recorded, htells, fun j ↦ congrArg Prod.fst (harena j), ?_, ?_⟩
    · rw [evaluate, harena]
    · rw [evaluate, harena]
      exact (hread s.journal).2
  · have hnil : recorded = [] := htells.2.trans
      (Dissection.recorded_eq_nil_of_returned
        (Term.innermost_dissect_readFailure? s.registry s.line text) htells.1.symm)
    obtain ⟨hresult, hj⟩ := hread s.journal
    have ht := (Term.read_eq_ok_iff s.registry s.line text s.journal t).1 hresult
    rw [hnil, List.append_nil] at hj
    refine .inr ⟨t, ht, ?_⟩
    rw [evaluate, Arena.read]
    rcases hterm : Term.read s.registry s.line s.journal text with ⟨result, j⟩
    rw [hterm] at hresult hj
    cases hresult
    simp only [Outline.arena_ofTerm, Outline.evaluate_arena]
    have hreport := Outline.evaluate_report s.store s.line (Outline.ofTerm t) 0 j
    rw [hj] at hreport
    exact hreport

/-- Nothing has gone on record along with a value. -/
theorem Session.diagnostics_of_evaluate {s : Session} {text : String} {v : Value} {j : Journal}
    (h : s.evaluate text = (.ok v, j)) : j.diagnostics = s.journal.diagnostics := by
  have hcases := s.evaluate_cases text
  rw [h] at hcases
  obtain ⟨d, recorded, -, -, hd, -⟩ | ⟨t, -, hresult, hj⟩ := hcases
  · cases hd
  · rw [Outline.recorded_eq_nil hresult.symm, List.append_nil] at hj
    exact hj

end MatrixScript
