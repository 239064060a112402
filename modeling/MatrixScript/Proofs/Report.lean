import MatrixScript.Proofs.Basis
import MatrixScript.Proofs.Outline

/-!
# Reports

What an attempt returns, and what it records on the way, in order. The texts of arguments are read
one after the other, and the nodes of arguments are evaluated one after the other, and both come to
the same when it is decided on the call: `Report.settle` makes its report from those of the
arguments, and `Report.settle_cases` says that this is what goes on in the journal.

Evaluating an outline gives its report, wherever the outline lies and whatever has been recorded
before (`Outline.evaluate_report`), so two outlines can be compared by their reports. This is the
only place where it matters how outlines are evaluated.
-/

namespace MatrixScript

variable {α β : Type}

@[simp]
theorem failures_map_ok {ε : Type} (vs : List β) :
    failures (vs.map (Except.ok : β → Except ε β)) = [] := by
  induction vs with
  | nil => rfl
  | cons v vs ih => exact ih

theorem mem_failures_iff {ε : Type} {results : List (Except ε α)} {e : ε} :
    e ∈ failures results ↔ .error e ∈ results := by
  rw [failures, List.mem_filterMap]
  constructor
  · rintro ⟨result, hmem, h⟩
    rcases result with e' | v
    · cases h
      exact hmem
    · cases h
  · intro h
    exact ⟨.error e, h, rfl⟩

/-- What an attempt comes to. -/
structure Report (α : Type) where
  /-- What is returned. -/
  result : Except Diagnostic α
  /-- What is recorded on the way. -/
  recorded : List Diagnostic

namespace Report

/-! ### Attempts and what is decided on them -/

/-- The report of a call, given those of its arguments and what it does with their values. -/
def settle (rs : List (Report α)) (finish : List α → Except Diagnostic β) : Report β :=
  match verdict (rs.map result) with
  | .error (earlier, last) => ⟨.error last, rs.flatMap recorded ++ earlier⟩
  | .ok vs => ⟨finish vs, rs.flatMap recorded⟩

variable {rs : List (Report α)} {finish : List α → Except Diagnostic β}

theorem map_result_eq_iff {vs : List α} :
    rs.map result = vs.map .ok ↔ List.Forall₂ (fun r v ↦ r.result = .ok v) rs vs := by
  rw [← List.forall₂_eq_eq_eq, List.forall₂_map_left_iff, List.forall₂_map_right_iff]

/-- With values for all arguments a call goes on. -/
theorem settle_of_forall₂ {vs : List α} (h : List.Forall₂ (fun r v ↦ r.result = .ok v) rs vs) :
    settle rs finish = ⟨finish vs, rs.flatMap recorded⟩ := by
  rw [settle, verdict_eq_ok_iff.2 (map_result_eq_iff.2 h)]

/-- Otherwise it returns the last failure of an argument and records the others. -/
theorem settle_of_failures {earlier : List Diagnostic} {last : Diagnostic}
    (h : failures (rs.map result) = earlier ++ [last]) :
    settle rs finish = ⟨.error last, rs.flatMap recorded ++ earlier⟩ := by
  rw [settle, verdict_eq_error_iff.2 h]

/-- There are values for all arguments, or failures among them. -/
theorem values_or_failures (rs : List (Report α)) :
    (∃ vs, List.Forall₂ (fun r v ↦ r.result = .ok v) rs vs) ∨
      ∃ earlier last, failures (rs.map result) = earlier ++ [last] := by
  rcases hverdict : verdict (rs.map result) with ⟨earlier, last⟩ | vs
  · exact .inr ⟨earlier, last, verdict_eq_error_iff.1 hverdict⟩
  · exact .inl ⟨vs, map_result_eq_iff.1 (verdict_eq_ok_iff.1 hverdict)⟩

theorem settle_eq_ok_iff {v : β} :
    (settle rs finish).result = .ok v ↔
      ∃ vs, List.Forall₂ (fun r v ↦ r.result = .ok v) rs vs ∧ finish vs = .ok v := by
  constructor
  · intro h
    obtain ⟨vs, hvs⟩ | ⟨earlier, last, hfailures⟩ := values_or_failures rs
    · rw [settle_of_forall₂ hvs] at h
      exact ⟨vs, hvs, h⟩
    · rw [settle_of_failures hfailures] at h
      cases h
  · rintro ⟨vs, hvs, h⟩
    rw [settle_of_forall₂ hvs]
    exact h

/-- **What is decided on the results of arguments is reported**: the call fails and the journal has
what its report says, or it goes on with the values. -/
theorem settle_cases {results : List (Except Diagnostic α)} {j j' : Journal}
    (hresults : results = rs.map result)
    (hj : j'.diagnostics = j.diagnostics ++ rs.flatMap recorded)
    (finish : List α → Except Diagnostic β) :
    (∃ d j'', j'.settle results = (.error d, j'') ∧ (settle rs finish).result = .error d ∧
      j''.diagnostics = j.diagnostics ++ (settle rs finish).recorded) ∨
    ∃ vs, j'.settle results = (.ok vs, j') ∧
      List.Forall₂ (fun r v ↦ r.result = .ok v) rs vs ∧
      settle rs finish = ⟨finish vs, rs.flatMap recorded⟩ := by
  rcases hsettle : j'.settle results with ⟨d | vs, j''⟩
  · obtain ⟨earlier, hfailures, rfl⟩ := Journal.settle_eq_error hsettle
    rw [hresults] at hfailures
    refine .inl ⟨d, j'.recordAll earlier, rfl, ?_, ?_⟩
    · rw [settle_of_failures hfailures]
    · rw [settle_of_failures hfailures, Journal.diagnostics_recordAll, hj, List.append_assoc]
  · obtain ⟨hvs, rfl⟩ := Journal.settle_eq_ok hsettle
    have hvalues := map_result_eq_iff.1 (hresults.symm.trans hvs)
    exact .inr ⟨vs, rfl, hvalues, settle_of_forall₂ hvalues⟩

/-- Attempts one after the other make their reports, whatever has been recorded before. -/
theorem exists_attemptAll {P : α → Report β → Prop}
    {act : Journal → α → Except Diagnostic β × Journal} {xs : List α}
    (h : ∀ x ∈ xs, ∃ r : Report β, P x r ∧
      ∀ j, (act j x).1 = r.result ∧ (act j x).2.diagnostics = j.diagnostics ++ r.recorded) :
    ∃ rs, List.Forall₂ P xs rs ∧
      ∀ j, (attemptAll act j xs).1 = rs.map result ∧
        (attemptAll act j xs).2.diagnostics = j.diagnostics ++ rs.flatMap recorded := by
  induction xs with
  | nil => exact ⟨[], .nil, fun j ↦ ⟨rfl, (List.append_nil _).symm⟩⟩
  | cons x xs ih =>
    obtain ⟨r, hr, hact⟩ := h x List.mem_cons_self
    obtain ⟨rs, hrs, hall⟩ := ih fun y hy ↦ h y (List.mem_cons_of_mem x hy)
    refine ⟨r :: rs, .cons hr hrs, fun j ↦ ?_⟩
    obtain ⟨hresult, hj⟩ := hact j
    obtain ⟨hresults, hj'⟩ := hall (act j x).2
    refine ⟨?_, ?_⟩
    · show (act j x).1 :: (attemptAll act (act j x).2 xs).1 = _
      rw [hresult, hresults, List.map_cons]
    · show (attemptAll act (act j x).2 xs).2.diagnostics = _
      rw [hj', hj, List.flatMap_cons, List.append_assoc]

/-! ### All failures at once -/

/-- The value, or everything that is told of failures, the returned one last. -/
def told (r : Report α) : Except (List Diagnostic) α :=
  r.result.mapError fun d ↦ r.recorded ++ [d]

theorem told_of_ok {r : Report α} {v : α} (h : r.result = .ok v) : r.told = .ok v := by
  rw [told, h]
  rfl

theorem told_of_error {r : Report α} {d : Diagnostic} (h : r.result = .error d) :
    r.told = .error (r.recorded ++ [d]) := by
  rw [told, h]
  rfl

/-- What a call with failing arguments tells is told by these, if nothing is recorded along with a
value. -/
theorem exists_told_of_mem (hvalues : ∀ r ∈ rs, ∀ v, r.result = .ok v → r.recorded = [])
    {d : Diagnostic} (h : d ∈ rs.flatMap recorded ++ failures (rs.map result)) :
    ∃ r ∈ rs, ∃ ds, r.told = .error ds ∧ d ∈ ds := by
  rcases List.mem_append.1 h with hrecorded | hreturned
  · obtain ⟨r, hr, hd⟩ := List.mem_flatMap.1 hrecorded
    rcases hresult : r.result with e | v
    · exact ⟨r, hr, _, told_of_error hresult, List.mem_append_left _ hd⟩
    · rw [hvalues r hr v hresult] at hd
      cases hd
  · obtain ⟨r, hr, hresult⟩ := List.mem_map.1 (mem_failures_iff.1 hreturned)
    exact ⟨r, hr, _, told_of_error hresult, List.mem_append_right _ List.mem_cons_self⟩

end Report

namespace Outline

/-! ### The report of an outline -/

mutual

/-- What evaluating an outline comes to. -/
def report (s : Store) (line : Nat) : Outline → Report Value
  | value v => ⟨.ok v, []⟩
  | done _ v _ => ⟨.ok v, []⟩
  | reference name =>
    match s.find? name with
    | some v => ⟨.ok v, []⟩
    | none => ⟨.error ((Fault.undeclared name).onLine line), []⟩
  | call b args => .settle (reports s line args) (b.call · line)

/-- What evaluating outlines one after the other comes to. -/
def reports (s : Store) (line : Nat) : List Outline → List (Report Value)
  | [] => []
  | o :: os => o.report s line :: reports s line os

end

variable {s : Store} {line : Nat} {o : Outline} {v : Value}

theorem reports_eq_map (s : Store) (line : Nat) (os : List Outline) :
    reports s line os = os.map (report s line) := by
  induction os with
  | nil => rfl
  | cons o os ih => rw [reports, ih, List.map_cons]

/-- A call has a value if its arguments have values that its builtin accepts. -/
theorem report_call_eq_ok_iff {b : Builtin} {args : List Outline} :
    ((call b args).report s line).result = .ok v ↔
      ∃ vs, List.Forall₂ (fun o v ↦ (o.report s line).result = .ok v) args vs ∧
        b.call vs line = .ok v := by
  rw [report, Report.settle_eq_ok_iff, reports_eq_map]
  simp only [List.forall₂_map_left_iff]

/-- Nothing is recorded along with a value. -/
theorem recorded_eq_nil (h : (o.report s line).result = .ok v) :
    (o.report s line).recorded = [] := by
  induction o generalizing v with
  | value u => rfl
  | done b u n => rfl
  | reference name =>
    rw [report]
    split
    · rfl
    · rfl
  | call b args ih =>
    obtain ⟨vs, hvs, -⟩ := report_call_eq_ok_iff.1 h
    have hvalues : List.Forall₂ (fun r v ↦ r.result = .ok v) (reports s line args) vs := by
      rw [reports_eq_map]
      exact List.forall₂_map_left_iff.2 hvs
    rw [report, Report.settle_of_forall₂ hvalues]
    show (reports s line args).flatMap Report.recorded = []
    rw [reports_eq_map, List.flatMap_map, List.flatMap_eq_nil_iff]
    intro o ho
    obtain ⟨u, hu⟩ := exists_of_forall₂ hvs o ho
    exact ih o ho hu

theorem report_eq_of_ok (h : (o.report s line).result = .ok v) : o.report s line = ⟨.ok v, []⟩ := by
  rw [← h, ← recorded_eq_nil h]

theorem evaluateAll_reports {os : List Outline}
    (h : ∀ o ∈ os, ∀ start j, (o.evaluate s line start j).1 = (o.report s line).result ∧
      (o.evaluate s line start j).2.2.diagnostics =
        j.diagnostics ++ (o.report s line).recorded)
    (start : Nat) (j : Journal) :
    (evaluateAll s line start j os).1 = (reports s line os).map Report.result ∧
      (evaluateAll s line start j os).2.2.diagnostics =
        j.diagnostics ++ (reports s line os).flatMap Report.recorded := by
  induction os generalizing start j with
  | nil => exact ⟨rfl, (List.append_nil _).symm⟩
  | cons o os ih =>
    obtain ⟨hresult, hrecorded⟩ := h o List.mem_cons_self start j
    obtain ⟨hresults, hrecorded'⟩ := ih (fun p hp ↦ h p (List.mem_cons_of_mem o hp))
      (start + o.size) (o.evaluate s line start j).2.2
    refine ⟨?_, ?_⟩
    · simp only [evaluateAll, reports, hresult, hresults, List.map_cons]
    · simp only [evaluateAll, reports, hrecorded', hrecorded, List.flatMap_cons, List.append_assoc]

/-- **Evaluating an outline gives its report**, wherever the outline lies and whatever has been
recorded before. -/
theorem evaluate_report (s : Store) (line : Nat) (o : Outline) (start : Nat) (j : Journal) :
    (o.evaluate s line start j).1 = (o.report s line).result ∧
      (o.evaluate s line start j).2.2.diagnostics =
        j.diagnostics ++ (o.report s line).recorded := by
  induction o generalizing start j with
  | value v => exact ⟨rfl, (List.append_nil _).symm⟩
  | done b v n => exact ⟨rfl, (List.append_nil _).symm⟩
  | reference name =>
    rw [evaluate, report, Store.lookup]
    cases s.find? name with
    | some v => exact ⟨rfl, (List.append_nil _).symm⟩
    | none => exact ⟨rfl, (List.append_nil _).symm⟩
  | call b args ih =>
    obtain ⟨hresults, hrecorded⟩ := evaluateAll_reports ih start j
    rcases hall : evaluateAll s line start j args with ⟨results, args', j'⟩
    rw [hall] at hresults hrecorded
    simp only [evaluate, hall, report]
    obtain ⟨d, j'', hsettle, hresult, hj⟩ | ⟨vs, hsettle, -, hreport⟩ :=
      Report.settle_cases hresults hrecorded (b.call · line)
    · simp only [hsettle]
      exact ⟨hresult.symm, hj⟩
    · simp only [hsettle, hreport]
      cases hcall : b.call vs line with
      | error d => exact ⟨rfl, hrecorded⟩
      | ok v => exact ⟨rfl, hrecorded⟩

/-- An outline's evaluation returns a value exactly if its report does. -/
theorem evaluate_eq_ok_iff {start : Nat} {j : Journal} :
    (o.evaluate s line start j).1 = .ok v ↔ (o.report s line).result = .ok v := by
  rw [(evaluate_report s line o start j).1]

end Outline

end MatrixScript
