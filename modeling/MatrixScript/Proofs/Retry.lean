import MatrixScript.Proofs.Builtin
import MatrixScript.Proofs.Invariant
import MatrixScript.Proofs.Report

/-!
# Trying again

An arena that could not be evaluated for want of a variable can be evaluated again when there are
more variables. If those that were there have kept their values, this is as good as reading the
expression anew: the last attempt returns and records what a fresh arena would (`retry_eq_fresh`).
The builtins must give their values on any line if on one (`Builtin.Steady`), since the earlier
attempts were made on other lines.

In between, the arena is a patchwork: some variables have become values, some calls have been
carried out, others wait. `Remains s t o` says that this patchwork, as an outline `o`, is what
remains of a term `t` in view of variables `s`: every value in it is the one that the part of the
term in its place has under `s`, on every line. It is about the variables of the *last* attempt
only. Earlier attempts know fewer of them, and what they find out holds under `s` as well
(`Remains.result_eq`), so each of them leaves something that remains (`Remains.evaluate`).
-/

namespace MatrixScript

/-! ### Growing stores -/

/-- A store has all bindings of another one. -/
def Store.GrowsTo (s s' : Store) : Prop :=
  ∀ name v, s.find? name = some v → s'.find? name = some v

instance : Trans Store.GrowsTo Store.GrowsTo Store.GrowsTo where
  trans h h' name v hfind := h' name v (h name v hfind)

namespace Outline

/-! ### What remains of a term -/

/-- An outline is what remains of a term after evaluations whose findings hold under `s`. -/
inductive Remains (s : Store) : Term → Outline → Prop
  | value {v : Value} : Remains s (.value v) (.value v)
  | reference {name : String} : Remains s (.reference name) (.reference name)
  /-- A variable has become its value. -/
  | found {name : String} {v : Value} (find : s.find? name = some v) :
    Remains s (.reference name) (.value v)
  /-- A call waits, and something remains of each argument. -/
  | call {b : Builtin} {args : List Term} {os : List Outline} (steady : b.Steady)
    (length : args.length = os.length) (arguments : ∀ {t o}, (t, o) ∈ args.zip os → Remains s t o) :
    Remains s (.call b args) (.call b os)
  /-- A call has been carried out, and on no line would it have another value. -/
  | done {b : Builtin} {args : List Term} {v : Value} {released : Nat}
    (value : ∀ line, ((ofTerm (.call b args)).report s line).result = .ok v) :
    Remains s (.call b args) (.done b v released)

variable {s s' : Store} {t : Term} {o : Outline}

theorem reports_congr {line : Nat} {os os' : List Outline}
    (h : List.Forall₂ (fun o o' ↦ o.report s line = o'.report s line) os os') :
    reports s line os = reports s line os' := by
  induction h with
  | nil => rfl
  | cons hhead _ ih => rw [reports, reports, hhead, ih]

/-- **What remains of a term reports what the term would.** -/
theorem Remains.report_eq (h : Remains s t o) (line : Nat) :
    o.report s line = (ofTerm t).report s line := by
  induction h with
  | value => rfl
  | reference => rfl
  | found find => rw [ofTerm, report, report, find]
  | @call b args os steady length arguments ih =>
    have hargs : List.Forall₂ (fun o t ↦ o.report s line = (ofTerm t).report s line) os args :=
      (List.forall₂_iff_zip.2 ⟨length, ih⟩).flip
    rw [ofTerm, ofTerms_eq_map, report, report,
      reports_congr (List.forall₂_map_right_iff.2 hargs)]
  | done value => rw [report_eq_of_ok (value line), report]

/-- A value that an earlier attempt finds, with fewer variables, is the one that the term has with
all of them. -/
theorem Remains.result_eq (h : Remains s t o) (hgrows : s'.GrowsTo s) {line : Nat} {v : Value}
    (hv : (o.report s' line).result = .ok v) (line' : Nat) :
    ((ofTerm t).report s line').result = .ok v := by
  induction h generalizing v with
  | value => exact hv
  | @reference name =>
    rw [report] at hv
    rcases hfind : s'.find? name with _ | u
    · rw [hfind] at hv
      cases hv
    · rw [hfind] at hv
      rw [ofTerm, report, hgrows name u hfind]
      exact hv
  | found find =>
    rw [ofTerm, report, find]
    exact hv
  | @call b args os steady length arguments ih =>
    obtain ⟨vs, hvs, hcall⟩ := report_call_eq_ok_iff.1 hv
    rw [ofTerm, ofTerms_eq_map, report_call_eq_ok_iff]
    refine ⟨vs, ?_, steady.call_eq hcall line'⟩
    -- from the terms of the arguments to their values, by way of what remains of them
    have hargs := forall₂_exists_iff.2 ⟨os, List.forall₂_iff_zip.2 ⟨length, ih⟩, hvs⟩
    refine List.forall₂_map_left_iff.2 (hargs.imp fun t v hleft ↦ ?_)
    obtain ⟨o, hmono, hv⟩ := hleft
    exact hmono hv
  | done value =>
    cases hv
    exact value line'

/-- Evaluating a call leaves the call with what is left of its arguments, or gives it its value. -/
theorem evaluate_call_cases (s : Store) (line start : Nat) (j : Journal) (b : Builtin)
    (os : List Outline) :
    ((call b os).evaluate s line start j).2.1 = call b (evaluateAll s line start j os).2.1 ∨
      ∃ v released, ((call b os).evaluate s line start j).1 = .ok v ∧
        ((call b os).evaluate s line start j).2.1 = done b v released := by
  simp only [evaluate]
  rcases (evaluateAll s line start j os).2.2.settle (evaluateAll s line start j os).1 with
    ⟨d | operands, j'⟩
  · exact .inl rfl
  · rcases hcall : b.call operands line with d | v
    · refine .inl ?_
      simp only [hcall]
    · refine .inr ⟨v, sizeAll (evaluateAll s line start j os).2.1, ?_⟩
      simp only [hcall, and_self]

theorem forall₂_evaluateAll {line : Nat} {ts : List Term} {os : List Outline}
    (h : List.Forall₂ (fun t o ↦ ∀ start j, Remains s t (o.evaluate s' line start j).2.1) ts os)
    (start : Nat) (j : Journal) :
    List.Forall₂ (Remains s) ts (evaluateAll s' line start j os).2.1 := by
  induction h generalizing start j with
  | nil => exact .nil
  | cons hhead _ ih => exact .cons (hhead start j) (ih _ _)

/-- **An earlier attempt leaves something that remains.** -/
theorem Remains.evaluate (h : Remains s t o) (hgrows : s'.GrowsTo s) (line start : Nat)
    (j : Journal) : Remains s t (o.evaluate s' line start j).2.1 := by
  induction h generalizing start j with
  | value => exact .value
  | found find => exact .found find
  | done value => exact .done value
  | @reference name =>
    rw [Outline.evaluate, Store.lookup]
    cases hfind : s'.find? name with
    | none => exact .reference
    | some v => exact .found (hgrows name v hfind)
  | @call b args os steady length arguments ih =>
    obtain hcall | ⟨v, released, hv, hdone⟩ := evaluate_call_cases s' line start j b os
    · rw [hcall]
      have hargs := forall₂_evaluateAll (List.forall₂_iff_zip.2 ⟨length, ih⟩) start j
      rw [List.forall₂_iff_zip] at hargs
      exact .call steady hargs.1 hargs.2
    · rw [hdone]
      have hremains : Remains s (.call b args) (.call b os) := .call steady length arguments
      exact .done (hremains.result_eq hgrows (evaluate_eq_ok_iff.1 hv))

/-- So do any number of them. -/
theorem Remains.exists_after (h : Remains s t o) (os : List Arena.Occasion)
    (hgrows : ∀ c ∈ os, c.store.GrowsTo s) :
    ∃ o', o.arena.after os = o'.arena ∧ Remains s t o' := by
  induction os generalizing o with
  | nil => exact ⟨o, rfl, h⟩
  | cons c os ih =>
    have hnext := h.evaluate (hgrows c List.mem_cons_self) c.line 0 c.journal
    obtain ⟨o', hafter, ho'⟩ := ih hnext fun c' hc' ↦ hgrows c' (List.mem_cons_of_mem c hc')
    refine ⟨o', ?_, ho'⟩
    rw [Arena.after, Arena.evaluateOn, evaluate_arena]
    exact hafter

/-- All of a term that has been read remains to begin with. -/
theorem remains_ofTerm {r : Registry} (hr : ∀ b ∈ r.entries, b.Steady) {text : String}
    (h : Term.Reads r text t) : Remains s t (ofTerm t) := by
  induction h with
  | value literal read => exact .value
  | reference ne_empty literal call => exact .reference
  | @call text c b args literal split find count length arguments ih =>
    have hargs := forall_of_forall_zip length ih
    have hall : List.Forall₂ (Remains s) args (ofTerms args) := by
      rw [ofTerms_eq_map, List.forall₂_map_right_iff, List.forall₂_same]
      exact hargs
    rw [List.forall₂_iff_zip] at hall
    exact .call (hr b (List.mem_of_find?_eq_some find)) hall.1 hall.2

end Outline

namespace Arena

/-! ### Old and fresh arenas -/

/-- **Trying again is as good as starting over.** An arena is evaluated on occasions whose stores
grow, and fresh from reading on the last of them alone. Both return the same value or failure, and
both record the same, in the same order. -/
theorem retry_eq_fresh {r : Registry} (hr : ∀ b ∈ r.entries, b.Steady) {text : String}
    {line line' : Nat} {j j' : Journal} {a fresh : Arena}
    (hread : (read r line j text).1 = .ok a) (hfresh : (read r line' j' text).1 = .ok fresh)
    (os : List Occasion) (o : Occasion)
    (hgrows : (os.map Occasion.store ++ [o.store]).IsChain Store.GrowsTo) (journal : Journal) :
    ((a.after os).evaluateOn o).1 = (fresh.evaluateOn { o with journal }).1 ∧
      ∃ recorded,
        ((a.after os).evaluateOn o).2.2.diagnostics = o.journal.diagnostics ++ recorded ∧
        (fresh.evaluateOn { o with journal }).2.2.diagnostics =
          journal.diagnostics ++ recorded := by
  obtain ⟨t, ht, rfl⟩ := read_eq_ok_iff.1 hread
  obtain rfl : ofTerm t = fresh := by
    rw [← Except.ok.injEq, ← hfresh]
    exact (read_eq_ok_iff.2 ⟨t, ht, rfl⟩).symm
  -- every earlier store grows to the last one
  have hstores : ∀ c ∈ os, c.store.GrowsTo o.store := fun c hc ↦
    (List.pairwise_append.1 hgrows.pairwise).2.2 _ (List.mem_map_of_mem hc) _ List.mem_cons_self
  obtain ⟨o', hafter, hremains⟩ :=
    (Outline.remains_ofTerm (s := o.store) hr ht).exists_after os hstores
  have hold := Outline.evaluate_report o.store o.line o' 0 o.journal
  have hnew := Outline.evaluate_report o.store o.line (Outline.ofTerm t) 0 journal
  rw [hremains.report_eq o.line] at hold
  rw [Outline.arena_ofTerm, hafter, evaluateOn, evaluateOn, Outline.evaluate_arena,
    Outline.evaluate_arena]
  exact ⟨hold.1.trans hnew.1.symm, _, hold.2, hnew.2⟩

/-- A sum whose first argument is carried out before there is a variable for the second. -/
theorem retry_eq_fresh_sum :
    (∀ b ∈ Registry.standard.entries, b.Steady) ∧
      [Store.empty, ⟨[("x", .scalar 4)]⟩].IsChain Store.GrowsTo ∧
      ∃ a, (read .standard 1 {} "ADD(MUL(2,3),x)").1 = .ok a ∧
        ((a.after [⟨.empty, 1, {}⟩]).evaluateOn ⟨⟨[("x", .scalar 4)]⟩, 2, {}⟩).1 =
          (a.evaluateOn ⟨⟨[("x", .scalar 4)]⟩, 2, {}⟩).1 := by
  have hsteady : ∀ b ∈ Registry.standard.entries, b.Steady :=
    fun b hb ↦ Builtin.steady_of_mem_standard hb
  have hgrows : [Store.empty, ⟨[("x", .scalar 4)]⟩].IsChain Store.GrowsTo :=
    .cons_cons (fun name v hfind ↦ nomatch hfind) (.singleton _)
  obtain ⟨a, hread⟩ : ∃ a, (read .standard 1 {} "ADD(MUL(2,3),x)").1 = .ok a := ⟨_, rfl⟩
  have hretry := retry_eq_fresh hsteady hread hread [⟨.empty, 1, {}⟩]
    ⟨⟨[("x", .scalar 4)]⟩, 2, {}⟩ hgrows {}
  exact ⟨hsteady, hgrows, a, hread, hretry.1⟩

end Arena

end MatrixScript
