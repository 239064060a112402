import MatrixScript.Proofs.Reading
import MatrixScript.Proofs.Report

/-!
# The denotation of a text

The direct reading of an expression's text as a value, by recursion on the text: a literal denotes
its value, a variable what the store binds it to, and a call what its builtin makes of the
denotations of its arguments. There is no arena, nothing is cached and nothing released; a text
either denotes a value or nothing at all.

The main statement is that reading a text into an arena and evaluating it comes to the same
(`Arena.read_evaluate_eq_ok_iff_denote`). It is put together from three facts: which texts read as
which terms (`Term.read_eq_ok_iff`), that an arena is evaluated as its outline is
(`Outline.evaluate_arena`), and that a text denotes what is reported of the term that it reads as
(`denote_eq_some_iff`).
-/

namespace MatrixScript

/-- The value that the text of an expression denotes, if it denotes one. An empty text is no
expression. -/
def denote (r : Registry) (s : Store) (line : Nat) (text : String) : Option Value :=
  if text = "" then none
  else if Word.beginsLiteral text.toList then (Literal.read text).toOption
  else if '(' ∉ text.toList then s.find? text
  else
    match _ : Call.split text with
    | .error _ => none
    | .ok c => do
      let b ← r.find? c.name
      let vs ← c.arguments.attach.mapM fun a ↦ denote r s line a.1
      (b.call vs line).toOption
termination_by text.length
decreasing_by exact Call.length_lt_of_split ‹_› a.2

section

variable {r : Registry} {s : Store} {line : Nat} {text : String}

/-! ### The three forms of expression -/

theorem denote_empty : denote r s line "" = none := by
  rw [denote, if_pos rfl]

/-- A literal denotes the value that it reads as. -/
theorem denote_of_literal (hliteral : Word.beginsLiteral text.toList = true) :
    denote r s line text = (Literal.read text).toOption := by
  have hne : text ≠ "" := by
    rintro rfl
    cases hliteral
  rw [denote, if_neg hne, if_pos hliteral]

/-- A variable denotes what it is bound to. -/
theorem denote_of_reference (hne : text ≠ "") (hliteral : Word.beginsLiteral text.toList = false)
    (hcall : '(' ∉ text.toList) : denote r s line text = s.find? text := by
  rw [denote, if_neg hne, if_neg (by simp [hliteral]), if_pos hcall]

/-- A call denotes what its builtin makes of the denotations of its arguments. -/
theorem denote_of_call {c : Call} (hliteral : Word.beginsLiteral text.toList = false)
    (hsplit : Call.split text = .ok c) :
    denote r s line text =
      (r.find? c.name).bind fun b ↦
        (c.arguments.mapM (denote r s line)).bind fun vs ↦ (b.call vs line).toOption := by
  have hparen := Call.mem_of_split hsplit
  have hne : text ≠ "" := by
    rintro rfl
    cases hparen
  rw [denote, if_neg hne, if_neg (by simp [hliteral]), if_neg (by simpa using hparen)]
  split
  · next e he =>
    rw [hsplit] at he
    cases he
  · next c' hc' =>
    rw [hsplit] at hc'
    cases hc'
    rw [List.mapM_subtype fun a _ ↦ rfl, List.unattach_attach]
    rfl

theorem denote_of_split_error {e : Call.Error} (hliteral : Word.beginsLiteral text.toList = false)
    (hparen : '(' ∈ text.toList) (hsplit : Call.split text = .error e) :
    denote r s line text = none := by
  have hne : text ≠ "" := by
    rintro rfl
    cases hparen
  rw [denote, if_neg hne, if_neg (by simp [hliteral]), if_neg (by simpa using hparen)]
  split
  · rfl
  · next c' hc' =>
    rw [hsplit] at hc'
    cases hc'

end

/-! ### Reading and evaluating -/

theorem Builtin.length_of_call_eq_ok {b : Builtin} {vs : List Value} {line : Nat} {v : Value}
    (h : b.call vs line = .ok v) : vs.length = b.arity := by
  rw [← Builtin.checkCount_eq_ok_iff]
  cases hcount : b.checkCount vs.length with
  | error f =>
    rw [Builtin.call, hcount] at h
    cases h
  | ok => rfl

section

variable {r : Registry} {s : Store} {line : Nat} {text : String}

/-- A call denotes a value by way of terms for its arguments. The number of arguments need not be
asked for on the side of the denotation: a builtin refuses any number but its own. -/
theorem denote_call_eq_some_iff {c : Call} {v : Value}
    (hliteral : Word.beginsLiteral text.toList = false) (hsplit : Call.split text = .ok c)
    (ih : ∀ a ∈ c.arguments, ∀ u, denote r s line a = some u ↔
      ∃ t, Term.Reads r a t ∧ ((Outline.ofTerm t).report s line).result = .ok u) :
    denote r s line text = some v ↔
      ∃ t, Term.Reads r text t ∧ ((Outline.ofTerm t).report s line).result = .ok v := by
  have hmapM : ∀ vs, c.arguments.mapM (denote r s line) = some vs ↔
      ∃ args, List.Forall₂ (Term.Reads r) c.arguments args ∧
        List.Forall₂ (fun t u ↦ ((Outline.ofTerm t).report s line).result = .ok u) args vs := by
    intro vs
    rw [mapM_eq_some_iff ih, forall₂_exists_iff]
  rw [denote_of_call hliteral hsplit]
  simp only [Option.bind_eq_some_iff, hmapM, toOption_eq_some_iff]
  constructor
  · rintro ⟨b, hfind, vs, ⟨args, hreads, hvalues⟩, hcall⟩
    -- the builtin has accepted the values, so there are as many of them as it takes
    have hlength : c.arguments.length = vs.length :=
      hreads.length_eq.trans hvalues.length_eq
    refine ⟨.call b args, ?_, ?_⟩
    · rw [List.forall₂_iff_zip] at hreads
      refine .call hliteral hsplit hfind ?_ hreads.1 hreads.2
      rw [hlength, Builtin.length_of_call_eq_ok hcall]
    · rw [Outline.ofTerm, Outline.report_call_eq_ok_iff, Outline.ofTerms_eq_map]
      exact ⟨vs, List.forall₂_map_left_iff.2 hvalues, hcall⟩
  · rintro ⟨t, hreads, hvalue⟩
    cases hreads with
    | value literal read => simp [hliteral] at literal
    | reference ne_empty literal call => exact absurd (Call.mem_of_split hsplit) call
    | @call _ c' b args literal split find count length arguments =>
      obtain rfl : c = c' := by
        rw [hsplit] at split
        cases split
        rfl
      rw [Outline.ofTerm, Outline.report_call_eq_ok_iff, Outline.ofTerms_eq_map] at hvalue
      obtain ⟨vs, hvalues, hcall⟩ := hvalue
      refine ⟨b, find, vs, ⟨args, ?_, List.forall₂_map_left_iff.1 hvalues⟩, hcall⟩
      exact List.forall₂_iff_zip.2 ⟨length, arguments⟩

theorem denote_literal_eq_some_iff {v : Value}
    (hliteral : Word.beginsLiteral text.toList = true) :
    denote r s line text = some v ↔
      ∃ t, Term.Reads r text t ∧ ((Outline.ofTerm t).report s line).result = .ok v := by
  rw [denote_of_literal hliteral, toOption_eq_some_iff]
  constructor
  · intro hread
    exact ⟨.value v, .value hliteral hread, rfl⟩
  · rintro ⟨t, hreads, hvalue⟩
    cases hreads with
    | value literal read =>
      cases hvalue
      exact read
    | reference ne_empty literal call => simp [hliteral] at literal
    | call literal split find count length arguments => simp [hliteral] at literal

theorem denote_reference_eq_some_iff {v : Value}
    (hliteral : Word.beginsLiteral text.toList = false) (hcall : '(' ∉ text.toList) :
    denote r s line text = some v ↔
      ∃ t, Term.Reads r text t ∧ ((Outline.ofTerm t).report s line).result = .ok v := by
  constructor
  · intro hdenote
    have hne : text ≠ "" := by
      rintro rfl
      rw [denote_empty] at hdenote
      cases hdenote
    rw [denote_of_reference hne hliteral hcall] at hdenote
    refine ⟨.reference text, .reference hne hliteral hcall, ?_⟩
    rw [Outline.ofTerm, Outline.report, hdenote]
  · rintro ⟨t, hreads, hvalue⟩
    cases hreads with
    | value literal read => simp [hliteral] at literal
    | call literal split find count length arguments =>
      exact absurd (Call.mem_of_split split) hcall
    | reference ne_empty literal call =>
      rw [denote_of_reference ne_empty hliteral hcall]
      rw [Outline.ofTerm, Outline.report] at hvalue
      cases hfind : s.find? text with
      | none =>
        rw [hfind] at hvalue
        cases hvalue
      | some u =>
        rw [hfind] at hvalue
        cases hvalue
        rfl

end

/-- **A text denotes what the term that it reads as comes to.** -/
theorem denote_eq_some_iff (r : Registry) (s : Store) (line : Nat) (text : String) :
    ∀ v, denote r s line text = some v ↔
      ∃ t, Term.Reads r text t ∧ ((Outline.ofTerm t).report s line).result = .ok v := by
  induction text using Call.text_induction with
  | step text ih =>
    intro v
    by_cases hliteral : Word.beginsLiteral text.toList = true
    · exact denote_literal_eq_some_iff hliteral
    rw [Bool.not_eq_true] at hliteral
    by_cases hparen : '(' ∈ text.toList
    · cases hsplit : Call.split text with
      | ok c => exact denote_call_eq_some_iff hliteral hsplit (ih c hsplit)
      | error e =>
        -- a text that does not divide into a call has no denotation and reads as nothing
        rw [denote_of_split_error hliteral hparen hsplit]
        constructor
        · intro h
          cases h
        · rintro ⟨t, hreads, -⟩
          cases hreads with
          | value literal read => simp [hliteral] at literal
          | reference ne_empty literal call => exact absurd hparen call
          | call literal split find count length arguments =>
            rw [hsplit] at split
            cases split
    · exact denote_reference_eq_some_iff hliteral hparen

namespace Arena

/-- Reading into an arena succeeds exactly if the text reads as a term, with the term's arena. -/
theorem read_eq_ok_iff {r : Registry} {line : Nat} {j : Journal} {text : String} {a : Arena} :
    (read r line j text).1 = .ok a ↔ ∃ t, Term.Reads r text t ∧ ofTerm t = a := by
  have hread := Term.read_eq_ok_iff r line text j
  rw [read]
  rcases hterm : Term.read r line j text with ⟨d | t, j'⟩
  · simp only [hterm, reduceCtorEq, false_iff] at hread ⊢
    rintro ⟨t, ht, -⟩
    exact hread t ht
  · simp only [hterm, Except.ok.injEq] at hread ⊢
    constructor
    · intro ha
      exact ⟨t, (hread t).1 rfl, ha⟩
    · rintro ⟨t', ht', ha⟩
      rw [(hread t').2 ht', ha]

/-- An arena fresh from a term evaluates to what the term comes to. -/
theorem evaluate_ofTerm_eq_ok_iff {s : Store} {line : Nat} {j : Journal} {t : Term} {v : Value} :
    ((ofTerm t).evaluate s line j).1 = .ok v ↔
      ((Outline.ofTerm t).report s line).result = .ok v := by
  rw [Outline.arena_ofTerm, Outline.evaluate_arena]
  exact Outline.evaluate_eq_ok_iff

/-- **Reading a text into an arena and evaluating it comes to the text's denotation**: it succeeds
exactly if the text denotes a value, and with that value. This is so whatever has been recorded
before reading and before evaluating. -/
theorem read_evaluate_eq_ok_iff_denote (r : Registry) (s : Store) (text : String)
    (line line' : Nat) (j j' : Journal) (v : Value) :
    (∃ a, (read r line j text).1 = .ok a ∧ (a.evaluate s line' j').1 = .ok v) ↔
      denote r s line' text = some v := by
  rw [denote_eq_some_iff]
  constructor
  · rintro ⟨a, hread, hvalue⟩
    obtain ⟨t, ht, rfl⟩ := read_eq_ok_iff.1 hread
    exact ⟨t, ht, evaluate_ofTerm_eq_ok_iff.1 hvalue⟩
  · rintro ⟨t, ht, hvalue⟩
    exact ⟨ofTerm t, read_eq_ok_iff.2 ⟨t, ht, rfl⟩, evaluate_ofTerm_eq_ok_iff.2 hvalue⟩

end Arena

end MatrixScript
