import Mathlib.Data.List.Forall2
import MatrixScript.Proofs.Call
import MatrixScript.Term

/-!
# What texts read as

Reading goes by a bound on the length of the text. The bound is never met (`readWithin_eq`), so
reading satisfies an equation without it (`read_eq`): a text is read given a reader for the
arguments that it has as a call, and that reader is reading itself.

Which texts read as which terms is then a relation, `Term.Reads`, with one rule for each form of
expression. It knows neither lines nor journals: they have no say in whether a text can be read
and in what it reads as (`read_eq_ok_iff`).
-/

namespace MatrixScript

/-! ### Attempts that agree or succeed -/

theorem attemptAll_congr {σ α β : Type} {act act' : σ → α → β × σ} {xs : List α}
    (h : ∀ x ∈ xs, ∀ s, act s x = act' s x) (s : σ) :
    attemptAll act s xs = attemptAll act' s xs := by
  induction xs generalizing s with
  | nil => rfl
  | cons x xs ih =>
    simp only [attemptAll, h x (by simp), ih fun y hy ↦ h y (List.mem_cons_of_mem _ hy)]

/-- If success on an item is a matter of the item alone, all items succeed exactly if each of
them does. -/
theorem attemptAll_eq_map_ok_iff {σ α β ε : Type} {act : σ → α → Except ε β × σ}
    {R : α → β → Prop} {xs : List α} (h : ∀ x ∈ xs, ∀ s y, (act s x).1 = .ok y ↔ R x y) (s : σ)
    (ys : List β) : (attemptAll act s xs).1 = ys.map .ok ↔ List.Forall₂ R xs ys := by
  induction xs generalizing s ys with
  | nil =>
    cases ys with
    | nil => simp [attemptAll]
    | cons y ys => simp [attemptAll]
  | cons x xs ih =>
    have htail := ih fun z hz ↦ h z (List.mem_cons_of_mem _ hz)
    cases ys with
    | nil => simp [attemptAll]
    | cons y ys =>
      rw [List.forall₂_cons, ← h x (by simp) s y, ← htail (act s x).2 ys]
      simp only [attemptAll, List.map_cons, List.cons.injEq]

/-! ### The checks on the way -/

/-- The number of arguments that a builtin takes is checked and no other. -/
theorem Builtin.checkCount_eq_ok_iff {b : Builtin} {n : Nat} :
    b.checkCount n = .ok () ↔ n = b.arity := by
  rw [checkCount]
  split
  · next h => simp [h]
  · next h => simp [h]

/-- A text that can be taken apart has a parenthesis. -/
theorem Call.mem_of_split {text : String} {c : Call} (h : Call.split text = .ok c) :
    '(' ∈ text.toList := by
  obtain ⟨-, -, rfl⟩ := Call.eq_joined_of_split h
  rw [Call.toList_joined]
  simp

/-- Taking a call apart on record. -/
theorem Journal.readCall_eq_ok {j j' : Journal} {line : Nat} {text : String} {c : Call}
    (h : j.readCall line text = (.ok c, j')) : Call.split text = .ok c := by
  rw [readCall] at h
  split at h
  · next c' hc =>
    cases h
    exact hc
  · cases h

namespace Term

/-! ### Reading without a bound -/

/-- Reads the text of an expression, given a reader for arguments. -/
def readWith (r : Registry) (line : Nat)
    (readArgument : Journal → String → Except Diagnostic Term × Journal) (j : Journal)
    (text : String) : Except Diagnostic Term × Journal :=
  let cs := text.toList
  if cs = [] then (.error (missing.onLine line), j)
  else if Word.beginsLiteral cs then
    match Literal.read text with
    | .ok v => (.ok (.value v), j)
    | .error e => (.error (e.fault.onLine line), j)
  else if !cs.contains '(' then (.ok (.reference text), j)
  else
    match j.readCall line text with
    | (.error d, j) => (.error d, j)
    | (.ok c, j) =>
      match r.find? c.name with
      | none => (.error ((Fault.unknownFunction c.name).onLine line), j)
      | some b =>
        match b.checkCount c.arguments.length with
        | .error f => (.error (f.onLine line), j)
        | .ok () =>
          let (results, j) := attemptAll readArgument j c.arguments
          match j.settle results with
          | (.error d, j) => (.error d, j)
          | (.ok args, j) => (.ok (.call b args), j)

theorem readWithin_succ (r : Registry) (line bound : Nat) (j : Journal) (text : String) :
    readWithin r line (bound + 1) j text = readWith r line (readWithin r line bound) j text :=
  rfl

/-- Readers that agree on the arguments of a text read the text alike. -/
theorem readWith_congr {r : Registry} {line : Nat}
    {f g : Journal → String → Except Diagnostic Term × Journal} {text : String}
    (h : ∀ c, Call.split text = .ok c → ∀ a ∈ c.arguments, ∀ j, f j a = g j a) (j : Journal) :
    readWith r line f j text = readWith r line g j text := by
  simp only [readWith]
  rcases hcall : j.readCall line text with ⟨d | c, j'⟩
  · rfl
  · have hargs := attemptAll_congr (h c (Journal.readCall_eq_ok hcall))
    simp only [hargs]

/-- **A bound that is at least the length of a text does not matter.** -/
theorem readWithin_eq (r : Registry) (line : Nat) (text : String) :
    ∀ {bound bound' : Nat}, text.length ≤ bound → text.length ≤ bound' → ∀ j,
      readWithin r line bound j text = readWithin r line bound' j text := by
  induction text using Call.text_induction with
  | step text ih =>
    intro bound bound' hb hb' j
    by_cases hempty : text = ""
    · subst hempty
      have hmissing : ∀ b, readWithin r line b j "" = (.error (missing.onLine line), j) := by
        intro b
        cases b <;> rfl
      rw [hmissing, hmissing]
    · have hpos : 0 < text.length := by
        rw [← String.length_toList, List.length_pos_iff]
        intro h
        exact hempty (String.toList_inj.1 h)
      obtain ⟨k, rfl⟩ : ∃ k, bound = k + 1 := ⟨bound - 1, by omega⟩
      obtain ⟨k', rfl⟩ : ∃ k, bound' = k + 1 := ⟨bound' - 1, by omega⟩
      rw [readWithin_succ, readWithin_succ]
      -- an argument is shorter than the text, so what is left of either bound will do for it
      refine readWith_congr (fun c hc a ha j ↦ ?_) j
      have hlt := Call.length_lt_of_split hc ha
      exact ih c hc a ha (by omega) (by omega) j

/-- **Reading without a bound**: a text is read with reading as the reader for its arguments. -/
theorem read_eq (r : Registry) (line : Nat) (j : Journal) (text : String) :
    read r line j text = readWith r line (read r line) j text := by
  have hbound : read r line j text = readWithin r line (text.length + 1) j text :=
    readWithin_eq r line text (Nat.le_refl _) (Nat.le_succ _) j
  rw [hbound, readWithin_succ]
  refine readWith_congr (fun c hc a ha j ↦ ?_) j
  exact readWithin_eq r line a (Nat.le_of_lt (Call.length_lt_of_split hc ha)) (Nat.le_refl _) j

/-! ### The relation between texts and terms -/

/-- Which texts read as which terms. -/
inductive Reads (r : Registry) : String → Term → Prop
  /-- A text that starts like a literal reads as the literal's value. -/
  | value {text : String} {v : Value} (literal : Word.beginsLiteral text.toList = true)
    (read : Literal.read text = .ok v) : Reads r text (.value v)
  /-- Any other text without a parenthesis is a variable. -/
  | reference {text : String} (ne_empty : text ≠ "")
    (literal : Word.beginsLiteral text.toList = false) (call : '(' ∉ text.toList) :
    Reads r text (.reference text)
  /-- A call reads as a call if it names a builtin and has the right number of arguments, each of
  which reads as something itself. -/
  | call {text : String} {c : Call} {b : Builtin} {args : List Term}
    (literal : Word.beginsLiteral text.toList = false) (split : Call.split text = .ok c)
    (find : r.find? c.name = some b) (count : c.arguments.length = b.arity)
    (length : c.arguments.length = args.length)
    (arguments : ∀ {a t}, (a, t) ∈ c.arguments.zip args → Reads r a t) :
    Reads r text (.call b args)

theorem Reads.ne_empty {r : Registry} {text : String} {t : Term} (h : Reads r text t) :
    text ≠ "" := by
  cases h with
  | value literal read =>
    rintro rfl
    cases literal
  | reference ne_empty literal call => exact ne_empty
  | call literal split find count length arguments =>
    rintro rfl
    cases split

/-- What a call reads as, given what the attempts at its arguments come to. -/
theorem readWith_call_eq_ok_iff {r : Registry} {line : Nat}
    {f : Journal → String → Except Diagnostic Term × Journal} {j : Journal} {text : String}
    {c : Call} {t : Term} (hliteral : Word.beginsLiteral text.toList = false)
    (hsplit : Call.split text = .ok c) :
    (readWith r line f j text).1 = .ok t ↔
      ∃ b args, r.find? c.name = some b ∧ c.arguments.length = b.arity ∧
        (attemptAll f (j.note (.divided text c)) c.arguments).1 = args.map .ok ∧
        t = .call b args := by
  have hparen := Call.mem_of_split hsplit
  have hne : text.toList ≠ [] := List.ne_nil_of_mem hparen
  have hcall : j.readCall line text = (.ok c, j.note (.divided text c)) := by
    rw [Journal.readCall, hsplit]
  simp only [readWith, hne, hliteral, hcall, List.contains_eq_mem, hparen, decide_true,
    Bool.not_true, Bool.false_eq_true, if_false]
  cases hfind : r.find? c.name with
  | none => simp
  | some b =>
    simp only [Option.some.injEq]
    cases hcount : b.checkCount c.arguments.length with
    | error e =>
      have hlength : c.arguments.length ≠ b.arity := fun h ↦ by
        rw [Builtin.checkCount_eq_ok_iff.2 h] at hcount
        cases hcount
      simp only [reduceCtorEq, false_iff, not_exists, not_and]
      rintro b' args rfl hlength'
      exact absurd hlength' hlength
    | ok =>
      have hlength : c.arguments.length = b.arity := Builtin.checkCount_eq_ok_iff.1 hcount
      rcases hall : attemptAll f (j.note (.divided text c)) c.arguments with ⟨results, j'⟩
      simp only [Journal.settle]
      cases hverdict : verdict results with
      | error e =>
        simp only [reduceCtorEq, false_iff, not_exists, not_and]
        rintro b' args rfl - hresults
        rw [verdict_eq_ok_iff.2 hresults] at hverdict
        cases hverdict
      | ok args =>
        have hresults := verdict_eq_ok_iff.1 hverdict
        constructor
        · rintro h
          cases h
          exact ⟨b, args, rfl, hlength, hresults, rfl⟩
        · rintro ⟨b', args', rfl, -, hresults', rfl⟩
          rw [verdict_eq_ok_iff.2 hresults'] at hverdict
          cases hverdict
          rfl

/-- **Reading succeeds exactly as the relation says**, on every line and with every journal. -/
theorem read_eq_ok_iff (r : Registry) (line : Nat) (text : String) :
    ∀ j t, (read r line j text).1 = .ok t ↔ Reads r text t := by
  induction text using Call.text_induction with
  | step text ih =>
    intro j t
    rw [read_eq]
    constructor
    · intro h
      by_cases hne : text = ""
      · subst hne
        cases h
      have hnil : text.toList ≠ [] := fun h ↦ hne (String.toList_inj.1 h)
      by_cases hliteral : Word.beginsLiteral text.toList = true
      · simp only [readWith, hnil, hliteral, if_true, if_false] at h
        cases hv : Literal.read text with
        | error e =>
          rw [hv] at h
          cases h
        | ok v =>
          rw [hv] at h
          cases h
          exact .value hliteral hv
      rw [Bool.not_eq_true] at hliteral
      by_cases hparen : '(' ∈ text.toList
      · cases hsplit : Call.split text with
        | error e =>
          simp [readWith, hnil, hliteral, hparen, Journal.readCall, hsplit] at h
        | ok c =>
          obtain ⟨b, args, hfind, hcount, hresults, rfl⟩ :=
            (readWith_call_eq_ok_iff hliteral hsplit).1 h
          rw [attemptAll_eq_map_ok_iff (ih c hsplit), List.forall₂_iff_zip] at hresults
          exact .call hliteral hsplit hfind hcount hresults.1 hresults.2
      · simp only [readWith, hnil, hliteral, List.contains_eq_mem, hparen, decide_false,
          Bool.not_false, Bool.false_eq_true, if_true, if_false] at h
        cases h
        exact .reference hne hliteral hparen
    · intro h
      have hnil : text.toList ≠ [] := fun hnil ↦ h.ne_empty (String.toList_inj.1 hnil)
      cases h with
      | value literal read => simp only [readWith, hnil, literal, read, if_true, if_false]
      | reference ne_empty literal call => simp [readWith, hnil, literal, call]
      | call literal split find count length arguments =>
        refine (readWith_call_eq_ok_iff literal split).2 ⟨_, _, find, count, ?_, rfl⟩
        rw [attemptAll_eq_map_ok_iff (ih _ split), List.forall₂_iff_zip]
        exact ⟨length, arguments⟩

end Term

end MatrixScript
