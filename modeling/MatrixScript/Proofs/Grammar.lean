import MatrixScript.Builtin.Standard
import MatrixScript.Proofs.Denotation

/-!
# The grammar of expressions

Expressions as trees of texts, and how they are written. A tree is well-formed if its literals are
literals, its variables cannot be taken for anything else, its calls name builtins with the right
number of arguments, and every argument can be found again in the text of its call.

The main statement is that reading knows exactly this grammar (`Arena.read_eq_ok_iff_existsUnique`):
a text can be read if and only if it is the written form of a well-formed tree, there is only one
such tree, and the arena, followed down from its root (`Arena.term?`), is the tree with its literals
read.

Two facts about the first character and the first parenthesis keep the three forms apart
(`WellFormed.beginsLiteral_call`, `WellFormed.split_call`); the rest is induction on trees.
-/

namespace MatrixScript

/-- An expression as a tree of texts. -/
inductive Expression
  /-- A literal by its text. -/
  | literal (text : String)
  /-- A variable. -/
  | reference (name : String)
  /-- A call. -/
  | call (name : String) (arguments : List Expression)

namespace Expression

mutual

/-- The written form of an expression. -/
def print : Expression → String
  | literal text => text
  | reference name => name
  | call name args => Call.joined name (printAll args)

/-- The written forms of expressions. -/
def printAll : List Expression → List String
  | [] => []
  | e :: es => e.print :: printAll es

end

theorem printAll_eq_map (es : List Expression) : printAll es = es.map print := by
  induction es with
  | nil => rfl
  | cons e es ih => rw [printAll, ih, List.map_cons]

mutual

/-- The term of an expression: its literals are read and its calls have their builtins. -/
def toTerm? (r : Registry) : Expression → Option Term
  | literal text => (Literal.read text).toOption.map .value
  | reference name => some (.reference name)
  | call name args => (r.find? name).bind fun b ↦ (toTerms? r args).map (.call b)

/-- The terms of expressions. -/
def toTerms? (r : Registry) : List Expression → Option (List Term)
  | [] => some []
  | e :: es => (e.toTerm? r).bind fun t ↦ (toTerms? r es).map (t :: ·)

end

theorem toTerms?_eq_some_iff {r : Registry} {es : List Expression} {ts : List Term} :
    toTerms? r es = some ts ↔ List.Forall₂ (fun e t ↦ e.toTerm? r = some t) es ts := by
  induction es generalizing ts with
  | nil => simp [toTerms?, eq_comm]
  | cons e es ih =>
    rw [toTerms?, List.forall₂_cons_left_iff]
    simp only [Option.bind_eq_some_iff, Option.map_eq_some_iff, ih]
    constructor
    · rintro ⟨t, ht, us, hus, rfl⟩
      exact ⟨t, us, ht, hus, rfl⟩
    · rintro ⟨t, us, ht, hus, rfl⟩
      exact ⟨t, ht, us, hus, rfl⟩

/-- The trees of the language. -/
inductive WellFormed (r : Registry) : Expression → Prop
  /-- A literal starts like one and can be read. -/
  | literal {text : String} {v : Value} (starts : Word.beginsLiteral text.toList = true)
    (read : Literal.read text = .ok v) : WellFormed r (.literal text)
  /-- A variable is any text that does not start like a literal and has no parenthesis. -/
  | reference {name : String} (ne_empty : name ≠ "")
    (starts : Word.beginsLiteral name.toList = false) (call : '(' ∉ name.toList) :
    WellFormed r (.reference name)
  /-- A call names a builtin and has as many arguments as it takes. Each argument is a tree of the
  language whose text has balanced brackets and no comma outside them. -/
  | call {name : String} {b : Builtin} {args : List Expression} (find : r.find? name = some b)
    (count : args.length = b.arity) (arguments : ∀ e ∈ args, WellFormed r e)
    (closes : ∀ e ∈ args, Call.Closes 0 e.print.toList) : WellFormed r (.call name args)

/-! ### The three forms apart -/

end Expression

theorem Word.le_of_isAlpha {c : Char} (h : c.isAlpha = true) : 'A' ≤ c := by
  rcases Bool.or_eq_true_iff.1 h with hupper | hlower
  · have hbounds : 'A' ≤ c ∧ c ≤ 'Z' := of_decide_eq_true hupper
    exact hbounds.1
  · have hbounds : (decide ('a' ≤ c) && decide (c ≤ 'z')) = true := hlower
    exact Char.le_trans (by decide) (of_decide_eq_true (Bool.and_eq_true_iff.1 hbounds).1)

theorem Word.startsLiteral_of_startsName {c : Char} (h : startsName c = true) :
    startsLiteral c = false := by
  rw [Bool.eq_false_iff]
  intro hliteral
  simp only [startsLiteral, startsName, Bool.or_eq_true, beq_iff_eq] at h hliteral
  obtain halpha | rfl := h
  · obtain (rfl | rfl) | hdigit := hliteral
    · cases halpha
    · cases halpha
    · -- digits come before letters
      have hbounds : (decide ('0' ≤ c) && decide (c ≤ '9')) = true := hdigit
      have hnine : c ≤ '9' := of_decide_eq_true (Bool.and_eq_true_iff.1 hbounds).2
      exact absurd (Char.le_trans (le_of_isAlpha halpha) hnine) (by decide)
  · exact absurd hliteral (by decide)

/-- A text that starts with a name does not start like a literal. -/
theorem Word.beginsLiteral_of_isName {name : String} (h : isName name = true) (cs : List Char) :
    beginsLiteral (name.toList ++ cs) = false := by
  rw [isName] at h
  cases hname : name.toList with
  | nil =>
    rw [hname] at h
    cases h
  | cons c rest =>
    rw [hname, Bool.and_eq_true] at h
    exact startsLiteral_of_startsName h.1

/-- A name has no parenthesis. -/
theorem Word.not_mem_of_isName {name : String} (h : isName name = true) : '(' ∉ name.toList := by
  intro hmem
  rw [isName] at h
  cases hname : name.toList with
  | nil =>
    rw [hname] at h
    cases h
  | cons c rest =>
    rw [hname] at h hmem
    rw [Bool.and_eq_true, List.all_eq_true] at h
    rcases List.mem_cons.1 hmem with rfl | hrest
    · exact absurd h.1 (by decide)
    · exact absurd (h.2 _ hrest) (by decide)

theorem Registry.mem_names_of_find? {r : Registry} {name : String} {b : Builtin}
    (h : r.find? name = some b) : name ∈ r.names := by
  have hname : b.name = name := by simpa using List.find?_some h
  rw [← hname]
  exact List.mem_map_of_mem (List.mem_of_find?_eq_some h)

namespace Expression.WellFormed

variable {r : Registry}

theorem print_ne_empty {e : Expression} (h : WellFormed r e) : e.print ≠ "" := by
  cases h with
  | literal starts read =>
    rintro hprint
    rw [print] at hprint
    subst hprint
    cases starts
  | reference ne_empty starts call => exact ne_empty
  | call find count arguments closes =>
    intro hprint
    have hlist := congrArg String.toList hprint
    rw [print, Call.toList_joined] at hlist
    simp at hlist

/-- A call does not start like a literal. -/
theorem beginsLiteral_call (hr : ∀ name ∈ r.names, Word.isName name = true) {name : String}
    {args : List Expression} (h : WellFormed r (.call name args)) :
    Word.beginsLiteral (Expression.call name args).print.toList = false := by
  cases h with
  | call find count arguments closes =>
    rw [print, Call.toList_joined]
    exact Word.beginsLiteral_of_isName (hr name (Registry.mem_names_of_find? find)) _

/-- A call is taken apart into its name and the written forms of its arguments. -/
theorem split_call (hr : ∀ name ∈ r.names, Word.isName name = true) {name : String}
    {args : List Expression} (h : WellFormed r (.call name args)) :
    Call.split (Expression.call name args).print = .ok ⟨name, args.map print⟩ := by
  cases h with
  | call find count arguments closes =>
    have hname := hr name (Registry.mem_names_of_find? find)
    rw [print, printAll_eq_map]
    refine Call.split_joined (Word.not_mem_of_isName hname) fun a ha ↦ ?_
    obtain ⟨e, he, rfl⟩ := List.mem_map.1 ha
    exact ⟨(arguments e he).print_ne_empty, closes e he⟩

/-! ### One tree for a text -/

theorem map_print_inj {es es' : List Expression} (hes' : ∀ e ∈ es', WellFormed r e)
    (ih : ∀ e ∈ es, ∀ e', WellFormed r e' → e.print = e'.print → e = e')
    (h : es.map print = es'.map print) : es = es' := by
  induction es generalizing es' with
  | nil => exact (List.map_eq_nil_iff.1 h.symm).symm
  | cons e es ihes =>
    cases es' with
    | nil => cases h
    | cons e' es' =>
      rw [List.map_cons, List.map_cons, List.cons.injEq] at h
      rw [ih e (by simp) e' (hes' e' (by simp)) h.1,
        ihes (fun x hx ↦ hes' x (List.mem_cons_of_mem _ hx))
          (fun x hx ↦ ih x (List.mem_cons_of_mem _ hx)) h.2]

/-- **No two trees of the language are written alike.** -/
theorem eq_of_print_eq (hr : ∀ name ∈ r.names, Word.isName name = true) {e : Expression}
    (h : WellFormed r e) : ∀ e', WellFormed r e' → e.print = e'.print → e = e' := by
  -- trees of two forms differ in the first character or in having a parenthesis
  induction h with
  | @literal text v starts read =>
    intro e' h' hprint
    rw [print] at hprint
    cases h' with
    | literal starts' read' => rw [hprint, print]
    | reference ne_empty' starts' call' =>
      rw [hprint, print, starts'] at starts
      cases starts
    | call find' count' arguments' closes' =>
      have hstarts := beginsLiteral_call hr (.call find' count' arguments' closes')
      rw [← hprint, starts] at hstarts
      cases hstarts
  | @reference name ne_empty starts call =>
    intro e' h' hprint
    rw [print] at hprint
    cases h' with
    | literal starts' read' =>
      rw [hprint, print, starts'] at starts
      cases starts
    | reference ne_empty' starts' call' => rw [hprint, print]
    | call find' count' arguments' closes' =>
      have hsplit := split_call hr (.call find' count' arguments' closes')
      rw [← hprint] at hsplit
      exact absurd (Call.mem_of_split hsplit) call
  | @call name b args find count arguments closes ih =>
    intro e' h' hprint
    have hstarts := beginsLiteral_call hr (.call find count arguments closes)
    have hsplit := split_call hr (.call find count arguments closes)
    rw [hprint] at hstarts hsplit
    cases h' with
    | literal starts' read' =>
      rw [print, starts'] at hstarts
      cases hstarts
    | reference ne_empty' starts' call' => exact absurd (Call.mem_of_split hsplit) call'
    | call find' count' arguments' closes' =>
      rw [split_call hr (.call find' count' arguments' closes')] at hsplit
      obtain ⟨rfl, hargs⟩ := Call.mk.inj (Except.ok.inj hsplit)
      rw [map_print_inj arguments' ih hargs.symm]

/-! ### Reading written forms -/

/-- **What is written can be read.** -/
theorem exists_reads (hr : ∀ name ∈ r.names, Word.isName name = true) {e : Expression}
    (h : WellFormed r e) : ∃ t, Term.Reads r e.print t := by
  induction h with
  | @literal text v starts read => exact ⟨.value v, .value starts read⟩
  | @reference name ne_empty starts call => exact ⟨.reference name, .reference ne_empty starts call⟩
  | @call name b args find count arguments closes ih =>
    have hstarts := beginsLiteral_call hr (.call find count arguments closes)
    have hsplit := split_call hr (.call find count arguments closes)
    obtain ⟨ts, hts⟩ := exists_forall₂ ih
    have hreads : List.Forall₂ (Term.Reads r) (args.map print) ts :=
      List.forall₂_map_left_iff.2 hts
    obtain ⟨hlength, hzip⟩ := List.forall₂_iff_zip.1 hreads
    exact ⟨.call b ts, .call hstarts hsplit find (by rwa [List.length_map]) hlength hzip⟩

theorem map_print_of_forall₂ {texts : List String} {es : List Expression}
    (h : List.Forall₂ (fun a e ↦ WellFormed r e ∧ e.print = a) texts es) :
    (∀ e ∈ es, WellFormed r e) ∧ es.map print = texts := by
  induction h with
  | nil => exact ⟨fun e he ↦ absurd he List.not_mem_nil, rfl⟩
  | cons hhead _ ih =>
    refine ⟨fun e he ↦ ?_, by rw [List.map_cons, hhead.2, ih.2]⟩
    rcases List.mem_cons.1 he with rfl | he
    · exact hhead.1
    · exact ih.1 e he

/-- **What can be read is written**: it is the text of a tree of the language, and is read as that
tree's term. -/
theorem exists_of_reads {text : String} {t : Term} (h : Term.Reads r text t) :
    ∃ e, (WellFormed r e ∧ e.print = text) ∧ e.toTerm? r = some t := by
  induction h with
  | @value text v literal read =>
    exact ⟨.literal text, ⟨.literal literal read, rfl⟩, by rw [toTerm?, read]; rfl⟩
  | @reference text ne_empty literal call =>
    exact ⟨.reference text, ⟨.reference ne_empty literal call, rfl⟩, rfl⟩
  | @call text c b args literal split find count length arguments ih =>
    have hall : List.Forall₂ (fun a t ↦ ∃ e, (WellFormed r e ∧ e.print = a) ∧
        e.toTerm? r = some t) c.arguments args :=
      List.forall₂_iff_zip.2 ⟨length, ih⟩
    -- the trees of the arguments, between their texts and their terms
    obtain ⟨es, hes, hts⟩ := forall₂_exists_iff.1 hall
    obtain ⟨hwell, hprint⟩ := map_print_of_forall₂ hes
    obtain ⟨-, harguments, htext⟩ := Call.eq_joined_of_split split
    refine ⟨.call c.name es, ⟨.call find ?_ hwell ?_, ?_⟩, ?_⟩
    · rw [← count, hes.length_eq]
    · intro e he
      have hmem : e.print ∈ c.arguments := by
        rw [← hprint]
        exact List.mem_map_of_mem he
      exact (harguments e.print hmem).closes
    · rw [print, printAll_eq_map, hprint, ← htext]
    · rw [toTerm?, find, toTerms?_eq_some_iff.2 hts]
      rfl

end Expression.WellFormed

/-! ### Reading knows the grammar -/

/-- **The texts that can be read are the written forms of the grammar**, each of exactly one tree,
and the arena of a written form stands for its tree with the literals read. The registered names
have to be names: a builtin by the name of a number could never be called. -/
theorem Arena.read_eq_ok_iff_existsUnique (r : Registry)
    (hr : ∀ name ∈ r.names, Word.isName name = true) (line : Nat) (j : Journal) :
    (∀ text, (∃ a, (read r line j text).1 = .ok a) ↔
      ∃! e : Expression, e.WellFormed r ∧ e.print = text) ∧
    ∀ e : Expression, e.WellFormed r →
      ∃ a t, (read r line j e.print).1 = .ok a ∧ a.term? = some t ∧ e.toTerm? r = some t := by
  constructor
  · intro text
    constructor
    · rintro ⟨a, ha⟩
      obtain ⟨t, ht, -⟩ := read_eq_ok_iff.1 ha
      obtain ⟨e, ⟨hwell, hprint⟩, -⟩ := Expression.WellFormed.exists_of_reads ht
      refine ⟨e, ⟨hwell, hprint⟩, ?_⟩
      rintro e' ⟨hwell', hprint'⟩
      exact hwell'.eq_of_print_eq hr e hwell (hprint'.trans hprint.symm)
    · rintro ⟨e, ⟨hwell, rfl⟩, -⟩
      obtain ⟨t, ht⟩ := hwell.exists_reads hr
      exact ⟨ofTerm t, read_eq_ok_iff.2 ⟨t, ht, rfl⟩⟩
  · intro e hwell
    obtain ⟨t, ht⟩ := hwell.exists_reads hr
    obtain ⟨e', ⟨hwell', hprint⟩, hterm⟩ := Expression.WellFormed.exists_of_reads ht
    have he : e' = e := hwell'.eq_of_print_eq hr e hwell hprint
    rw [he] at hterm
    exact ⟨ofTerm t, t, read_eq_ok_iff.2 ⟨t, ht, rfl⟩, Outline.term?_ofTerm t, hterm⟩

/-- The standard names are names, so a nested call of theirs has its one tree. -/
theorem Arena.existsUnique_standard :
    (∀ name ∈ Registry.standard.names, Word.isName name = true) ∧
      ∃! e : Expression, e.WellFormed .standard ∧ e.print = "MAT_ADD([1,2;3,4],SCAL_MUL(x,m))" := by
  have hnames : ∀ name ∈ Registry.standard.names, Word.isName name = true := by decide
  have hread : ∃ a, (read .standard 1 {} "MAT_ADD([1,2;3,4],SCAL_MUL(x,m))").1 = .ok a :=
    ⟨_, rfl⟩
  exact ⟨hnames, ((read_eq_ok_iff_existsUnique .standard hnames 1 {}).1 _).1 hread⟩

end MatrixScript
