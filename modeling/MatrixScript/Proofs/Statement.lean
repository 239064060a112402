import Mathlib.Logic.ExistsUnique
import MatrixScript.Proofs.Words
import MatrixScript.Statement

/-!
# Statements as lines

A statement has words (`Statement.toWords`), and words are recognised as a statement exactly if they
are its words and its target can be told from them (`Statement.ofWords_eq_ok_iff`): a declaration
has a name that can be declared, and a reassignment is not of `OUT`, which would be taken for
printing.

Together with what is known of lines and words, this says which lines are statements
(`Statement.ofWords_words_iff_written`): those that are written from the words of one, with blanks
at will.
-/

namespace MatrixScript

namespace Word

/-! ### Words that are names -/

/-- The form of a name: a letter or an underscore, then letters, digits and underscores. The letters
and digits are those of ASCII. -/
def Identifier (name : String) : Prop :=
  ∃ c cs, name.toList = c :: cs ∧ (c.isAlpha = true ∨ c = '_') ∧
    ∀ d ∈ cs, d.isAlphanum = true ∨ d = '_'

theorem isName_iff_identifier {name : String} : isName name = true ↔ Identifier name := by
  rw [isName, Identifier]
  rcases name.toList with _ | ⟨c, cs⟩
  · simp
  · simp only [startsName, continuesName, Bool.and_eq_true, List.all_eq_true, Bool.or_eq_true,
      beq_iff_eq, List.cons.injEq]
    constructor
    · intro h
      exact ⟨c, cs, ⟨rfl, rfl⟩, h⟩
    · rintro ⟨_, _, ⟨rfl, rfl⟩, h⟩
      exact h

theorem Identifier.isWord {name : String} (h : Identifier name) : IsWord name := by
  obtain ⟨c, cs, hname, hfirst, hrest⟩ := h
  refine ⟨?_, ?_⟩
  · rintro rfl
    cases hname
  · rw [hname, List.mem_cons, not_or]
    refine ⟨?_, fun hmem ↦ absurd (hrest ' ' hmem) (by decide)⟩
    rintro rfl
    exact absurd hfirst (by decide)

theorem ne_empty_of_isName {name : String} (h : isName name = true) : name ≠ "" :=
  (isName_iff_identifier.1 h).isWord.ne_empty

/-! ### Words that declare -/

/-- The word that declares a kind. -/
def keyword : Kind → String
  | .matrix => "MAT"
  | .scalar => "NUM"

theorem kind?_eq_some_iff {word : String} {kind : Kind} :
    kind? word = some kind ↔ word = keyword kind := by
  rcases kind with _ | _ <;> by_cases hmatrix : word = "MAT" <;> simp [kind?, keyword, hmatrix]

theorem isWord_keyword (kind : Kind) : IsWord (keyword kind) := by
  rcases kind with _ | _
  · exact ⟨by decide, by decide⟩
  · exact ⟨by decide, by decide⟩

end Word

theorem Registry.contains_iff_mem_names {r : Registry} {name : String} :
    r.contains name = true ↔ name ∈ r.names := by
  simp only [contains, names, List.any_eq_true, List.mem_map, decide_eq_true_eq]

/-- A target that can be told from its words: the name of a declaration can be declared, and that of
a reassignment is not the word that prints. -/
def Target.Admitted (r : Registry) : Target → Prop
  | .declare _ name => Statement.checkName r name = .ok ()
  | .assign name => name ≠ "OUT"
  | .output => True

namespace Statement

/-- A name can be declared if it can be a name and is not reserved. -/
theorem checkName_eq_ok_iff {r : Registry} {name : String} :
    checkName r name = .ok () ↔
      Word.isName name = true ∧ name ∉ Word.keywords ∧ name ∉ r.names := by
  rw [checkName, ← Registry.contains_iff_mem_names, ← List.contains_iff_mem]
  rcases Word.isName name with _ | _
  · simp
  · rcases Word.keywords.contains name with _ | _ <;> rcases r.contains name with _ | _ <;> simp

/-! ### The words of a statement -/

/-- The words of a statement. -/
def toWords : Statement → List String
  | ⟨.declare kind name, expression⟩ => [Word.keyword kind, name, "=", expression]
  | ⟨.assign name, expression⟩ => [name, "=", expression]
  | ⟨.output, expression⟩ => ["OUT", "=", expression]

theorem declaration_eq_ok_iff {r : Registry} {keyword name expression : String}
    {statement : Statement} :
    declaration r keyword name expression = .ok statement ↔
      ∃ kind, keyword = Word.keyword kind ∧ checkName r name = .ok () ∧
        statement = ⟨.declare kind name, expression⟩ := by
  simp only [← Word.kind?_eq_some_iff]
  rw [declaration]
  rcases Word.kind? keyword with _ | kind
  · simp
  · rcases checkName r name with e | ⟨⟩
    · simp [bind, Except.bind]
    · simp [bind, Except.bind, pure, Except.pure, eq_comm]

/-- **Words are recognised as the statement whose words they are.** -/
theorem ofWords_eq_ok_iff {r : Registry} {ws : List String} {statement : Statement} :
    ofWords r ws = .ok statement ↔ ws = statement.toWords ∧ statement.target.Admitted r := by
  constructor
  · intro h
    unfold ofWords at h
    split at h
    · next name expression =>
      obtain rfl := Except.ok.inj h
      by_cases hout : name = "OUT"
      · subst hout
        exact ⟨rfl, trivial⟩
      · rw [if_neg hout]
        exact ⟨rfl, hout⟩
    · obtain ⟨kind, rfl, hname, rfl⟩ := declaration_eq_ok_iff.1 h
      exact ⟨rfl, hname⟩
    · cases h
  · rintro ⟨rfl, hadmitted⟩
    obtain ⟨⟨kind, name⟩ | name | _, expression⟩ := statement
    · rw [toWords, ofWords]
      exact declaration_eq_ok_iff.2 ⟨kind, rfl, hadmitted, rfl⟩
    · show Except.ok _ = _
      rw [if_neg hadmitted]
    · rfl

/-- The expression of a statement is one of its words. -/
theorem expression_mem_toWords (statement : Statement) :
    statement.expression ∈ statement.toWords := by
  obtain ⟨⟨kind, name⟩ | name | _, expression⟩ := statement <;> simp [toWords]

end Statement

/-! ### Written statements -/

/-- A target that can be written: the name of a declaration is an identifier that is neither a
keyword nor the name of a builtin, and that of a reassignment is any word but `OUT`. -/
def Target.Writable (r : Registry) : Target → Prop
  | .declare _ name => Word.Identifier name ∧ name ∉ ["MAT", "NUM", "OUT"] ∧ name ∉ r.names
  | .assign name => Word.IsWord name ∧ name ≠ "OUT"
  | .output => True

namespace Statement

/-- A statement that can be written: its target can be, and its expression is a word. -/
structure Writable (r : Registry) (statement : Statement) : Prop where
  target : statement.target.Writable r
  expression : Word.IsWord statement.expression

/-- What can be written are the statements whose target is admitted and whose words are words. -/
theorem writable_iff {r : Registry} {statement : Statement} :
    statement.Writable r ↔
      statement.target.Admitted r ∧ ∀ w ∈ statement.toWords, Word.IsWord w := by
  have hequals : Word.IsWord "=" := ⟨by decide, by decide⟩
  have hout : Word.IsWord "OUT" := ⟨by decide, by decide⟩
  obtain ⟨⟨kind, name⟩ | name | _, expression⟩ := statement
  · simp only [toWords, List.forall_mem_cons, Target.Admitted, checkName_eq_ok_iff,
      Word.isName_iff_identifier]
    constructor
    · rintro ⟨hname, hexpression⟩
      exact ⟨hname, Word.isWord_keyword kind, hname.1.isWord, hequals, hexpression,
        List.forall_mem_nil _⟩
    · rintro ⟨hname, -, -, -, hexpression, -⟩
      exact ⟨hname, hexpression⟩
  · simp only [toWords, List.forall_mem_cons, Target.Admitted]
    constructor
    · rintro ⟨⟨hname, hne⟩, hexpression⟩
      exact ⟨hne, hname, hequals, hexpression, List.forall_mem_nil _⟩
    · rintro ⟨hne, hname, -, hexpression, -⟩
      exact ⟨⟨hname, hne⟩, hexpression⟩
  · simp only [toWords, List.forall_mem_cons, Target.Admitted]
    constructor
    · rintro ⟨-, hexpression⟩
      exact ⟨trivial, hout, hequals, hexpression, List.forall_mem_nil _⟩
    · rintro ⟨-, -, -, hexpression, -⟩
      exact ⟨trivial, hexpression⟩

/-- **A line is recognised as the statement that it is written from.** -/
theorem ofWords_words_eq_ok_iff {r : Registry} {line : String} {statement : Statement} :
    ofWords r (words line) = .ok statement ↔
      statement.Writable r ∧ ∃ spacing : Spacing, line = spacing.write statement.toWords := by
  rw [ofWords_eq_ok_iff, words_eq_iff, writable_iff]
  exact ⟨fun ⟨⟨hwords, hline⟩, hadmitted⟩ ↦ ⟨⟨hadmitted, hwords⟩, hline⟩,
    fun ⟨⟨hadmitted, hwords⟩, hline⟩ ↦ ⟨⟨hwords, hline⟩, hadmitted⟩⟩

/-- With one blank between any two words, a statement is recognised. -/
theorem ofWords_words_intercalate {r : Registry} {statement : Statement}
    (h : statement.Writable r) :
    ofWords r (words (" ".intercalate statement.toWords)) = .ok statement :=
  ofWords_words_eq_ok_iff.2 ⟨h, .single, (Spacing.write_single _).symm⟩

/-- **Statements and lines.** A line is recognised as a statement exactly if the statement can be
written and the line is its words with blanks at will: any number at both ends and at least one
between two words. And no line that is recognised is written from two statements. -/
theorem ofWords_words_iff_written (r : Registry) (line : String) :
    (∀ statement, ofWords r (words line) = .ok statement ↔
      statement.Writable r ∧ ∃ spacing : Spacing, line = spacing.write statement.toWords) ∧
    ((∃ statement, ofWords r (words line) = .ok statement) ↔
      ∃! statement : Statement,
        statement.Writable r ∧ ∃ spacing : Spacing, line = spacing.write statement.toWords) := by
  refine ⟨fun statement ↦ ofWords_words_eq_ok_iff, ?_⟩
  simp only [← ofWords_words_eq_ok_iff]
  constructor
  · rintro ⟨statement, h⟩
    exact ⟨statement, h, fun other hother ↦ Except.ok.inj (hother.symm.trans h)⟩
  · rintro ⟨statement, h, -⟩
    exact ⟨statement, h⟩

example : ofWords .empty (words "  NUM   x   =   5  ") = .ok ⟨.declare .scalar "x", "5"⟩ :=
  rfl

end Statement

end MatrixScript
