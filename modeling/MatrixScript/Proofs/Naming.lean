import MatrixScript.Proofs.Argument
import MatrixScript.Proofs.Names

/-!
# Naming a part of an expression

If an expression is declared as a variable, the variable can take its place wherever the expression
stands in a larger one, and nothing changes: what the larger expression comes to, and whether it
comes to anything (`Session.evaluate_fill_named`).

Where it stands is said by a context, a tree of texts with holes (`Context`). A text in the holes
can be found again if it can be an argument (`Context.WellFormed.isArgument_fill`), so contexts
denote by induction on the tree (`Context.WellFormed.denote_fill`): the two sides differ in the
holes, in one variable that the context does not mention, and in the line, which steady builtins do
not see.
-/

namespace MatrixScript

/-! ### Contexts -/

/-- An expression with holes. -/
inductive Context
  /-- A place that is left open. -/
  | hole
  /-- A literal by its text. -/
  | literal (text : String)
  /-- A variable. -/
  | reference (name : String)
  /-- A call. -/
  | call (name : String) (arguments : List Context)

namespace Context

mutual

/-- The written form of a context with a text in all its holes. -/
def fill (text : String) : Context → String
  | hole => text
  | literal text => text
  | reference name => name
  | call name args => Call.joined name (fillAll text args)

/-- The written forms of contexts with a text in all their holes. -/
def fillAll (text : String) : List Context → List String
  | [] => []
  | c :: cs => c.fill text :: fillAll text cs

end

theorem fillAll_eq_map (text : String) (cs : List Context) :
    fillAll text cs = cs.map (fill text) := by
  induction cs with
  | nil => rfl
  | cons c cs ih => rw [fillAll, ih, List.map_cons]

mutual

/-- The variables that a context mentions. -/
def references : Context → List String
  | hole => []
  | literal _ => []
  | reference name => [name]
  | call _ args => referencesAll args

/-- The variables that contexts mention. -/
def referencesAll : List Context → List String
  | [] => []
  | c :: cs => c.references ++ referencesAll cs

end

theorem references_subset_referencesAll {c : Context} {cs : List Context} (h : c ∈ cs) :
    c.references ⊆ referencesAll cs := by
  induction cs with
  | nil => cases h
  | cons d ds ih =>
    rw [referencesAll]
    rcases List.mem_cons.1 h with rfl | h
    · exact List.subset_append_left _ _
    · exact List.Subset.trans (ih h) (List.subset_append_right _ _)

/-- A context whose parts can be told from each other in its written form. A literal starts like
one, a variable and the name of a call do not and have no parenthesis, and all of them have balanced
brackets and no comma outside. -/
inductive WellFormed : Context → Prop
  | hole : WellFormed .hole
  | literal {text : String} (starts : Word.beginsLiteral text.toList = true)
    (closes : Call.Closes 0 text.toList) : WellFormed (.literal text)
  | reference {name : String} (ne_empty : name ≠ "")
    (starts : Word.beginsLiteral name.toList = false) (call : '(' ∉ name.toList)
    (closes : Call.Closes 0 name.toList) : WellFormed (.reference name)
  | call {name : String} {args : List Context} (starts : Word.beginsLiteral name.toList = false)
    (call : '(' ∉ name.toList) (closes : Call.Closes 0 name.toList)
    (arguments : ∀ c ∈ args, WellFormed c) : WellFormed (.call name args)

namespace WellFormed

variable {c : Context}

/-- Every name can be a variable of a context. -/
theorem of_isName {name : String} (h : Word.isName name = true) : WellFormed (.reference name) := by
  have hliteral := Word.beginsLiteral_of_isName h []
  rw [List.append_nil] at hliteral
  exact .reference (Word.ne_empty_of_isName h) hliteral (Word.not_mem_of_isName h)
    (Plain.of_isName h).closes

/-- Every name can be called in a context. -/
theorem call_of_isName {name : String} {args : List Context} (h : Word.isName name = true)
    (hargs : ∀ c ∈ args, WellFormed c) : WellFormed (.call name args) := by
  have hliteral := Word.beginsLiteral_of_isName h []
  rw [List.append_nil] at hliteral
  exact .call hliteral (Word.not_mem_of_isName h) (Plain.of_isName h).closes hargs

/-- Every literal that can be read can stand in a context. -/
theorem of_read {text : String} {v : Value} (hstarts : Word.beginsLiteral text.toList = true)
    (h : Literal.read text = .ok v) : WellFormed (.literal text) :=
  .literal hstarts (Literal.plain_of_read h).closes

/-- With a text in its holes that can be an argument, a context can be one. -/
theorem isArgument_fill (h : c.WellFormed) {text : String} (htext : Call.IsArgument text) :
    Call.IsArgument (c.fill text) := by
  induction h with
  | hole => exact htext
  | @literal text starts closes =>
    refine ⟨?_, closes⟩
    rintro rfl
    exact Bool.false_ne_true starts
  | reference ne_empty starts call closes => exact ⟨ne_empty, closes⟩
  | @call name args starts call closes arguments ih =>
    rw [fill, fillAll_eq_map]
    refine ⟨fun hempty ↦ ?_, Call.closes_joined closes fun a ha ↦ ?_⟩
    · have hlist := congrArg String.toList hempty
      rw [Call.toList_joined] at hlist
      simp at hlist
    · obtain ⟨d, hd, rfl⟩ := List.mem_map.1 ha
      exact (ih d hd).closes

/-- A call with filled arguments is taken apart into its name and them. -/
theorem split_fill {name : String} {args : List Context} (hcall : '(' ∉ name.toList)
    (harguments : ∀ c ∈ args, WellFormed c) {text : String} (htext : Call.IsArgument text) :
    Call.split ((Context.call name args).fill text) = .ok ⟨name, args.map (fill text)⟩ := by
  rw [fill, fillAll_eq_map]
  refine Call.split_joined hcall fun a ha ↦ ?_
  obtain ⟨d, hd, rfl⟩ := List.mem_map.1 ha
  exact (harguments d hd).isArgument_fill htext

theorem beginsLiteral_fill {name : String} (h : Word.beginsLiteral name.toList = false)
    (args : List Context) (text : String) :
    Word.beginsLiteral ((Context.call name args).fill text).toList = false := by
  rw [fill, Call.toList_joined]
  rcases hname : name.toList with _ | ⟨d, ds⟩
  · rfl
  · rwa [hname] at h

end WellFormed

end Context

/-! ### Denotations on other lines -/

/-- The values of a steady builtin are the same on every line. -/
theorem Builtin.Steady.toOption_call_eq {b : Builtin} (h : b.Steady) (operands : List Value)
    (line line' : Nat) : (b.call operands line).toOption = (b.call operands line').toOption := by
  ext v
  rw [toOption_eq_some_iff, toOption_eq_some_iff]
  exact ⟨fun hcall ↦ h.call_eq hcall line', fun hcall ↦ h.call_eq hcall line⟩

/-- With steady builtins, a text denotes the same on every line. -/
theorem denote_eq_of_steady {r : Registry} (hr : ∀ b ∈ r.entries, b.Steady) (s : Store)
    (line line' : Nat) (text : String) : denote r s line text = denote r s line' text := by
  induction text using Call.text_induction with
  | step text ih =>
    obtain rfl | hliteral | ⟨hliteral, ⟨hne, hparen⟩ | ⟨error, hparen, hsplit⟩ | ⟨c, hsplit⟩⟩ :=
      text_cases text
    · rw [denote_empty, denote_empty]
    · rw [denote_of_literal hliteral, denote_of_literal hliteral]
    · rw [denote_of_reference hne hliteral hparen, denote_of_reference hne hliteral hparen]
    · rw [denote_of_split_error hliteral hparen hsplit,
        denote_of_split_error hliteral hparen hsplit]
    · rw [denote_of_call hliteral hsplit, denote_of_call hliteral hsplit, mapM_congr (ih c hsplit)]
      rcases hb : r.find? c.name with _ | b
      · rfl
      · have hsteady := hr b (List.mem_of_find?_eq_some hb)
        simp only [Option.bind_some, hsteady.toOption_call_eq _ line line']

/-! ### Denotations of contexts -/

section

variable {r : Registry} {s s' : Store} {x : String} {v : Value}

/-- A name denotes the value of the variable. -/
theorem denote_of_isName (hx : Word.isName x = true) (line : Nat) :
    denote r s line x = s.find? x := by
  have hliteral := Word.beginsLiteral_of_isName hx []
  rw [List.append_nil] at hliteral
  exact denote_of_reference (Word.ne_empty_of_isName hx) hliteral (Word.not_mem_of_isName hx)

/-- **Contexts denote the same with a variable in their holes as with a text that denotes its
value**, if they do not mention the variable otherwise. -/
theorem Context.WellFormed.denote_fill {c : Context} (hc : c.WellFormed) {line : Nat}
    {text : String} (htext : Call.IsArgument text) (hdenote : denote r s line text = some v)
    (hx : Word.isName x = true)
    (hfind : ∀ y, s'.find? y = if y = x then some v else s.find? y) (hmention : x ∉ c.references) :
    denote r s' line (c.fill x) = denote r s line (c.fill text) := by
  have hxargument : Call.IsArgument x :=
    ⟨Word.ne_empty_of_isName hx, (Plain.of_isName hx).closes⟩
  induction hc with
  | hole =>
    show denote r s' line x = denote r s line text
    rw [denote_of_isName hx, hfind, if_pos rfl, hdenote]
  | @literal text starts closes =>
    show denote r s' line text = denote r s line text
    rw [denote_of_literal starts, denote_of_literal starts]
  | @reference name ne_empty starts call closes =>
    have hne : name ≠ x := by
      rintro rfl
      exact hmention List.mem_cons_self
    show denote r s' line name = denote r s line name
    rw [denote_of_reference ne_empty starts call, denote_of_reference ne_empty starts call, hfind,
      if_neg hne]
  | @call name args starts call closes arguments ih =>
    have hargs : (args.map (fill x)).mapM (denote r s' line) =
        (args.map (fill text)).mapM (denote r s line) := by
      rw [List.mapM_map, List.mapM_map]
      refine mapM_congr fun d hd ↦ ih d hd fun hx ↦ ?_
      exact hmention (references_subset_referencesAll hd hx)
    rw [denote_of_call (beginsLiteral_fill starts args x) (split_fill call arguments hxargument),
      denote_of_call (beginsLiteral_fill starts args text) (split_fill call arguments htext), hargs]

end

/-! ### Declarations as lines -/

namespace Session

/-- The line that declares a variable of a kind with the value of an expression. -/
def declarationLine (kind : Kind) (name expression : String) : String :=
  " ".intercalate [Word.keyword kind, name, "=", expression]

/-- The names of the standard builtins are names. -/
theorem isName_of_mem_standard : ∀ name ∈ Registry.standard.names, Word.isName name = true := by
  decide

variable {s : Session} {names : List String} {e x : String} {v : Value}

/-- What has a value in a session can be an argument and a word of a line. -/
theorem plain_of_reached (hs : Reached .standard s names)
    (he : denote .standard s.store s.line e = some v) : e ≠ "" ∧ Plain e := by
  refine ⟨?_, plain_of_denote isName_of_mem_standard (fun name hname ↦ ?_) e v he⟩
  · rintro rfl
    rw [denote_empty] at he
    cases he
  · rw [hs.orderly.names_eq] at hname
    exact (Statement.checkName_eq_ok_iff.1 (hs.orderly.free name hname)).1

theorem denote_standard_eq (s : Store) (line line' : Nat) (text : String) :
    denote .standard s line text = denote .standard s line' text :=
  denote_eq_of_steady (fun _ hb ↦ Builtin.steady_of_mem_standard hb) s line line' text

/-- **A fresh name can be declared with any expression that has a value**, and then it has this
value, with all else as before. -/
theorem exists_step_declarationLine (hs : Reached .standard s names)
    (he : denote .standard s.store s.line e = some v)
    (hx : Statement.checkName .standard x = .ok ()) (hfresh : x ∉ names) :
    ∃ s', s.step (declarationLine v.kind x e) = (.ok (), s') ∧ s'.registry = .standard ∧
      ∀ y, s'.store.find? y = if y = x then some v else s.store.find? y := by
  obtain ⟨hne, hplain⟩ := plain_of_reached hs he
  obtain ⟨hregistry, rfl, -, -⟩ := hs.orderly
  have hasks : s.Asks (s.line + 1) (declarationLine v.kind x e) ⟨.declare v.kind x, e⟩ v := by
    obtain ⟨hisName, hfree⟩ := Statement.checkName_eq_ok_iff.1 hx
    have hwritable : Statement.Writable .standard ⟨.declare v.kind x, e⟩ :=
      ⟨⟨Word.isName_iff_identifier.1 hisName, hfree⟩, hne, hplain.blank⟩
    have hline : declarationLine v.kind x e =
        " ".intercalate (Statement.toWords ⟨.declare v.kind x, e⟩) := rfl
    rw [Asks, hregistry, hline]
    refine ⟨Statement.ofWords_words_intercalate hwritable, ?_⟩
    rwa [denote_standard_eq s.store (s.line + 1) s.line]
  have hpermits : s.Permits v (.declare v.kind x) := ⟨rfl, hfresh⟩
  obtain ⟨s', hkeeps, -, ⟨statement, u, hasks', -, hstep, hdoes⟩ | ⟨d, hrefuses, -⟩⟩ :=
    s.step_cases (declarationLine v.kind x e)
  · obtain ⟨rfl, rfl⟩ := hasks'.unique hasks
    obtain ⟨-, hbindings, -⟩ := hdoes
    have hinsert : s.store.insert x u = .ok s'.store := by
      rw [Store.insert, Store.contains_eq_false_iff.2 hfresh, ← hbindings]
      rfl
    exact ⟨s', hstep, hkeeps.trans hregistry, Store.find?_insert hinsert⟩
  · exact absurd hpermits (hrefuses _ v hasks)

/-- **Naming a part of an expression does not change its meaning.** In every session over the
standard builtins, an expression that has a value can be declared under any name that is free. After
that, expressions that differ only in having the name in places of the expression come to the values
that they came to before, or to none as before. -/
theorem evaluate_fill_named (hs : Reached .standard s names) (he : (s.evaluate e).1 = .ok v)
    (hx : Statement.checkName .standard x = .ok ()) (hfresh : x ∉ names) :
    ∃ s', s.step (declarationLine v.kind x e) = (.ok (), s') ∧
      ∀ c : Context, c.WellFormed → x ∉ c.references → ∀ w,
        (s'.evaluate (c.fill x)).1 = .ok w ↔ (s.evaluate (c.fill e)).1 = .ok w := by
  have hregistry := hs.orderly.registry
  rw [evaluate_eq_ok_iff, hregistry] at he
  obtain ⟨s', hstep, hregistry', hfind⟩ := exists_step_declarationLine hs he hx hfresh
  refine ⟨s', hstep, fun c hc hmention w ↦ ?_⟩
  have hargument : Call.IsArgument e :=
    ⟨(plain_of_reached hs he).1, (plain_of_reached hs he).2.closes⟩
  have hisName := (Statement.checkName_eq_ok_iff.1 hx).1
  rw [evaluate_eq_ok_iff, evaluate_eq_ok_iff, hregistry, hregistry',
    denote_standard_eq s'.store s'.line s.line,
    hc.denote_fill hargument he hisName hfind hmention]

/-- A transpose that stands in two places of a sum. -/
theorem evaluate_fill_named_twice :
    let s := (({} : Session).step "MAT m = [1,2;3,4]").2
    Reached .standard s ["m"] ∧ ∃ s', s.step "MAT p = TRAN(m)" = (.ok (), s') ∧
      ∀ w, (s'.evaluate "MAT_ADD(MAT_MUL(p,m),MAT_ADD(p,[1,0;0,1]))").1 = .ok w ↔
        (s.evaluate "MAT_ADD(MAT_MUL(TRAN(m),m),MAT_ADD(TRAN(m),[1,0;0,1]))").1 = .ok w := by
  intro s
  have hreached : Reached .standard s ["m"] := by
    convert (Reached.created {}).line "MAT m = [1,2;3,4]" using 1
    decide +kernel
  have hkind : (s.evaluate "TRAN(m)").1.toOption.map Value.kind = some .matrix := by
    decide +kernel
  obtain ⟨v, hv, hmatrix⟩ := Option.map_eq_some_iff.1 hkind
  obtain ⟨s', hstep, hsame⟩ := evaluate_fill_named (x := "p") hreached (toOption_eq_some_iff.1 hv)
    (by decide +kernel) (by decide)
  rw [hmatrix] at hstep
  refine ⟨hreached, s', hstep, ?_⟩
  have hidentity : Context.WellFormed (.literal "[1,0;0,1]") := by
    obtain ⟨u, hu⟩ : ∃ u, Literal.read "[1,0;0,1]" = .ok u := ⟨_, rfl⟩
    exact .of_read (by decide) hu
  let c : Context := .call "MAT_ADD"
    [.call "MAT_MUL" [.hole, .reference "m"], .call "MAT_ADD" [.hole, .literal "[1,0;0,1]"]]
  have hc : c.WellFormed := by
    refine .call_of_isName (by decide)
      (List.forall_mem_cons.2 ⟨?_, List.forall_mem_singleton.2 ?_⟩)
    · exact .call_of_isName (by decide)
        (List.forall_mem_cons.2 ⟨.hole, List.forall_mem_singleton.2 (.of_isName (by decide))⟩)
    · exact .call_of_isName (by decide)
        (List.forall_mem_cons.2 ⟨.hole, List.forall_mem_singleton.2 hidentity⟩)
  exact hsame c hc (by decide)

end Session

end MatrixScript
