import MatrixScript.Proofs.Naming

/-!
# Assignments that commute

Two reassignments can change places if they are of different variables and neither expression refers
to the variable of the other one (`Session.assignments_comm`).

What a text denotes depends on the variables that it refers to, however deep they stand in it, and
on no others (`denote_congr`). So the second assignment has the value that it would have had as the
first one, also where its expression refers to its own variable. And giving a variable a value
changes nothing but the value in its place, so it does not matter in which order two of them get
theirs (`Store.updated_comm`). Whether two assignments succeed and what they come to is therefore
told from the session before both of them (`Session.assignments_succeed_iff`), and this is alike for
the two orders.
-/

namespace MatrixScript

/-! ### The variables of a text -/

/-- The variables that the text of an expression refers to, from left to right. -/
def references (text : String) : List String :=
  if text = "" then []
  else if Word.beginsLiteral text.toList then []
  else if '(' ∉ text.toList then [text]
  else
    match _ : Call.split text with
    | .error _ => []
    | .ok c => c.arguments.attach.flatMap fun a ↦ references a.1
termination_by text.length
decreasing_by exact Call.length_lt_of_split ‹_› a.2

section

variable {text : String}

theorem references_of_reference (hne : text ≠ "")
    (hliteral : Word.beginsLiteral text.toList = false) (hcall : '(' ∉ text.toList) :
    references text = [text] := by
  rw [references, if_neg hne, if_neg (by simp [hliteral]), if_pos hcall]

/-- A call refers to what its arguments refer to. -/
theorem references_of_call {c : Call} (hliteral : Word.beginsLiteral text.toList = false)
    (hsplit : Call.split text = .ok c) : references text = c.arguments.flatMap references := by
  have hparen := Call.mem_of_split hsplit
  have hne : text ≠ "" := by
    rintro rfl
    cases hparen
  rw [references, if_neg hne, if_neg (by simp [hliteral]), if_neg (by simpa using hparen)]
  split
  · next e he =>
    rw [hsplit] at he
    cases he
  · next c' hc' =>
    rw [hsplit] at hc'
    cases hc'
    rw [List.flatMap_subtype fun a _ ↦ rfl, List.unattach_attach]

/-- **What a text denotes depends on the variables that it refers to** and on no others. -/
theorem denote_congr {r : Registry} {s s' : Store} {line : Nat}
    (h : ∀ name ∈ references text, s.find? name = s'.find? name) :
    denote r s line text = denote r s' line text := by
  induction text using Call.text_induction with
  | step text ih =>
    obtain rfl | hliteral | ⟨hliteral, ⟨hne, hparen⟩ | ⟨error, hparen, hsplit⟩ | ⟨c, hsplit⟩⟩ :=
      text_cases text
    · rw [denote_empty, denote_empty]
    · rw [denote_of_literal hliteral, denote_of_literal hliteral]
    · rw [references_of_reference hne hliteral hparen] at h
      rw [denote_of_reference hne hliteral hparen, denote_of_reference hne hliteral hparen,
        h text List.mem_cons_self]
    · rw [denote_of_split_error hliteral hparen hsplit,
        denote_of_split_error hliteral hparen hsplit]
    · rw [references_of_call hliteral hsplit] at h
      have hargs : c.arguments.mapM (denote r s line) = c.arguments.mapM (denote r s' line) := by
        refine mapM_congr fun a ha ↦ ih c hsplit a ha fun name hname ↦ h name ?_
        exact List.mem_flatMap.2 ⟨a, ha, hname⟩
      rw [denote_of_call hliteral hsplit, denote_of_call hliteral hsplit, hargs]

end

/-! ### Values in their places -/

namespace Store

/-- The store in which a variable has another value. -/
def updated (s : Store) (name : String) (v : Value) : Store :=
  ⟨s.bindings.map fun b ↦ if b.1 = name then (name, v) else b⟩

theorem replace_eq_updated {s : Store} {name : String} (h : name ∈ s.names) (v : Value) :
    s.replace name v = .ok (s.updated name v) := by
  rw [replace, if_pos (contains_iff_mem_names.2 h), updated]

/-- **Values of different variables can be given in either order.** -/
theorem updated_comm (s : Store) {x y : String} (h : x ≠ y) (v w : Value) :
    (s.updated x v).updated y w = (s.updated y w).updated x v := by
  simp only [updated, List.map_map]
  congr 1
  refine List.map_congr_left fun b _ ↦ ?_
  by_cases hx : b.1 = x
  · simp [hx, h]
  · by_cases hy : b.1 = y
    · simp [hy, h.symm]
    · simp [hx, hy]

end Store

namespace Session

/-! ### One assignment -/

/-- The line that gives a variable the value of an expression. -/
def assignmentLine (name expression : String) : String :=
  " ".intercalate [name, "=", expression]

/-- A variable can be given a value: there is the variable, and the expression denotes the value. -/
structure CanAssign (s : Session) (name expression : String) (v : Value) : Prop where
  mem : name ∈ s.store.names
  denote : denote s.registry s.store (s.line + 1) expression = some v

theorem CanAssign.unique {s : Session} {name expression : String} {v w : Value}
    (hv : s.CanAssign name expression v) (hw : s.CanAssign name expression w) : v = w :=
  Option.some.inj (hv.denote.symm.trans hw.denote)

variable {s : Session} {x y e₁ e₂ : String}

/-- **An assignment succeeds exactly if it can**, and then it changes the value of its variable. -/
theorem step_assignmentLine_cases (h : Statement.Writable s.registry ⟨.assign x, e₁⟩) :
    (∃ v s', s.CanAssign x e₁ v ∧ s.step (assignmentLine x e₁) = (.ok (), s') ∧
      s'.registry = s.registry ∧ s'.store = s.store.updated x v) ∨
    ((∀ v, ¬ s.CanAssign x e₁ v) ∧ ∃ d s', s.step (assignmentLine x e₁) = (.error d, s')) := by
  have hline : assignmentLine x e₁ = " ".intercalate (Statement.toWords ⟨.assign x, e₁⟩) := rfl
  have hstatement : Statement.ofWords s.registry (words (assignmentLine x e₁)) =
      .ok ⟨.assign x, e₁⟩ := by
    rw [hline]
    exact Statement.ofWords_words_intercalate h
  obtain ⟨s', hregistry, -,
      ⟨statement, v, hasks, hpermits, hstep, hdoes⟩ | ⟨d, hrefuses, hstep, -⟩⟩ :=
    s.step_cases (assignmentLine x e₁)
  · obtain rfl : statement = ⟨.assign x, e₁⟩ := Except.ok.inj (hasks.1.symm.trans hstatement)
    obtain ⟨-, hbindings, -⟩ := hdoes
    refine .inl ⟨v, s', ⟨hpermits, hasks.2⟩, hstep, hregistry, ?_⟩
    rw [Store.updated, ← hbindings]
  · refine .inr ⟨fun v hcan ↦ ?_, d, s', hstep⟩
    exact hrefuses ⟨.assign x, e₁⟩ v ⟨hstatement, hcan.denote⟩ hcan.mem

/-- An assignment makes no difference to another one whose expression does not refer to its
variable. -/
theorem canAssign_iff_of_updated {s' : Session} {v w : Value}
    (hr : ∀ b ∈ s.registry.entries, b.Steady) (hx : x ∈ s.store.names)
    (hregistry : s'.registry = s.registry) (hstore : s'.store = s.store.updated x v)
    (he : x ∉ references e₂) : s'.CanAssign y e₂ w ↔ s.CanAssign y e₂ w := by
  have hreplace := Store.replace_eq_updated hx v
  have hnames : s'.store.names = s.store.names := by
    rw [hstore, Store.names_replace hreplace]
  have hdenote : denote s'.registry s'.store (s'.line + 1) e₂ =
      denote s.registry s.store (s.line + 1) e₂ := by
    rw [hregistry, denote_eq_of_steady hr s'.store (s'.line + 1) (s.line + 1), hstore]
    refine denote_congr fun name hname ↦ ?_
    have hne : name ≠ x := fun h ↦ he (h ▸ hname)
    rw [Store.find?_replace hreplace, if_neg hne]
  exact ⟨fun ⟨hmem, hvalue⟩ ↦ ⟨hnames ▸ hmem, hdenote ▸ hvalue⟩,
    fun ⟨hmem, hvalue⟩ ↦ ⟨hnames.symm ▸ hmem, hdenote.symm ▸ hvalue⟩⟩

/-! ### Two assignments -/

/-- The given lines succeed one after the other, and this is the session after them. -/
def Succeed (s : Session) : List String → Session → Prop
  | [], s' => s' = s
  | text :: texts, s' => ∃ next, s.step text = (.ok (), next) ∧ next.Succeed texts s'

/-- **Two assignments succeed exactly if each of them can be made to begin with**, provided that the
second expression does not refer to the first variable. -/
theorem assignments_succeed_iff (hr : ∀ b ∈ s.registry.entries, b.Steady)
    (hwrite₁ : Statement.Writable s.registry ⟨.assign x, e₁⟩)
    (hwrite₂ : Statement.Writable s.registry ⟨.assign y, e₂⟩) (he₂ : x ∉ references e₂)
    (store : Store) :
    (∃ s', s.Succeed [assignmentLine x e₁, assignmentLine y e₂] s' ∧ s'.store = store) ↔
      ∃ v w, s.CanAssign x e₁ v ∧ s.CanAssign y e₂ w ∧
        store = (s.store.updated x v).updated y w := by
  obtain ⟨v, s₁, hcan₁, hstep₁, hregistry₁, hstore₁⟩ | ⟨hcannot, d, s₁, hstep₁⟩ :=
    step_assignmentLine_cases hwrite₁
  · have hwrite₂' : Statement.Writable s₁.registry ⟨.assign y, e₂⟩ := hregistry₁ ▸ hwrite₂
    have hsame : ∀ w, s₁.CanAssign y e₂ w ↔ s.CanAssign y e₂ w := fun w ↦
      canAssign_iff_of_updated hr hcan₁.mem hregistry₁ hstore₁ he₂
    obtain ⟨w, s₂, hcan₂, hstep₂, -, hstore₂⟩ | ⟨hcannot, d, s₂, hstep₂⟩ :=
      step_assignmentLine_cases hwrite₂'
    · have hstore : s₂.store = (s.store.updated x v).updated y w := by rw [hstore₂, hstore₁]
      rw [hsame] at hcan₂
      constructor
      · rintro ⟨s', ⟨s₁', hs₁', s₂', hs₂', rfl⟩, rfl⟩
        obtain rfl := (Prod.mk.inj (hs₁'.symm.trans hstep₁)).2
        obtain rfl := (Prod.mk.inj (hs₂'.symm.trans hstep₂)).2
        exact ⟨v, w, hcan₁, hcan₂, hstore⟩
      · rintro ⟨v', w', hv', hw', rfl⟩
        obtain rfl := hcan₁.unique hv'
        obtain rfl := hcan₂.unique hw'
        exact ⟨s₂, ⟨s₁, hstep₁, s₂, hstep₂, rfl⟩, hstore⟩
    · constructor
      · rintro ⟨s', ⟨s₁', hs₁', s₂', hs₂', -⟩, -⟩
        obtain rfl := (Prod.mk.inj (hs₁'.symm.trans hstep₁)).2
        cases hs₂'.symm.trans hstep₂
      · rintro ⟨-, w', -, hw', -⟩
        exact absurd ((hsame w').2 hw') (hcannot w')
  · constructor
    · rintro ⟨s', ⟨s₁', hs₁', -⟩, -⟩
      cases hs₁'.symm.trans hstep₁
    · rintro ⟨v', -, hv', -⟩
      exact absurd hv' (hcannot v')

/-- **Independent assignments commute.** In every session over steady builtins, for all different
variables and all expressions neither of which refers to the variable of the other one, the two
assignments succeed in one order exactly if they do in the other, and then they leave the same
variables with the same values in the same places. -/
theorem assignments_comm (s : Session) (hr : ∀ b ∈ s.registry.entries, b.Steady)
    {x y e₁ e₂ : String} (hx : Word.IsWord x) (hxout : x ≠ "OUT") (hy : Word.IsWord y)
    (hyout : y ≠ "OUT") (hxy : x ≠ y) (he₁ : Word.IsWord e₁) (he₂ : Word.IsWord e₂)
    (hy₁ : y ∉ references e₁) (hx₂ : x ∉ references e₂) :
    ((∃ s', s.Succeed [assignmentLine x e₁, assignmentLine y e₂] s') ↔
      ∃ s', s.Succeed [assignmentLine y e₂, assignmentLine x e₁] s') ∧
    ∀ s₁ s₂, s.Succeed [assignmentLine x e₁, assignmentLine y e₂] s₁ →
      s.Succeed [assignmentLine y e₂, assignmentLine x e₁] s₂ → s₁.store = s₂.store := by
  have hwrite₁ : Statement.Writable s.registry ⟨.assign x, e₁⟩ := ⟨⟨hx, hxout⟩, he₁⟩
  have hwrite₂ : Statement.Writable s.registry ⟨.assign y, e₂⟩ := ⟨⟨hy, hyout⟩, he₂⟩
  have hfirst := assignments_succeed_iff hr hwrite₁ hwrite₂ hx₂
  have hsecond := assignments_succeed_iff hr hwrite₂ hwrite₁ hy₁
  refine ⟨⟨?_, ?_⟩, ?_⟩
  · rintro ⟨s', hs'⟩
    obtain ⟨v, w, hv, hw, -⟩ := (hfirst s'.store).1 ⟨s', hs', rfl⟩
    obtain ⟨s'', hs'', -⟩ := (hsecond _).2 ⟨w, v, hw, hv, rfl⟩
    exact ⟨s'', hs''⟩
  · rintro ⟨s', hs'⟩
    obtain ⟨w, v, hw, hv, -⟩ := (hsecond s'.store).1 ⟨s', hs', rfl⟩
    obtain ⟨s'', hs'', -⟩ := (hfirst _).2 ⟨v, w, hv, hw, rfl⟩
    exact ⟨s'', hs''⟩
  · intro s₁ s₂ hs₁ hs₂
    obtain ⟨v, w, hv, hw, hstore₁⟩ := (hfirst s₁.store).1 ⟨s₁, hs₁, rfl⟩
    obtain ⟨w', v', hw', hv', hstore₂⟩ := (hsecond s₂.store).1 ⟨s₂, hs₂, rfl⟩
    rw [hstore₁, hstore₂, hv.unique hv', hw.unique hw', Store.updated_comm _ hxy]

/-- Two expressions that refer to their own variables. -/
theorem assignments_comm_own :
    let s := ((({} : Session).step "NUM x = 1").2.step "MAT y = [1,2;3,4]").2
    ∃ s₁ s₂, s.Succeed ["x = ADD(x,2)", "y = MAT_MUL(y,TRAN(y))"] s₁ ∧
      s.Succeed ["y = MAT_MUL(y,TRAN(y))", "x = ADD(x,2)"] s₂ ∧ s₁.store = s₂.store := by
  intro s
  have hregistry : s.registry = .standard :=
    (registry_line_step _ _).1.trans (registry_line_step _ _).1
  have hsteady : ∀ b ∈ s.registry.entries, b.Steady := by
    rw [hregistry]
    exact fun b hb ↦ Builtin.steady_of_mem_standard hb
  have hsucceed : (s.step "x = ADD(x,2)").1.toOption = some () ∧
      ((s.step "x = ADD(x,2)").2.step "y = MAT_MUL(y,TRAN(y))").1.toOption = some () := by
    decide +kernel
  rw [toOption_eq_some_iff, toOption_eq_some_iff] at hsucceed
  have hreferences : "y" ∉ references "ADD(x,2)" ∧ "x" ∉ references "MAT_MUL(y,TRAN(y))" := by
    decide +kernel
  clear_value s
  have hx : Word.IsWord "x" := ⟨by decide, by decide⟩
  have hy : Word.IsWord "y" := ⟨by decide, by decide⟩
  have he₁ : Word.IsWord "ADD(x,2)" := ⟨by decide, by decide⟩
  have he₂ : Word.IsWord "MAT_MUL(y,TRAN(y))" := ⟨by decide, by decide⟩
  have hcomm := assignments_comm s hsteady hx (by decide) hy (by decide) (by decide) he₁ he₂
    hreferences.1 hreferences.2
  have hline₁ : assignmentLine "x" "ADD(x,2)" = "x = ADD(x,2)" := by decide
  have hline₂ : assignmentLine "y" "MAT_MUL(y,TRAN(y))" = "y = MAT_MUL(y,TRAN(y))" := by decide
  rw [hline₁, hline₂] at hcomm
  obtain ⟨s₁, hs₁⟩ : ∃ s₁, s.Succeed ["x = ADD(x,2)", "y = MAT_MUL(y,TRAN(y))"] s₁ := by
    obtain ⟨next, hnext⟩ : ∃ next, s.step "x = ADD(x,2)" = (.ok (), next) :=
      ⟨_, Prod.ext_iff.2 ⟨hsucceed.1, rfl⟩⟩
    rw [hnext] at hsucceed
    exact ⟨_, next, hnext, _, Prod.ext_iff.2 ⟨hsucceed.2, rfl⟩, rfl⟩
  obtain ⟨s₂, hs₂⟩ := hcomm.1.1 ⟨s₁, hs₁⟩
  exact ⟨s₁, s₂, hs₁, hs₂, hcomm.2 s₁ s₂ hs₁ hs₂⟩

end Session

end MatrixScript
