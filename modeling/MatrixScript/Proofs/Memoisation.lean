import MatrixScript.Proofs.Invariant

/-!
# Values that are remembered

A call whose builtin has given it a value is not carried out again, on whatever occasion the arena
is evaluated next. What is counted are the uses of builtins that succeed, by the nodes that they
are for (`successes`), over a whole series of occasions (`Performs`).

The count is balanced by the calls that wait for their values: `waiting` is one for such a call and
nothing for any other node. A success takes a call from the one side to the other, and nothing
brings it back (`Evaluates.successes_add_waiting_le`). So there is at most one success for each
node, however many occasions there are (`Performs.successes_add_waiting_le`).

Uses are taken down by the rules, not by evaluation itself. What evaluation leaves of them are notes
in the journal, one for each success and in their order (`Performs.resolved_eq`).

Once the root has its value, no occasion changes anything: the value is returned, nothing is noted
and no builtin is used (`HasValue.evaluateOn_eq`, `HasValue.uses_eq_nil`).
-/

namespace MatrixScript

/-- A note on a call that was given its value. -/
def Note.isResolution : Note → Bool
  | resolved .. => true
  | _ => false

namespace Arena

/-! ### What uses leave in the journal -/

/-- The note on a use that has succeeded. -/
def Use.note? (u : Use) : Option Note :=
  u.result.toOption.map fun v ↦ .resolved u.node u.builtin.name v.kind

/-- Notes have been added to a journal, and those on values of calls are the ones on the uses that
have succeeded, in their order. -/
def Leaves (j : Journal) (uses : List Use) (j' : Journal) : Prop :=
  ∃ notes, j'.history = j.history ++ notes ∧
    notes.filter Note.isResolution = uses.filterMap Use.note?

section

variable {j j' j'' : Journal} {uses uses' : List Use}

theorem Leaves.refl (j : Journal) : Leaves j [] j :=
  ⟨[], (List.append_nil _).symm, rfl⟩

theorem Leaves.trans (h : Leaves j uses j') (h' : Leaves j' uses' j'') :
    Leaves j (uses ++ uses') j'' := by
  obtain ⟨notes, hnotes, huses⟩ := h
  obtain ⟨notes', hnotes', huses'⟩ := h'
  refine ⟨notes ++ notes', ?_, ?_⟩
  · rw [hnotes', hnotes, List.append_assoc]
  · rw [List.filter_append, List.filterMap_append, huses, huses']

/-- A success leaves its note. -/
theorem leaves_note (j : Journal) (id : Nat) (b : Builtin) (operands : List Value) (v : Value) :
    Leaves j [⟨id, b, operands, .ok v⟩] (j.note (.resolved id b.name v.kind)) :=
  ⟨[.resolved id b.name v.kind], List.reverse_cons, rfl⟩

theorem leaves_recordAll (j : Journal) (ds : List Diagnostic) : Leaves j [] (j.recordAll ds) := by
  induction ds generalizing j with
  | nil => exact .refl j
  | cons d ds ih =>
    have hrecord : Leaves j [] (j.record d) := ⟨[.recorded d], List.reverse_cons, rfl⟩
    exact hrecord.trans (ih (j.record d))

end

mutual

/-- Evaluating by the rules leaves a note for every use that succeeds, and no other notes of that
kind. -/
theorem Evaluates.leaves {s : Store} {line : Nat} : ∀ {state state' : State} {id : Nat}
    {uses : List Use} {result : Except Diagnostic Value},
      Evaluates s line state id uses result state' → Leaves state.2 uses state'.2
  | _, _, _, _, _, .known _ _ => .refl _
  | _, _, _, _, _, .found _ _ => .refl _
  | _, _, _, _, _, .unknown _ _ => .refl _
  | _, _, _, _, _, .failing _ all _ => by
    simpa using (EvaluatesAll.leaves all).trans (leaves_recordAll _ _)
  | _, _, _, _, _, .refused _ all _ =>
    (EvaluatesAll.leaves all).trans ⟨[], (List.append_nil _).symm, rfl⟩
  | _, _, _, _, _, .carriedOut _ all _ =>
    (EvaluatesAll.leaves all).trans (leaves_note _ _ _ _ _)

theorem EvaluatesAll.leaves {s : Store} {line : Nat} : ∀ {state state' : State} {ids : List Nat}
    {uses : List Use} {results : List (Except Diagnostic Value)},
      EvaluatesAll s line state ids uses results state' → Leaves state.2 uses state'.2
  | _, _, _, _, _, .nil => .refl _
  | _, _, _, _, _, .cons head tail => (Evaluates.leaves head).trans (EvaluatesAll.leaves tail)

end

/-! ### The balance of an evaluation -/

/-- The number of uses by a node that have succeeded. -/
def successes (id : Nat) (uses : List Use) : Nat :=
  uses.countP fun u ↦ u.node == id && u.result.isOk

/-- One for a call that waits for its value. -/
def waiting (nodes : Array Node) (id : Nat) : Nat :=
  match nodes[id]? with
  | some (.call _ _ none) => 1
  | _ => 0

@[simp]
theorem successes_nil (id : Nat) : successes id [] = 0 := rfl

@[simp]
theorem successes_append (id : Nat) (uses uses' : List Use) :
    successes id (uses ++ uses') = successes id uses + successes id uses' :=
  List.countP_append

@[simp]
theorem successes_error (k id : Nat) (b : Builtin) (operands : List Value) (d : Diagnostic) :
    successes k [⟨id, b, operands, .error d⟩] = 0 := by
  simp [successes, Except.isOk, Except.toBool]

theorem successes_ok (k id : Nat) (b : Builtin) (operands : List Value) (v : Value) :
    successes k [⟨id, b, operands, .ok v⟩] = if id = k then 1 else 0 := by
  simp [successes, List.countP_cons, Except.isOk, Except.toBool]

theorem waiting_le_one (nodes : Array Node) (id : Nat) : waiting nodes id ≤ 1 := by
  unfold waiting
  split <;> omega

variable {r : Registry} {s : Store} {line : Nat} {nodes : Array Node}

/-- Looking a variable up makes no call wait. -/
theorem waiting_setLeaf_le (nodes : Array Node) (id : Nat) (v : Value) (k : Nat) :
    waiting (nodes.setIfInBounds id (.leaf v)) k ≤ waiting nodes k := by
  unfold waiting
  grind

/-- Carrying a call out ends its waiting and makes no other call wait. -/
theorem successes_add_waiting_carryOut_le {id : Nat} {b : Builtin} {args : List Nat}
    (node : nodes[id]? = some (.call b args none)) (operands : List Value) (v : Value) (k : Nat) :
    successes k [⟨id, b, operands, .ok v⟩] +
        waiting ((release nodes args).setIfInBounds id (.call b [] (some v))) k ≤
      waiting nodes k := by
  have hget := getElem?_carryOut node b args v k
  rw [successes_ok, waiting, waiting, hget]
  by_cases hk : k = id
  · subst hk
    simp [node]
  · rw [if_neg hk, if_neg (Ne.symm hk)]
    by_cases hmem : k ∈ args
    · rw [if_pos hmem]
      cases nodes[k]? <;> simp
    · rw [if_neg hmem, Nat.zero_add]

mutual

/-- **Every success is that of a call that has been waiting**, and ends its waiting. -/
theorem Evaluates.successes_add_waiting_le : ∀ {state state' : State} {id : Nat} {uses : List Use}
    {result : Except Diagnostic Value}, Evaluates s line state id uses result state' →
      Tidy r state.1 → ∀ k, successes k uses + waiting state'.1 k ≤ waiting state.1 k
  | _, _, _, _, _, .known _ _, _, k => by simp
  | _, _, _, _, _, .unknown _ _, _, k => by simp
  | _, _, id, _, _, .found _ _, _, k => by
    rw [successes_nil, Nat.zero_add]
    exact waiting_setLeaf_le _ id _ k
  | _, _, _, _, _, .failing node all _, ht, k =>
    EvaluatesAll.successes_add_waiting_le all ht k
  | _, _, _, _, _, .refused node all _, ht, k => by
    rw [successes_append, successes_error, Nat.add_zero]
    exact EvaluatesAll.successes_add_waiting_le all ht k
  | _, _, id, _, _, .carriedOut node all _, ht, k => by
    have hargs := EvaluatesAll.successes_add_waiting_le all ht k
    have hnode := all.call_waits ht node
    rw [successes_append, Nat.add_assoc]
    exact Nat.le_trans (Nat.add_le_add_left (successes_add_waiting_carryOut_le hnode _ _ k) _) hargs

theorem EvaluatesAll.successes_add_waiting_le : ∀ {state state' : State} {ids : List Nat}
    {uses : List Use} {results : List (Except Diagnostic Value)},
      EvaluatesAll s line state ids uses results state' → Tidy r state.1 →
        ∀ k, successes k uses + waiting state'.1 k ≤ waiting state.1 k
  | _, _, _, _, _, .nil, _, k => by simp
  | _, _, _, _, _, .cons head tail, ht, k => by
    have hhead := Evaluates.successes_add_waiting_le head ht k
    have htail := EvaluatesAll.successes_add_waiting_le tail (head.keeps ht).tidy k
    rw [successes_append]
    omega

end

/-! ### The balance of a series of evaluations -/

/-- Evaluating an arena on one occasion after the other goes by the rules, with the given uses of
builtins in all. -/
inductive Performs : Arena → List Occasion → List Use → Prop
  | nil {a : Arena} : Performs a [] []
  | cons {a : Arena} {o : Occasion} {os : List Occasion} {uses uses' : List Use}
    (now : a.EvaluatesWith o uses) (later : Performs (a.evaluateOn o).2.1 os uses') :
    Performs a (o :: os) (uses ++ uses')

variable {a : Arena} {v : Value}

theorem Sound.exists_performs (h : a.Sound r) (os : List Occasion) :
    ∃ uses, a.Performs os uses := by
  induction os generalizing a with
  | nil => exact ⟨[], .nil⟩
  | cons o os ih =>
    obtain ⟨uses, hnow⟩ := h.exists_evaluatesWith o
    obtain ⟨uses', hlater⟩ := ih (h.next o)
    exact ⟨uses ++ uses', .cons hnow hlater⟩

/-- Over a series of evaluations, every success is that of a call that has been waiting at its
beginning and does not wait at its end. -/
theorem Performs.successes_add_waiting_le {os : List Occasion} {uses : List Use}
    (h : a.Performs os uses) (hsound : a.Sound r) (k : Nat) :
    successes k uses + waiting (a.after os).nodes k ≤ waiting a.nodes k := by
  induction h with
  | nil => simp [after]
  | @cons a o os uses uses' now later ih =>
    have hnow := Evaluates.successes_add_waiting_le now hsound.tidy k
    have hlater := ih (hsound.next o)
    calc
      successes k (uses ++ uses') + waiting (a.after (o :: os)).nodes k
      _ = successes k uses +
          (successes k uses' + waiting ((a.evaluateOn o).2.1.after os).nodes k) := by
        rw [successes_append, Nat.add_assoc, after]
      _ ≤ successes k uses + waiting (a.evaluateOn o).2.1.nodes k :=
        Nat.add_le_add_left hlater _
      _ ≤ waiting a.nodes k := hnow

/-- The notes on values of calls that evaluating an arena on an occasion leaves in the journal. -/
def resolvedOn (a : Arena) (o : Occasion) : List Note :=
  ((a.evaluateOn o).2.2.history.drop o.journal.history.length).filter Note.isResolution

/-- The notes on values of calls that are left on one occasion after the other. -/
def resolved (a : Arena) : List Occasion → List Note
  | [] => []
  | o :: os => a.resolvedOn o ++ (a.evaluateOn o).2.1.resolved os

theorem EvaluatesWith.resolvedOn_eq {o : Occasion} {uses : List Use} (h : a.EvaluatesWith o uses) :
    a.resolvedOn o = uses.filterMap Use.note? := by
  obtain ⟨notes, hnotes, huses⟩ := Evaluates.leaves h
  have hhistory : (a.evaluateOn o).2.2.history = o.journal.history ++ notes := hnotes
  rw [resolvedOn, hhistory, List.drop_left, huses]

/-- **The uses that succeed are what evaluation notes down**, over a series of evaluations. -/
theorem Performs.resolved_eq {os : List Occasion} {uses : List Use} (h : a.Performs os uses) :
    a.resolved os = uses.filterMap Use.note? := by
  induction h with
  | nil => rfl
  | cons now later ih =>
    rw [resolved, EvaluatesWith.resolvedOn_eq now, ih, List.filterMap_append]

/-! ### Arenas that have their value -/

/-- The root of an arena has a value. -/
def HasValue (a : Arena) (v : Value) : Prop :=
  ∃ n, a.nodes[a.root]? = some n ∧ n.value? = some v

/-- A node that has been evaluated with success has its value. -/
theorem Evaluates.value?_of_ok {id : Nat} {uses : List Use} {state state' : State}
    (h : Evaluates s line state id uses (.ok v) state') (ht : Tidy r state.1) :
    ∃ n, state'.1[id]? = some n ∧ n.value? = some v := by
  cases h with
  | known node value => exact ⟨_, node, value⟩
  | found node find => exact ⟨_, getElem?_setIfInBounds_self node, rfl⟩
  | carriedOut node all call =>
    have hnode := all.call_waits ht node
    exact ⟨_, (getElem?_carryOut hnode _ _ _ id).trans (if_pos rfl), rfl⟩

/-- Evaluating a node that has its value uses no builtin. -/
theorem Evaluates.uses_eq_nil {id : Nat} {uses : List Use} {result : Except Diagnostic Value}
    {state state' : State} (h : Evaluates s line state id uses result state') {n : Node}
    (hn : state.1[id]? = some n) (hv : n.value? = some v) : uses = [] := by
  cases h with
  | known node value => rfl
  | found node find => rfl
  | unknown node find => rfl
  | failing node all failures =>
    rw [Option.some.inj (hn.symm.trans node)] at hv
    exact nomatch hv
  | refused node all call =>
    rw [Option.some.inj (hn.symm.trans node)] at hv
    exact nomatch hv
  | carriedOut node all call =>
    rw [Option.some.inj (hn.symm.trans node)] at hv
    exact nomatch hv

theorem Sound.hasValue_of_evaluateOn (h : a.Sound r) {o : Occasion}
    (hv : (a.evaluateOn o).1 = .ok v) : (a.evaluateOn o).2.1.HasValue v := by
  obtain ⟨uses, heval⟩ := h.exists_evaluatesWith o
  rw [EvaluatesWith, hv] at heval
  exact heval.value?_of_ok h.tidy

/-- **An arena that has its value returns it** and is left as it is, and so is the journal. -/
theorem HasValue.evaluateOn_eq (h : a.HasValue v) (o : Occasion) :
    a.evaluateOn o = (.ok v, a, o.journal) := by
  obtain ⟨n, hn, hv⟩ := h
  obtain ⟨size, hsize⟩ : ∃ size, a.nodes.size = size + 1 :=
    Nat.exists_eq_succ_of_ne_zero (Nat.ne_of_gt (Nat.zero_lt_of_lt (lt_size_of_getElem? hn)))
  rw [evaluateOn, evaluate, hsize, evaluateNode, hn]
  rcases n with u | name | ⟨b, args, _ | u⟩ | _
  · cases hv
    rfl
  · cases hv
  · cases hv
  · cases hv
    rfl
  · cases hv

theorem HasValue.after_eq (h : a.HasValue v) (os : List Occasion) : a.after os = a := by
  induction os with
  | nil => rfl
  | cons o os ih =>
    rw [after, h.evaluateOn_eq o]
    exact ih

/-- An arena that has its value uses no builtins. -/
theorem HasValue.uses_eq_nil (h : a.HasValue v) {os : List Occasion} {uses : List Use}
    (hperforms : a.Performs os uses) : uses = [] := by
  induction hperforms with
  | nil => rfl
  | @cons a o os uses uses' now later ih =>
    obtain ⟨n, hn, hv⟩ := h
    rw [Evaluates.uses_eq_nil now hn hv]
    refine ih ?_
    rw [HasValue.evaluateOn_eq ⟨n, hn, hv⟩ o]
    exact ⟨n, hn, hv⟩

/-! ### Once and for all -/

/-- **A builtin succeeds for a node once at most**, on whatever occasions an arena is evaluated; the
uses that succeed are those that evaluation leaves notes on, in their order. And once the arena has
been given its value, that is it: on all later occasions, whatever the variables and the line, the
value is returned, no builtin is used, nothing is recorded and the arena does not change. -/
theorem evaluations_once {line : Nat} {j : Journal} {text : String}
    (hread : (read r line j text).1 = .ok a) (os : List Occasion) :
    (∃ uses, a.Performs os uses) ∧
    (∀ uses, a.Performs os uses → a.resolved os = uses.filterMap Use.note? ∧
      ∀ id, successes id uses ≤ 1) ∧
    ∀ o v, ((a.after os).evaluateOn o).1 = .ok v → ∀ later : List Occasion,
      ((a.after os).evaluateOn o).2.1.after later = ((a.after os).evaluateOn o).2.1 ∧
      (∀ uses, ((a.after os).evaluateOn o).2.1.Performs later uses → uses = []) ∧
      ∀ o', ((a.after os).evaluateOn o).2.1.evaluateOn o' =
        (.ok v, ((a.after os).evaluateOn o).2.1, o'.journal) := by
  have hsound := sound_of_read hread
  refine ⟨hsound.exists_performs os, fun uses hperforms ↦ ⟨hperforms.resolved_eq, fun id ↦ ?_⟩,
    fun o v hv later ↦ ?_⟩
  · have hbalance := hperforms.successes_add_waiting_le hsound id
    have hone := waiting_le_one a.nodes id
    omega
  · have hvalue := (hsound.after os).hasValue_of_evaluateOn hv
    exact ⟨hvalue.after_eq later, fun uses hperforms ↦ hvalue.uses_eq_nil hperforms,
      hvalue.evaluateOn_eq⟩

/-- A sum whose first part has been evaluated while its variable was unknown: with the variable, it
has its value, and keeps it when the variable has changed. -/
theorem evaluations_once_retried :
    ∃ a, (read .standard 1 {} "ADD(MUL(2,3),x)").1 = .ok a ∧
      (∀ uses, a.Performs [⟨.empty, 1, {}⟩, ⟨⟨[("x", .scalar 4)]⟩, 2, {}⟩] uses →
        a.resolved [⟨.empty, 1, {}⟩, ⟨⟨[("x", .scalar 4)]⟩, 2, {}⟩] = uses.filterMap Use.note? ∧
          ∀ id, successes id uses ≤ 1) ∧
      ∃ v, ((a.after [⟨.empty, 1, {}⟩]).evaluateOn ⟨⟨[("x", .scalar 4)]⟩, 2, {}⟩).1 = .ok v ∧
        (((a.after [⟨.empty, 1, {}⟩]).evaluateOn ⟨⟨[("x", .scalar 4)]⟩, 2, {}⟩).2.1.evaluateOn
          ⟨⟨[("x", .scalar 5)]⟩, 3, {}⟩).1 = .ok v := by
  have hvalue : ((read .standard 1 {} "ADD(MUL(2,3),x)").1.toOption.bind fun a ↦
      ((a.after [⟨.empty, 1, {}⟩]).evaluateOn
        ⟨⟨[("x", .scalar 4)]⟩, 2, {}⟩).1.toOption).isSome = true := by
    decide +kernel
  obtain ⟨v, hv⟩ := Option.isSome_iff_exists.1 hvalue
  obtain ⟨a, hread, hv⟩ := Option.bind_eq_some_iff.1 hv
  rw [toOption_eq_some_iff] at hread hv
  refine ⟨a, hread, (evaluations_once hread _).2.1, v, hv, ?_⟩
  rw [((evaluations_once hread _).2.2 _ v hv []).2.2]

end Arena

end MatrixScript
