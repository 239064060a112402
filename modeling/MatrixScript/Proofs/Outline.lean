import MatrixScript.Arena

/-!
# Outlines of arenas

An outline is the tree that an arena stands for while it is evaluated: a term some of whose
variables have become values already and some of whose calls have been carried out. `Outline.arena`
lays an outline out flat. A call that has been carried out keeps the places of its arguments, all
of them released, so that the nodes around it stay where they are.

Outlines are evaluated by recursion on the tree (`Outline.evaluate`), without node numbers, bounds
or releases. The main statement is that this is what evaluating an arena does: every arena that
is an outline's is evaluated as the outline is, and what is left is the arena of what is left of
the outline (`evaluate_arena`). Since the arena of a term is the arena of an outline
(`arena_ofTerm`), it remains one however often it is evaluated, and nothing about evaluation has
to look at arrays again.

The induction behind it is on the outline, for arbitrary nodes before and after it
(`evaluatesInPlace`): evaluating one argument of a call must not disturb its neighbours.
-/

namespace MatrixScript

/-- What an arena stands for while it is evaluated. -/
inductive Outline
  /-- A literal's value, or that of a variable that has been looked up. -/
  | value (v : Value)
  /-- A variable that has not been looked up. -/
  | reference (name : String)
  /-- A call that has not been carried out. -/
  | call (builtin : Builtin) (arguments : List Outline)
  /-- A call that has been carried out, its arguments having taken up so many nodes. -/
  | done (builtin : Builtin) (v : Value) (released : Nat)

namespace Outline

/-- Induction on outlines, with one hypothesis for all arguments of a call. -/
@[elab_as_elim, induction_eliminator]
theorem induction {motive : Outline → Prop} (value : ∀ v, motive (.value v))
    (reference : ∀ name, motive (.reference name))
    (call : ∀ b args, (∀ a ∈ args, motive a) → motive (.call b args))
    (done : ∀ b v n, motive (.done b v n)) : ∀ o, motive o
  | .value v => value v
  | .reference name => reference name
  | .call b args => call b args fun a _ ↦ induction value reference call done a
  | .done b v n => done b v n

/-- Whether an outline has its value. -/
def hasValue : Outline → Bool
  | value _ | done .. => true
  | reference _ | call .. => false

/-! ### Laying outlines out -/

mutual

/-- The number of nodes of an outline. -/
def size : Outline → Nat
  | value _ | reference _ => 1
  | call _ args => sizeAll args + 1
  | done _ _ released => released + 1

/-- The number of nodes of several outlines. -/
def sizeAll : List Outline → Nat
  | [] => 0
  | o :: os => o.size + sizeAll os

end

/-- The numbers of the last nodes of outlines that are laid out one after the other. -/
def roots (start : Nat) : List Outline → List Nat
  | [] => []
  | o :: os => (start + o.size - 1) :: roots (start + o.size) os

mutual

/-- The nodes of an outline, the first one being number `start`. -/
def nodes (start : Nat) : Outline → List Node
  | value v => [.leaf v]
  | reference name => [.reference name]
  | call b args => nodesAll start args ++ [.call b (roots start args) none]
  | done b v released => List.replicate released .released ++ [.call b [] (some v)]

/-- The nodes of several outlines, one after the other. -/
def nodesAll (start : Nat) : List Outline → List Node
  | [] => []
  | o :: os => o.nodes start ++ nodesAll (start + o.size) os

end

/-- The last node of an outline. -/
def root (start : Nat) : Outline → Node
  | value v => .leaf v
  | reference name => .reference name
  | call b args => .call b (roots start args) none
  | done b v _ => .call b [] (some v)

/-- The arena of an outline. -/
def arena (o : Outline) : Arena :=
  ⟨(o.nodes 0).toArray, o.size - 1⟩

theorem size_pos (o : Outline) : 0 < o.size := by
  cases o <;> simp [size]

theorem length_nodesAll {os : List Outline}
    (h : ∀ o ∈ os, ∀ start, (o.nodes start).length = o.size) (start : Nat) :
    (nodesAll start os).length = sizeAll os := by
  induction os generalizing start with
  | nil => rfl
  | cons o os ih =>
    rw [nodesAll, sizeAll, List.length_append, h o (by simp),
      ih fun p hp ↦ h p (List.mem_cons_of_mem _ hp)]

/-- An outline has as many nodes as its size says. -/
@[simp]
theorem length_nodes (o : Outline) (start : Nat) : (o.nodes start).length = o.size := by
  induction o generalizing start with
  | value v => rfl
  | reference name => rfl
  | call b args ih => simp [nodes, size, length_nodesAll ih]
  | done b v n => simp [nodes, size]

/-! ### The outline of a term -/

mutual

/-- A term of which nothing has been evaluated. -/
def ofTerm : Term → Outline
  | .value v => .value v
  | .reference name => .reference name
  | .call b args => .call b (ofTerms args)

/-- Several terms of which nothing has been evaluated. -/
def ofTerms : List Term → List Outline
  | [] => []
  | t :: ts => ofTerm t :: ofTerms ts

end

theorem ofTerms_eq_map (ts : List Term) : ofTerms ts = ts.map ofTerm := by
  induction ts with
  | nil => rfl
  | cons t ts ih => rw [ofTerms, ih, List.map_cons]

end Outline

/-- Induction on terms, with one hypothesis for all arguments of a call. -/
@[elab_as_elim, induction_eliminator]
theorem Term.induction {motive : Term → Prop} (value : ∀ v, motive (.value v))
    (reference : ∀ name, motive (.reference name))
    (call : ∀ b args, (∀ a ∈ args, motive a) → motive (.call b args)) : ∀ t, motive t
  | .value v => value v
  | .reference name => reference name
  | .call b args => call b args fun a _ ↦ Term.induction value reference call a

namespace Outline

theorem layoutAll_eq {ts : List Term}
    (h : ∀ t ∈ ts, ∀ ns : List Node,
      t.layout ns.toArray = (ns ++ (ofTerm t).nodes ns.length).toArray) (ns : List Node) :
    Term.layoutAll ts ns.toArray =
      (roots ns.length (ofTerms ts), (ns ++ nodesAll ns.length (ofTerms ts)).toArray) := by
  induction ts generalizing ns with
  | nil => simp [Term.layoutAll, ofTerms, roots, nodesAll]
  | cons t ts ih =>
    have htail := ih (fun u hu ↦ h u (List.mem_cons_of_mem _ hu))
      (ns ++ (ofTerm t).nodes ns.length)
    rw [List.length_append, length_nodes] at htail
    simp only [Term.layoutAll, h t (by simp), htail, ofTerms, roots, nodesAll,
      List.append_assoc, List.size_toArray, List.length_append, length_nodes]

/-- A term lays out as its outline does, after any nodes. -/
theorem layout_eq (t : Term) (ns : List Node) :
    t.layout ns.toArray = (ns ++ (ofTerm t).nodes ns.length).toArray := by
  induction t generalizing ns with
  | value v => simp [Term.layout, ofTerm, nodes]
  | reference name => simp [Term.layout, ofTerm, nodes]
  | call b args ih => simp [Term.layout, ofTerm, nodes, layoutAll_eq ih]

/-- **The arena of a term is that of its outline.** -/
theorem arena_ofTerm (t : Term) : Arena.ofTerm t = (ofTerm t).arena := by
  have h := layout_eq t []
  simp only [List.nil_append, List.length_nil] at h
  simp [Arena.ofTerm, arena, h]

/-! ### Evaluating outlines -/

mutual

/-- Gives an outline its value. The outline's first node is number `start`, which matters for the
notes on the way only. -/
def evaluate (s : Store) (line start : Nat) (j : Journal) :
    Outline → Except Diagnostic Value × Outline × Journal
  | value v => (.ok v, value v, j)
  | done b v released => (.ok v, done b v released, j)
  | reference name =>
    match s.lookup name with
    | .ok v => (.ok v, value v, j)
    | .error e => (.error (e.fault.onLine line), reference name, j)
  | call b args =>
    match evaluateAll s line start j args with
    | (results, args, j) =>
      match j.settle results with
      | (.error d, j) => (.error d, call b args, j)
      | (.ok operands, j) =>
        match b.call operands line with
        | .error d => (.error d, call b args, j)
        | .ok v =>
          (.ok v, done b v (sizeAll args), j.note (.resolved (start + sizeAll args) b.name v.kind))

/-- Gives outlines their values, from left to right, whether some of them fail or not. -/
def evaluateAll (s : Store) (line start : Nat) (j : Journal) :
    List Outline → List (Except Diagnostic Value) × List Outline × Journal
  | [] => ([], [], j)
  | o :: os =>
    match evaluate s line start j o with
    | (r, o', j) =>
      match evaluateAll s line (start + o.size) j os with
      | (rs, os', j) => (r :: rs, o' :: os', j)

end

theorem sizeAll_evaluateAll {s : Store} {line : Nat} {os : List Outline}
    (h : ∀ o ∈ os, ∀ start j, (o.evaluate s line start j).2.1.size = o.size) (start : Nat)
    (j : Journal) : sizeAll (evaluateAll s line start j os).2.1 = sizeAll os := by
  induction os generalizing start j with
  | nil => rfl
  | cons o os ih =>
    have htail := ih fun p hp ↦ h p (List.mem_cons_of_mem _ hp)
    simp only [evaluateAll, sizeAll, h o (by simp), htail]

/-- Evaluating keeps the number of nodes. -/
@[simp]
theorem size_evaluate (s : Store) (line : Nat) (o : Outline) (start : Nat) (j : Journal) :
    (o.evaluate s line start j).2.1.size = o.size := by
  induction o generalizing start j with
  | value v => rfl
  | done b v n => rfl
  | reference name =>
    rw [evaluate]
    cases s.lookup name <;> rfl
  | call b args ih =>
    have hargs := sizeAll_evaluateAll ih start j
    rcases hall : evaluateAll s line start j args with ⟨results, args', j'⟩
    rw [hall] at hargs
    simp only [evaluate, hall]
    rcases j'.settle results with ⟨d | operands, j''⟩
    · simp [size, hargs]
    · rcases hb : b.call operands line with d | v <;> simp [size, hargs, hb]

/-- Evaluating keeps the numbers of the last nodes. -/
theorem roots_evaluateAll (s : Store) (line start : Nat) (j : Journal) (os : List Outline) :
    roots start (evaluateAll s line start j os).2.1 = roots start os := by
  induction os generalizing start j with
  | nil => rfl
  | cons o os ih => simp only [evaluateAll, roots, size_evaluate, ih]

/-- An outline that has been evaluated with success has its value. -/
theorem hasValue_of_evaluate {s : Store} {line start : Nat} {j : Journal} {o : Outline} {v : Value}
    (h : (o.evaluate s line start j).1 = .ok v) :
    (o.evaluate s line start j).2.1.hasValue = true := by
  cases o with
  | value v => rfl
  | done b v n => rfl
  | reference name =>
    rw [evaluate] at h ⊢
    cases hl : s.lookup name with
    | ok v => rfl
    | error e =>
      rw [hl] at h
      cases h
  | call b args =>
    simp only [evaluate] at h ⊢
    split at h
    · cases h
    · split at h
      · cases h
      · rfl

theorem hasValue_of_evaluateAll {s : Store} {line start : Nat} {j : Journal} {os : List Outline}
    {vs : List Value} (h : (evaluateAll s line start j os).1 = vs.map .ok) :
    ∀ o ∈ (evaluateAll s line start j os).2.1, o.hasValue = true := by
  induction os generalizing start j vs with
  | nil => simp [evaluateAll]
  | cons o os ih =>
    simp only [evaluateAll] at h ⊢
    cases vs with
    | nil => cases h
    | cons v vs =>
      obtain ⟨hhead, htail⟩ := List.cons.inj h
      intro p hp
      rcases List.mem_cons.1 hp with rfl | hp
      · exact hasValue_of_evaluate hhead
      · exact ih htail p hp

/-! ### Evaluating their arenas -/

/-- Releasing the last node of an outline that has its value releases all its nodes. -/
theorem nodes_set_of_hasValue {o : Outline} (h : o.hasValue = true) (start : Nat) :
    (o.nodes start).set (o.size - 1) .released = List.replicate o.size Node.released := by
  cases o with
  | value v => rfl
  | reference name => cases h
  | call b args => cases h
  | done b v n => simp [nodes, size, List.replicate_succ']

/-- **Releasing the arguments of a call** that all have their values releases all their nodes and
no others. -/
theorem release_nodesAll {os : List Outline} (h : ∀ o ∈ os, o.hasValue = true)
    (before after : List Node) :
    Arena.release (before ++ nodesAll before.length os ++ after).toArray (roots before.length os) =
      (before ++ List.replicate (sizeAll os) Node.released ++ after).toArray := by
  induction os generalizing before with
  | nil => simp [Arena.release, roots, nodesAll, sizeAll]
  | cons o os ih =>
    have hpos := o.size_pos
    have htail := ih (fun p hp ↦ h p (List.mem_cons_of_mem _ hp))
      (before ++ List.replicate o.size .released)
    rw [List.length_append, List.length_replicate] at htail
    have hset : (before ++ (o.nodes before.length ++ nodesAll (before.length + o.size) os) ++
        after).set (before.length + o.size - 1) .released =
        before ++ List.replicate o.size .released ++ nodesAll (before.length + o.size) os ++
          after := by
      rw [← List.append_assoc before, List.append_assoc, List.append_assoc,
        List.set_append_right _ _ (by omega),
        List.set_append_left _ _ (by rw [length_nodes]; omega),
        show before.length + o.size - 1 - before.length = o.size - 1 by omega,
        nodes_set_of_hasValue (h o (by simp))]
      simp only [List.append_assoc]
    rw [Arena.release] at htail ⊢
    rw [roots, List.foldl_cons, nodesAll, List.setIfInBounds_toArray, hset, htail, sizeAll,
      ← List.replicate_append_replicate]
    simp only [List.append_assoc]

/-- A call that has its value, in the place of one whose arguments all have theirs. -/
theorem release_call {os : List Outline} (h : ∀ o ∈ os, o.hasValue = true)
    (before after : List Node) (n : Node) (b : Builtin) (v : Value) :
    (Arena.release (before ++ nodesAll before.length os ++ n :: after).toArray
        (roots before.length os)).setIfInBounds (before.length + sizeAll os)
        (.call b [] (some v)) =
      (before ++ (done b v (sizeAll os)).nodes before.length ++ after).toArray := by
  rw [release_nodesAll h, List.setIfInBounds_toArray, List.set_append_right _ _ (by simp)]
  simp [nodes]

/-- The last node of an outline is found where the outline ends. -/
theorem getElem?_root (o : Outline) (before after : List Node) :
    (before ++ o.nodes before.length ++ after)[before.length + o.size - 1]? =
      some (o.root before.length) := by
  cases o with
  | value v => simp [nodes, size, root]
  | reference name => simp [nodes, size, root]
  | done b v n => simp [nodes, size, root]
  | call b args =>
    have hlength : (nodesAll before.length args).length = sizeAll args :=
      length_nodesAll (fun o _ ↦ length_nodes o) _
    simp [nodes, size, root, ← hlength]

/-- A node limit suffices for evaluating an outline where it lies: whatever stands before and
after it, evaluating its last node is evaluating the outline. -/
def EvaluatesInPlace (s : Store) (line bound : Nat) (o : Outline) : Prop :=
  ∀ (before after : List Node) (j : Journal), before.length + o.size ≤ bound →
    Arena.evaluateNode s line bound ((before ++ o.nodes before.length ++ after).toArray, j)
        (before.length + o.size - 1) =
      ((o.evaluate s line before.length j).1,
        (before ++ (o.evaluate s line before.length j).2.1.nodes before.length ++ after).toArray,
        (o.evaluate s line before.length j).2.2)

/-- The arguments of a call are evaluated where they lie if each of them is. -/
theorem attemptAll_nodesAll {s : Store} {line bound : Nat} {os : List Outline}
    (h : ∀ o ∈ os, EvaluatesInPlace s line bound o) (before after : List Node) (j : Journal)
    (hbound : before.length + sizeAll os ≤ bound) :
    attemptAll (Arena.evaluateNode s line bound)
        ((before ++ nodesAll before.length os ++ after).toArray, j) (roots before.length os) =
      ((evaluateAll s line before.length j os).1,
        (before ++ nodesAll before.length (evaluateAll s line before.length j os).2.1 ++
          after).toArray,
        (evaluateAll s line before.length j os).2.2) := by
  induction os generalizing before j with
  | nil => simp [attemptAll, roots, nodesAll, evaluateAll]
  | cons o os ih =>
    rw [sizeAll] at hbound
    have hhead := h o (by simp) before (nodesAll (before.length + o.size) os ++ after) j (by omega)
    have hsize := size_evaluate s line o before.length j
    rcases ho : o.evaluate s line before.length j with ⟨r, o', j'⟩
    rw [ho] at hhead hsize
    -- the rest of the arguments, behind what has become of the first one
    have htail := ih (fun p hp ↦ h p (List.mem_cons_of_mem _ hp))
      (before ++ o'.nodes before.length) j'
      (by rw [List.length_append, length_nodes, hsize]; omega)
    rw [List.length_append, length_nodes, hsize] at htail
    simp only [List.append_assoc] at hhead htail
    simp only [attemptAll, roots, nodesAll, evaluateAll, ho, List.append_assoc, hhead, htail, hsize]

/-- **Evaluating a node is evaluating the outline that it ends**, for every bound that the node's
number stays below. -/
theorem evaluatesInPlace (s : Store) (line bound : Nat) (o : Outline) :
    EvaluatesInPlace s line bound o := by
  induction o generalizing bound with
  | value v =>
    intro before after j hbound
    obtain ⟨bound, rfl⟩ : ∃ k, bound = k + 1 := ⟨bound - 1, by rw [size] at hbound; omega⟩
    rw [Arena.evaluateNode, List.getElem?_toArray, getElem?_root]
    rfl
  | done b v n =>
    intro before after j hbound
    obtain ⟨bound, rfl⟩ : ∃ k, bound = k + 1 := ⟨bound - 1, by rw [size] at hbound; omega⟩
    rw [Arena.evaluateNode, List.getElem?_toArray, getElem?_root]
    rfl
  | reference name =>
    intro before after j hbound
    obtain ⟨bound, rfl⟩ : ∃ k, bound = k + 1 := ⟨bound - 1, by rw [size] at hbound; omega⟩
    rw [Arena.evaluateNode, List.getElem?_toArray, getElem?_root]
    simp only [root, evaluate]
    cases s.lookup name with
    | error e => rfl
    | ok v => simp [nodes, size]
  | call b args ih =>
    intro before after j hbound
    obtain ⟨bound, rfl⟩ : ∃ k, bound = k + 1 := ⟨bound - 1, by rw [size] at hbound; omega⟩
    rw [size] at hbound
    have hargs := attemptAll_nodesAll (fun o ho ↦ ih o ho bound) before
      (.call b (roots before.length args) none :: after) j (by omega)
    have hroots := roots_evaluateAll s line before.length j args
    have hsize : sizeAll (evaluateAll s line before.length j args).2.1 = sizeAll args :=
      sizeAll_evaluateAll (fun o _ ↦ size_evaluate s line o) before.length j
    have hvalues : ∀ vs : List Value, (evaluateAll s line before.length j args).1 = vs.map .ok →
        ∀ o ∈ (evaluateAll s line before.length j args).2.1, o.hasValue = true :=
      fun vs ↦ hasValue_of_evaluateAll
    have hstate : before ++ nodes before.length (call b args) ++ after =
        before ++ nodesAll before.length args ++
          .call b (roots before.length args) none :: after := by
      simp [nodes]
    rw [Arena.evaluateNode, List.getElem?_toArray, getElem?_root, hstate]
    rcases hall : evaluateAll s line before.length j args with ⟨results, args', j'⟩
    rw [hall] at hargs hroots hsize hvalues
    simp only [root, evaluate, hall, hargs]
    -- the call goes on as its arguments allow, on both sides alike
    rcases hsettle : j'.settle results with ⟨d | operands, j''⟩
    · simp [nodes, hroots]
    · obtain ⟨hoperands, rfl⟩ := Journal.settle_eq_ok hsettle
      rcases hcall : b.call operands line with d | v
      · simp [nodes, hroots, hcall]
      · have hrelease := release_call (hvalues operands hoperands) before after
          (.call b (roots before.length args) none) b v
        rw [hroots, hsize] at hrelease
        have hid : before.length + (call b args).size - 1 = before.length + sizeAll args := by
          rw [size]
          omega
        simp only [hcall, hid, hrelease, hsize]

/-- **An outline's arena is evaluated as the outline is**, and remains an outline's arena. -/
theorem evaluate_arena (o : Outline) (s : Store) (line : Nat) (j : Journal) :
    o.arena.evaluate s line j =
      ((o.evaluate s line 0 j).1, (o.evaluate s line 0 j).2.1.arena,
        (o.evaluate s line 0 j).2.2) := by
  have h := evaluatesInPlace s line o.size o [] [] j (by simp)
  simp only [List.nil_append, List.append_nil, List.length_nil, Nat.zero_add] at h
  simp only [Arena.evaluate, arena, List.size_toArray, length_nodes, h, size_evaluate]

end Outline

/-! ### The term that an arena stands for -/

namespace Arena

/-- The term of node `id`, if there is one no more than `bound` nodes deep: no node of it has been
evaluated or released. -/
def termAt? (nodes : Array Node) : (bound : Nat) → (id : Nat) → Option Term
  | 0, _ => none
  | bound + 1, id =>
    match nodes[id]? with
    | some (.leaf v) => some (.value v)
    | some (.reference name) => some (.reference name)
    | some (.call b ids none) => (ids.mapM (termAt? nodes bound)).map (.call b)
    | _ => none

/-- The term that an arena stands for, read from the root. -/
def term? (a : Arena) : Option Term :=
  termAt? a.nodes a.nodes.size a.root

end Arena

namespace Outline

theorem mapM_termAt?_roots {bound : Nat} {ts : List Term}
    (ih : ∀ t ∈ ts, ∀ before after : List Node, before.length + (ofTerm t).size ≤ bound →
      Arena.termAt? (before ++ (ofTerm t).nodes before.length ++ after).toArray bound
        (before.length + (ofTerm t).size - 1) = some t)
    (before after : List Node) (hbound : before.length + sizeAll (ofTerms ts) ≤ bound) :
    (roots before.length (ofTerms ts)).mapM
        (Arena.termAt? (before ++ nodesAll before.length (ofTerms ts) ++ after).toArray bound) =
      some ts := by
  induction ts generalizing before with
  | nil => rfl
  | cons t ts ihts =>
    rw [ofTerms, sizeAll] at hbound
    have hhead := ih t (by simp) before
      (nodesAll (before.length + (ofTerm t).size) (ofTerms ts) ++ after) (by omega)
    -- the other terms lie behind the nodes of the first one
    have htail := ihts (fun u hu ↦ ih u (List.mem_cons_of_mem _ hu))
      (before ++ (ofTerm t).nodes before.length)
      (by rw [List.length_append, length_nodes]; omega)
    rw [List.length_append, length_nodes] at htail
    simp only [List.append_assoc] at hhead htail
    simp only [ofTerms, roots, nodesAll, List.append_assoc, List.mapM_cons, hhead, htail]
    rfl

/-- The term of an outline is found where the outline lies, whatever stands before and after. -/
theorem termAt?_nodes_ofTerm (t : Term) : ∀ (bound : Nat) (before after : List Node),
    before.length + (ofTerm t).size ≤ bound →
      Arena.termAt? (before ++ (ofTerm t).nodes before.length ++ after).toArray bound
        (before.length + (ofTerm t).size - 1) = some t := by
  induction t with
  | value v =>
    intro bound before after hbound
    obtain ⟨bound, rfl⟩ : ∃ k, bound = k + 1 :=
      ⟨bound - 1, by rw [ofTerm, size] at hbound; omega⟩
    rw [Arena.termAt?, List.getElem?_toArray, getElem?_root]
    rfl
  | reference name =>
    intro bound before after hbound
    obtain ⟨bound, rfl⟩ : ∃ k, bound = k + 1 :=
      ⟨bound - 1, by rw [ofTerm, size] at hbound; omega⟩
    rw [Arena.termAt?, List.getElem?_toArray, getElem?_root]
    rfl
  | call b args ih =>
    intro bound before after hbound
    rw [ofTerm, size] at hbound
    obtain ⟨bound, rfl⟩ : ∃ k, bound = k + 1 := ⟨bound - 1, by omega⟩
    have hargs := mapM_termAt?_roots (fun t ht ↦ ih t ht bound) before
      (.call b (roots before.length (ofTerms args)) none :: after) (by omega)
    have hstate : before ++ (ofTerm (.call b args)).nodes before.length ++ after =
        before ++ nodesAll before.length (ofTerms args) ++
          .call b (roots before.length (ofTerms args)) none :: after := by
      simp [ofTerm, nodes]
    rw [Arena.termAt?, List.getElem?_toArray, getElem?_root, hstate]
    simp only [ofTerm, root, hargs, Option.map_some]

/-- **The arena of a term stands for the term.** -/
theorem term?_ofTerm (t : Term) : (Arena.ofTerm t).term? = some t := by
  have h := termAt?_nodes_ofTerm t (ofTerm t).size [] [] (by simp)
  simp only [List.nil_append, List.append_nil, List.length_nil, Nat.zero_add] at h
  rw [arena_ofTerm, Arena.term?, arena, List.size_toArray, length_nodes, h]

end Outline

end MatrixScript
