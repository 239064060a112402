import MatrixScript.Builtin.Standard
import MatrixScript.Proofs.Denotation
import MatrixScript.Proofs.Evaluation

/-!
# Arenas that are evaluated again and again

An arena may be evaluated on one occasion after another, each with variables, a line and a journal
of its own. Whatever has succeeded and failed by then, the arena is **sound**: its nodes are tidy
and its root is the last one of them. `Sound.next` is the step, one evaluation; `Sound.after` is
the run, any number of them.

Sound arenas come from reading. A term is laid out behind nodes that are there already, and `Lays`
says what that does to them: they stay, and calls that are new refer to new nodes only. So the
last node of a term is nobody's argument (`Orphan`) until the call that it was laid out for is
put behind it.

What is known of tidy nodes then holds on every occasion (`evaluations_sound`): evaluation ends,
however deep it is allowed to go, and never asks for a node that has been released.
-/

namespace MatrixScript

namespace Arena

/-! ### Occasions -/

/-- What evaluating an arena depends on besides the arena. -/
structure Occasion where
  /-- The variables. -/
  store : Store
  /-- The line to report failures on. -/
  line : Nat
  /-- What is on record. -/
  journal : Journal

/-- The result of evaluating an arena on an occasion, with the arena and the journal after it. -/
def evaluateOn (a : Arena) (o : Occasion) : Except Diagnostic Value × Arena × Journal :=
  a.evaluate o.store o.line o.journal

/-- The arena after occasions on which it has been evaluated. -/
def after (a : Arena) : List Occasion → Arena
  | [] => a
  | o :: os => (a.evaluateOn o).2.1.after os

/-- Evaluating an arena on an occasion is an evaluation by the rules, with the given uses of
builtins. -/
def EvaluatesWith (a : Arena) (o : Occasion) (uses : List Use) : Prop :=
  Evaluates o.store o.line (a.nodes, o.journal) a.root uses (a.evaluateOn o).1
    ((a.evaluateOn o).2.1.nodes, (a.evaluateOn o).2.2)

/-- An arena whose nodes are tidy and end with its root. -/
structure Sound (r : Registry) (a : Arena) : Prop where
  /-- The nodes are tidy. -/
  tidy : Tidy r a.nodes
  /-- The root is the last node. -/
  root_last : a.root + 1 = a.nodes.size
  /-- The root has not been released. -/
  root_live : Live a.nodes a.root

variable {r : Registry} {a : Arena}

/-- A bound that is at least the number of nodes does not matter. -/
theorem Sound.evaluateNode_eq (h : a.Sound r) (o : Occasion) {bound : Nat}
    (hbound : a.nodes.size ≤ bound) :
    evaluateNode o.store o.line bound (a.nodes, o.journal) a.root =
      evaluateNode o.store o.line a.nodes.size (a.nodes, o.journal) a.root := by
  obtain ⟨uses, result, state, -, hrun⟩ :=
    evaluable o.store o.line a.root (a.nodes, o.journal) h.tidy h.root_live
  have hlast := h.root_last
  rw [hrun bound (by omega), hrun a.nodes.size (by omega)]

/-- Evaluating a sound arena goes by the rules. -/
theorem Sound.exists_evaluatesWith (h : a.Sound r) (o : Occasion) :
    ∃ uses, a.EvaluatesWith o uses := by
  obtain ⟨uses, result, ⟨nodes, j⟩, heval, hrun⟩ :=
    evaluable o.store o.line a.root (a.nodes, o.journal) h.tidy h.root_live
  have hlast := h.root_last
  refine ⟨uses, ?_⟩
  rw [EvaluatesWith, evaluateOn, evaluate, hrun a.nodes.size (by omega)]
  exact heval

/-- **Evaluating a sound arena leaves it sound.** -/
theorem Sound.next (h : a.Sound r) (o : Occasion) : (a.evaluateOn o).2.1.Sound r := by
  obtain ⟨uses, heval⟩ := h.exists_evaluatesWith o
  have hkeeps := heval.keeps h.tidy
  exact ⟨hkeeps.tidy, h.root_last.trans hkeeps.size.symm, heval.live h.tidy⟩

/-- However often a sound arena has been evaluated, it is sound. -/
theorem Sound.after (h : a.Sound r) (os : List Occasion) : (a.after os).Sound r := by
  induction os generalizing a with
  | nil => exact h
  | cons o os ih => exact ih (h.next o)

/-! ### Laying out behind tidy nodes -/

/-- A node that no call has as its argument. -/
def Orphan (nodes : Array Node) (c : Nat) : Prop :=
  ∀ (id : Nat) (b : Builtin) (args : List Nat) (result : Option Value),
    nodes[id]? = some (.call b args result) → c ∉ args

/-- What laying out makes of the nodes that are there. -/
structure Lays (r : Registry) (nodes nodes' : Array Node) : Prop where
  /-- The nodes after it are tidy. -/
  tidy : Tidy r nodes'
  /-- They are no fewer. -/
  size_le : nodes.size ≤ nodes'.size
  /-- The old ones are what they were. -/
  old : ∀ k < nodes.size, nodes'[k]? = nodes[k]?
  /-- New calls have new nodes for their arguments. -/
  new : ∀ (id : Nat) (b : Builtin) (args : List Nat) (result : Option Value), nodes.size ≤ id →
    nodes'[id]? = some (.call b args result) → ∀ c ∈ args, nodes.size ≤ c

variable {nodes nodes' nodes'' : Array Node} {c : Nat}

theorem Live.lt_size (h : Live nodes c) : c < nodes.size := by
  obtain ⟨n, hn, -⟩ := h
  exact lt_size_of_getElem? hn

theorem Tidy.orphan_of_le (h : Tidy r nodes) (hc : nodes.size ≤ c + 1) : Orphan nodes c := by
  intro id b args result hcall hmem
  match result with
  | none =>
    have hlt := h.lt hcall c hmem
    have hsize := lt_size_of_getElem? hcall
    omega
  | some v => exact absurd (h.nil hcall ▸ hmem) List.not_mem_nil

theorem Lays.refl (h : Tidy r nodes) : Lays r nodes nodes where
  tidy := h
  size_le := Nat.le_refl _
  old _ _ := rfl
  new id b args result hid hcall := by
    have hsize := lt_size_of_getElem? hcall
    omega

theorem Lays.trans (h : Lays r nodes nodes') (h' : Lays r nodes' nodes'') :
    Lays r nodes nodes'' where
  tidy := h'.tidy
  size_le := Nat.le_trans h.size_le h'.size_le
  old k hk := (h'.old k (Nat.lt_of_lt_of_le hk h.size_le)).trans (h.old k hk)
  new id b args result hid hcall c hc := by
    by_cases hlt : id < nodes'.size
    · exact h.new id b args result hid ((h'.old id hlt).symm.trans hcall) c hc
    · exact Nat.le_trans h.size_le (h'.new id b args result (Nat.le_of_not_lt hlt) hcall c hc)

theorem Lays.live (h : Lays r nodes nodes') (hc : Live nodes c) : Live nodes' c := by
  obtain ⟨n, hn, hne⟩ := hc
  exact ⟨n, (h.old c (lt_size_of_getElem? hn)).trans hn, hne⟩

/-- A node without a call that it belongs to does not get one from what is laid out behind it. -/
theorem Lays.orphan (h : Lays r nodes nodes') (hc : c < nodes.size) (horphan : Orphan nodes c) :
    Orphan nodes' c := by
  intro id b args result hcall hmem
  by_cases hlt : id < nodes.size
  · exact horphan id b args result ((h.old id hlt).symm.trans hcall) hmem
  · have hle := h.new id b args result (Nat.le_of_not_lt hlt) hcall c hmem
    omega

/-- A call can be put behind nodes: it has as many arguments as its builtin takes, all there and
without a call so far. -/
structure Fits (r : Registry) (nodes : Array Node) (b : Builtin) (args : List Nat) : Prop where
  mem : b ∈ r.entries
  length : args.length = b.arity
  nodup : args.Nodup
  live : ∀ c ∈ args, Live nodes c
  orphan : ∀ c ∈ args, Orphan nodes c

/-- Putting a node behind tidy nodes leaves them tidy if, being a call, it fits. -/
theorem Tidy.push (h : Tidy r nodes) {n : Node}
    (hn : ∀ b args result, n = .call b args result → result = none ∧ Fits r nodes b args) :
    Tidy r (nodes.push n) := by
  -- a call among the nodes is an old one or the one at the end
  have hcases : ∀ {id : Nat} {b : Builtin} {args : List Nat} {result : Option Value},
      (nodes.push n)[id]? = some (.call b args result) →
        nodes[id]? = some (.call b args result) ∨
          id = nodes.size ∧ result = none ∧ Fits r nodes b args := by
    intro id b args result hcall
    have hfits := hn b args result
    grind
  have hlive : ∀ {c : Nat}, Live nodes c → Live (nodes.push n) c := by
    rintro c ⟨m, hm, hne⟩
    refine ⟨m, ?_, hne⟩
    grind
  constructor
  case mem =>
    intro id b args hcall
    obtain hold | ⟨-, -, hnew⟩ := hcases hcall
    · exact h.mem hold
    · exact hnew.mem
  case lt =>
    intro id b args hcall c hc
    obtain hold | ⟨rfl, -, hnew⟩ := hcases hcall
    · exact h.lt hold c hc
    · exact (hnew.live c hc).lt_size
  case unique =>
    intro id id' b b' args args' result result' hcall hcall' c hc hc'
    obtain hold | ⟨rfl, -, hnew⟩ := hcases hcall
    · obtain hold' | ⟨rfl, -, hnew'⟩ := hcases hcall'
      · exact h.unique hold hold' c hc hc'
      · exact absurd hc (hnew'.orphan c hc' _ _ _ _ hold)
    · obtain hold' | ⟨rfl, -, hnew'⟩ := hcases hcall'
      · exact absurd hc' (hnew.orphan c hc _ _ _ _ hold')
      · rfl
  case nodup =>
    intro id b args result hcall
    obtain hold | ⟨-, -, hnew⟩ := hcases hcall
    · exact h.nodup hold
    · exact hnew.nodup
  case length =>
    intro id b args hcall
    obtain hold | ⟨-, -, hnew⟩ := hcases hcall
    · exact h.length hold
    · exact hnew.length
  case live =>
    intro id b args hcall c hc
    obtain hold | ⟨-, -, hnew⟩ := hcases hcall
    · exact hlive (h.live hold c hc)
    · exact hlive (hnew.live c hc)
  case nil =>
    intro id b args v hcall
    obtain hold | ⟨-, hnone, -⟩ := hcases hcall
    · exact h.nil hold
    · exact nomatch hnone

/-- A term is **laid out** behind nodes: there are more of them after it, and the last one has not
been released. -/
def LaysOut (r : Registry) (nodes nodes' : Array Node) : Prop :=
  Lays r nodes nodes' ∧ nodes.size < nodes'.size ∧ Live nodes' (nodes'.size - 1)

/-- Laying out ends with a node that, being a call, has new nodes for its arguments. -/
theorem Lays.push (h : Lays r nodes nodes') {n : Node} (hne : n ≠ .released)
    (hn : ∀ b args result, n = .call b args result →
      result = none ∧ Fits r nodes' b args ∧ ∀ c ∈ args, nodes.size ≤ c) :
    LaysOut r nodes (nodes'.push n) := by
  have hle := h.size_le
  refine ⟨⟨h.tidy.push fun b args result hcall ↦ ?_, ?_, fun k hk ↦ ?_, ?_⟩, ?_, n, ?_, hne⟩
  · obtain ⟨hnone, hfits, -⟩ := hn b args result hcall
    exact ⟨hnone, hfits⟩
  · rw [Array.size_push]
    omega
  · have hold := h.old k hk
    grind
  · intro id b args result hid hcall c hc
    have hold := h.new id b args result hid
    have hlast := hn b args result
    grind
  · rw [Array.size_push]
    omega
  · simp

/-- Laying out the arguments of a call gives nodes that the call can have. -/
theorem lays_layoutAll {ts : List Term}
    (h : ∀ t ∈ ts, ∀ nodes, Tidy r nodes → LaysOut r nodes (t.layout nodes)) (ht : Tidy r nodes) :
    Lays r nodes (Term.layoutAll ts nodes).2 ∧
      (Term.layoutAll ts nodes).1.length = ts.length ∧ (Term.layoutAll ts nodes).1.Nodup ∧
      ∀ c ∈ (Term.layoutAll ts nodes).1, nodes.size ≤ c ∧
        Live (Term.layoutAll ts nodes).2 c ∧ Orphan (Term.layoutAll ts nodes).2 c := by
  induction ts generalizing nodes with
  | nil => exact ⟨.refl ht, rfl, List.nodup_nil, fun c hc ↦ absurd hc List.not_mem_nil⟩
  | cons t ts ih =>
    obtain ⟨hlays, hlt, hlive⟩ := h t List.mem_cons_self nodes ht
    obtain ⟨hlays', hlength, hnodup, hids⟩ :=
      ih (fun u hu ↦ h u (List.mem_cons_of_mem t hu)) hlays.tidy
    have horphan : Orphan (t.layout nodes) ((t.layout nodes).size - 1) :=
      hlays.tidy.orphan_of_le (by omega)
    refine ⟨hlays.trans hlays', congrArg (· + 1) hlength, ?_, fun c hc ↦ ?_⟩
    · refine List.nodup_cons.2 ⟨fun hmem ↦ ?_, hnodup⟩
      have hle := (hids _ hmem).1
      omega
    · rcases List.mem_cons.1 hc with rfl | hc
      · exact ⟨by omega, hlays'.live hlive, hlays'.orphan hlive.lt_size horphan⟩
      · obtain ⟨hle, hc⟩ := hids c hc
        exact ⟨Nat.le_trans hlays.size_le hle, hc⟩

/-- A term that a text reads as is laid out behind any tidy nodes. -/
theorem laysOut_of_reads {text : String} {t : Term} (h : Term.Reads r text t) :
    ∀ nodes, Tidy r nodes → LaysOut r nodes (t.layout nodes) := by
  induction h with
  | value literal read =>
    intro nodes ht
    exact (Lays.refl ht).push (by simp) (by simp)
  | reference ne_empty literal call =>
    intro nodes ht
    exact (Lays.refl ht).push (by simp) (by simp)
  | @call text c b args literal split find count length arguments ih =>
    intro nodes ht
    obtain ⟨hlays, hlength, hnodup, hids⟩ :=
      lays_layoutAll (forall_of_forall_zip length ih) ht
    refine hlays.push (by simp) fun b' args' result hcall ↦ ?_
    cases hcall
    refine ⟨rfl, ⟨List.mem_of_find?_eq_some find, ?_, hnodup, ?_, ?_⟩, fun c hc ↦ (hids c hc).1⟩
    · rw [hlength, ← length, count]
    · exact fun c hc ↦ (hids c hc).2.1
    · exact fun c hc ↦ (hids c hc).2.2

/-- **Reading gives a sound arena.** -/
theorem sound_of_read {line : Nat} {j : Journal} {text : String}
    (h : (read r line j text).1 = .ok a) : a.Sound r := by
  obtain ⟨t, ht, rfl⟩ := read_eq_ok_iff.1 h
  have hempty : Tidy r #[] := by
    constructor <;> simp
  obtain ⟨hlays, hlt, hlive⟩ := laysOut_of_reads ht #[] hempty
  refine ⟨hlays.tidy, ?_, hlive⟩
  show (t.layout #[]).size - 1 + 1 = (t.layout #[]).size
  omega

/-! ### Every occasion -/

/-- **An arena that has been read is sound on every occasion**, however often it has been evaluated
before, and remains sound. So evaluating it ends: it goes by the rules, and a bound above the number
of nodes makes no difference. There is no rule for a node that has been released; if a failure says
that one was asked for, then these are the words of a builtin. -/
theorem evaluations_sound {line : Nat} {j : Journal} {text : String}
    (hread : (read r line j text).1 = .ok a) (os : List Occasion) :
    (a.after os).Sound r ∧ ∀ o : Occasion,
      ((a.after os).evaluateOn o).2.1.Sound r ∧
      (∃ uses, (a.after os).EvaluatesWith o uses) ∧
      (∀ bound, (a.after os).nodes.size ≤ bound →
        evaluateNode o.store o.line bound ((a.after os).nodes, o.journal) (a.after os).root =
          evaluateNode o.store o.line (a.after os).nodes.size ((a.after os).nodes, o.journal)
            (a.after os).root) ∧
      ∀ id, ((a.after os).evaluateOn o).1 = .error ((consumed id).onLine o.line) →
        ∃ b ∈ r.entries, ∃ operands,
          b.call operands o.line = .error ((consumed id).onLine o.line) := by
  have hsound := (sound_of_read hread).after os
  refine ⟨hsound, fun o ↦ ⟨hsound.next o, hsound.exists_evaluatesWith o,
    fun bound hbound ↦ hsound.evaluateNode_eq o hbound, fun id hid ↦ ?_⟩⟩
  obtain ⟨uses, heval⟩ := hsound.exists_evaluatesWith o
  obtain ⟨name, -, hname⟩ | hbuiltin := heval.founded hsound.tidy _ hid
  · exact nomatch congrArg Diagnostic.fault hname
  · exact hbuiltin

/-- A sum of which one part can be evaluated and the other cannot, on a first occasion without the
variable and on a second one with it. -/
theorem evaluations_sound_retried :
    ∃ a, (read .standard 1 {} "ADD(MUL(2,3),x)").1 = .ok a ∧
      (a.after [⟨.empty, 1, {}⟩]).Sound .standard ∧
      (a.after [⟨.empty, 1, {}⟩, ⟨⟨[("x", .scalar 4)]⟩, 2, {}⟩]).Sound .standard ∧
      ∃ uses, (a.after [⟨.empty, 1, {}⟩]).EvaluatesWith ⟨⟨[("x", .scalar 4)]⟩, 2, {}⟩ uses := by
  obtain ⟨a, hread⟩ : ∃ a, (read .standard 1 {} "ADD(MUL(2,3),x)").1 = .ok a := ⟨_, rfl⟩
  obtain ⟨hfirst, hsecond⟩ := evaluations_sound hread [⟨.empty, 1, {}⟩]
  obtain ⟨hnext, huses, -⟩ := hsecond ⟨⟨[("x", .scalar 4)]⟩, 2, {}⟩
  exact ⟨a, hread, hfirst, hnext, huses⟩

end Arena

end MatrixScript
