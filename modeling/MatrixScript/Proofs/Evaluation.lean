import MatrixScript.Arena

/-!
# Evaluation by rules

`Arena.evaluateNode` goes by a bound on its depth and has an answer for nodes that have been
released. Neither belongs to what evaluation is: `Evaluates` says it by rules, with one rule for
each thing that can come of a node. There is no bound and no rule for a released node, so a
derivation is an evaluation that ends and asks for no such node. On the way it takes down which
builtins were used, by which nodes and with what result.

An arena is **tidy** if every call that waits for its value has its arguments before it, all there
and all its own. The main statements are these.

* `Evaluates.keeps`: evaluating a node of a tidy arena leaves it tidy, and the nodes behind that
  node as they were.
* `evaluable`: every node of a tidy arena that has not been released can be evaluated by the
  rules, and `evaluateNode` does just that under any bound above the node's number.

The first is by induction on derivations. The second is by induction on the number of the node:
while the arguments of a call are evaluated, the call itself stays what it was, and a tidy arena
has not released the arguments of a call that waits for them.
-/

namespace MatrixScript

/-- The value of a node that has one. -/
def Node.value? : Node → Option Value
  | .leaf v | .call _ _ (some v) => some v
  | .reference _ | .call _ _ none | .released => none

namespace Arena

/-! ### The rules -/

/-- One use of a builtin: the node that calls it, the values of the arguments, and the result. -/
structure Use where
  /-- The number of the node. -/
  node : Nat
  /-- The builtin that it calls. -/
  builtin : Builtin
  /-- The values of the arguments. -/
  operands : List Value
  /-- What the builtin made of them. -/
  result : Except Diagnostic Value

mutual

/-- Evaluating a node leads from a state to a state, with a result and uses of builtins. -/
inductive Evaluates (s : Store) (line : Nat) :
    State → Nat → List Use → Except Diagnostic Value → State → Prop
  /-- A node that has its value keeps it. -/
  | known {nodes : Array Node} {j : Journal} {id : Nat} {n : Node} {v : Value}
    (node : nodes[id]? = some n) (value : n.value? = some v) :
    Evaluates s line (nodes, j) id [] (.ok v) (nodes, j)
  /-- A variable becomes the value that it has. -/
  | found {nodes : Array Node} {j : Journal} {id : Nat} {name : String} {v : Value}
    (node : nodes[id]? = some (.reference name)) (find : s.find? name = some v) :
    Evaluates s line (nodes, j) id [] (.ok v) (nodes.setIfInBounds id (.leaf v), j)
  /-- An unknown variable fails. -/
  | unknown {nodes : Array Node} {j : Journal} {id : Nat} {name : String}
    (node : nodes[id]? = some (.reference name)) (find : s.find? name = none) :
    Evaluates s line (nodes, j) id [] (.error ((Fault.undeclared name).onLine line)) (nodes, j)
  /-- A call with failing arguments returns the last failure and records the others. -/
  | failing {nodes nodes' : Array Node} {j j' : Journal} {id : Nat} {b : Builtin} {args : List Nat}
    {uses : List Use} {results : List (Except Diagnostic Value)} {earlier : List Diagnostic}
    {d : Diagnostic} (node : nodes[id]? = some (.call b args none))
    (all : EvaluatesAll s line (nodes, j) args uses results (nodes', j'))
    (failures : failures results = earlier ++ [d]) :
    Evaluates s line (nodes, j) id uses (.error d) (nodes', j'.recordAll earlier)
  /-- A call that its builtin refuses keeps its arguments. -/
  | refused {nodes nodes' : Array Node} {j j' : Journal} {id : Nat} {b : Builtin} {args : List Nat}
    {uses : List Use} {operands : List Value} {d : Diagnostic}
    (node : nodes[id]? = some (.call b args none))
    (all : EvaluatesAll s line (nodes, j) args uses (operands.map .ok) (nodes', j'))
    (call : b.call operands line = .error d) :
    Evaluates s line (nodes, j) id (uses ++ [⟨id, b, operands, .error d⟩]) (.error d) (nodes', j')
  /-- A call that is carried out keeps its value and releases its arguments. -/
  | carriedOut {nodes nodes' : Array Node} {j j' : Journal} {id : Nat} {b : Builtin}
    {args : List Nat} {uses : List Use} {operands : List Value} {v : Value}
    (node : nodes[id]? = some (.call b args none))
    (all : EvaluatesAll s line (nodes, j) args uses (operands.map .ok) (nodes', j'))
    (call : b.call operands line = .ok v) :
    Evaluates s line (nodes, j) id (uses ++ [⟨id, b, operands, .ok v⟩]) (.ok v)
      ((release nodes' args).setIfInBounds id (.call b [] (some v)),
        j'.note (.resolved id b.name v.kind))

/-- Evaluating nodes one after the other, whether some of them fail or not. -/
inductive EvaluatesAll (s : Store) (line : Nat) :
    State → List Nat → List Use → List (Except Diagnostic Value) → State → Prop
  | nil {state : State} : EvaluatesAll s line state [] [] [] state
  | cons {state state' state'' : State} {id : Nat} {ids : List Nat} {uses uses' : List Use}
    {result : Except Diagnostic Value} {results : List (Except Diagnostic Value)}
    (head : Evaluates s line state id uses result state')
    (tail : EvaluatesAll s line state' ids uses' results state'') :
    EvaluatesAll s line state (id :: ids) (uses ++ uses') (result :: results) state''

end

/-! ### Tidy nodes -/

/-- A node is there and has not been released. -/
def Live (nodes : Array Node) (id : Nat) : Prop :=
  ∃ n, nodes[id]? = some n ∧ n ≠ .released

/-- Calls have their arguments to themselves until they have their values, and then no more. -/
structure Tidy (r : Registry) (nodes : Array Node) : Prop where
  /-- A call that waits for its value calls a registered builtin. -/
  mem : ∀ {id : Nat} {b : Builtin} {args : List Nat},
    nodes[id]? = some (.call b args none) → b ∈ r.entries
  /-- The arguments of a call that waits for its value come before it. -/
  lt : ∀ {id : Nat} {b : Builtin} {args : List Nat},
    nodes[id]? = some (.call b args none) → ∀ c ∈ args, c < id
  /-- No node is an argument of two calls. -/
  unique : ∀ {id id' : Nat} {b b' : Builtin} {args args' : List Nat}
    {result result' : Option Value},
    nodes[id]? = some (.call b args result) → nodes[id']? = some (.call b' args' result') →
      ∀ c ∈ args, c ∈ args' → id = id'
  /-- No node is an argument of one call twice. -/
  nodup : ∀ {id : Nat} {b : Builtin} {args : List Nat} {result : Option Value},
    nodes[id]? = some (.call b args result) → args.Nodup
  /-- A call that waits for its value has as many arguments as its builtin takes. -/
  length : ∀ {id : Nat} {b : Builtin} {args : List Nat},
    nodes[id]? = some (.call b args none) → args.length = b.arity
  /-- None of them has been released. -/
  live : ∀ {id : Nat} {b : Builtin} {args : List Nat},
    nodes[id]? = some (.call b args none) → ∀ c ∈ args, Live nodes c
  /-- A call that has its value has no arguments. -/
  nil : ∀ {id : Nat} {b : Builtin} {args : List Nat} {v : Value},
    nodes[id]? = some (.call b args (some v)) → args = []

variable {r : Registry} {nodes nodes' nodes'' : Array Node}

/-- Nodes remain tidy if no call comes to wait for its value, those that have one have no
arguments, and no argument of a waiting call is released. -/
theorem Tidy.of_calls (h : Tidy r nodes)
    (waiting : ∀ (id : Nat) (b : Builtin) (args : List Nat),
      nodes'[id]? = some (.call b args none) → nodes[id]? = some (.call b args none))
    (nil : ∀ (id : Nat) (b : Builtin) (args : List Nat) (v : Value),
      nodes'[id]? = some (.call b args (some v)) → args = [])
    (live : ∀ (id : Nat) (b : Builtin) (args : List Nat),
      nodes'[id]? = some (.call b args none) → ∀ c ∈ args, Live nodes' c) :
    Tidy r nodes' where
  mem hcall := h.mem (waiting _ _ _ hcall)
  lt hcall := h.lt (waiting _ _ _ hcall)
  unique {id id' b b' args args' result result'} hcall hcall' c hc hc' := by
    -- a call with an argument has no value yet
    match result, result' with
    | none, none => exact h.unique (waiting _ _ _ hcall) (waiting _ _ _ hcall') c hc hc'
    | some v, _ => exact absurd (nil _ _ _ _ hcall ▸ hc) List.not_mem_nil
    | none, some v => exact absurd (nil _ _ _ _ hcall' ▸ hc') List.not_mem_nil
  nodup {id b args result} hcall := by
    match result with
    | none => exact h.nodup (waiting _ _ _ hcall)
    | some v => exact nil _ _ _ _ hcall ▸ List.nodup_nil
  length hcall := h.length (waiting _ _ _ hcall)
  live hcall := live _ _ _ hcall
  nil hcall := nil _ _ _ _ hcall

theorem lt_size_of_getElem? {n : Node} {id : Nat} (h : nodes[id]? = some n) : id < nodes.size :=
  (Array.getElem?_eq_some_iff.1 h).1

theorem getElem?_setIfInBounds_self {id : Nat} {n m : Node} (h : nodes[id]? = some n) :
    (nodes.setIfInBounds id m)[id]? = some m :=
  Array.getElem?_setIfInBounds_self_of_lt (lt_size_of_getElem? h)

theorem size_release (nodes : Array Node) (ids : List Nat) :
    (release nodes ids).size = nodes.size := by
  unfold release
  induction ids generalizing nodes with
  | nil => rfl
  | cons id ids ih => rw [List.foldl_cons, ih, Array.size_setIfInBounds]

/-- Releasing nodes changes nothing but these. -/
theorem getElem?_release (nodes : Array Node) (ids : List Nat) (k : Nat) :
    (release nodes ids)[k]? =
      if k ∈ ids then nodes[k]?.map fun _ ↦ Node.released else nodes[k]? := by
  unfold release
  induction ids generalizing nodes with
  | nil => simp
  | cons id ids ih =>
    rw [List.foldl_cons, ih]
    grind

/-- Looking a variable up leaves the nodes tidy. -/
theorem Tidy.setLeaf (h : Tidy r nodes) (id : Nat) (v : Value) :
    Tidy r (nodes.setIfInBounds id (.leaf v)) := by
  have hold : ∀ (k : Nat) (b : Builtin) (args : List Nat) (result : Option Value),
      (nodes.setIfInBounds id (.leaf v))[k]? = some (.call b args result) →
        nodes[k]? = some (.call b args result) := by
    grind
  refine h.of_calls (fun k b args hcall ↦ hold k b args _ hcall)
    (fun k b args v hcall ↦ h.nil (hold k b args _ hcall)) fun k b args hcall c hc ↦ ?_
  obtain ⟨n, hn, hne⟩ := h.live (hold k b args _ hcall) c hc
  rw [Live]
  grind

/-- Carrying a call out gives it its value, releases its arguments and changes nothing else. -/
theorem getElem?_carryOut {id : Nat} {n : Node} (hid : nodes[id]? = some n) (b : Builtin)
    (args : List Nat) (v : Value) (k : Nat) :
    ((release nodes args).setIfInBounds id (.call b [] (some v)))[k]? =
      if k = id then some (.call b [] (some v))
      else if k ∈ args then nodes[k]?.map fun _ ↦ Node.released else nodes[k]? := by
  have hlt := lt_size_of_getElem? hid
  have hsize := size_release nodes args
  have hrelease := getElem?_release nodes args k
  grind

/-- Carrying a call out leaves the nodes tidy. -/
theorem Tidy.carryOut (h : Tidy r nodes) {id : Nat} {b : Builtin} {args : List Nat}
    (hcall : nodes[id]? = some (.call b args none)) (v : Value) :
    Tidy r ((release nodes args).setIfInBounds id (.call b [] (some v))) := by
  have hget := getElem?_carryOut hcall b args v
  have hold : ∀ (k : Nat) (b' : Builtin) (args' : List Nat) (result : Option Value),
      ((release nodes args).setIfInBounds id (.call b [] (some v)))[k]? =
        some (.call b' args' result) →
          args' = [] ∧ some v = result ∨ k ≠ id ∧ nodes[k]? = some (.call b' args' result) := by
    intro k b' args' result hk
    rw [hget] at hk
    split at hk
    · cases hk
      exact .inl ⟨rfl, rfl⟩
    · next hne =>
      split at hk
      · simp at hk
      · exact .inr ⟨hne, hk⟩
  have hwaiting (k : Nat) (b' : Builtin) (args' : List Nat) hk :=
    (hold k b' args' none hk).resolve_left fun hdone ↦ Option.some_ne_none v hdone.2
  refine h.of_calls (fun k b' args' hk ↦ (hwaiting k b' args' hk).2)
    (fun k b' args' v' hk ↦ ?_) fun k b' args' hk c hc ↦ ?_
  · exact (hold k b' args' _ hk).elim And.left fun hk ↦ h.nil hk.2
  · -- an argument of another call is none of the released ones
    obtain ⟨hne, hk⟩ := hwaiting k b' args' hk
    obtain ⟨n, hn, hlive⟩ := h.live hk c hc
    have hmem : c ∉ args := fun hmem ↦ hne (h.unique hk hcall c hc hmem)
    rw [Live, hget, if_neg hmem]
    split
    · exact ⟨_, rfl, by simp⟩
    · exact ⟨n, hn, hlive⟩

/-! ### What evaluation keeps -/

/-- What evaluation leaves of nodes if it stays below number `top`. -/
structure Keeps (r : Registry) (top : Nat) (nodes nodes' : Array Node) : Prop where
  /-- They are tidy. -/
  tidy : Tidy r nodes'
  /-- They are as many. -/
  size : nodes'.size = nodes.size
  /-- From the number on they are the same. -/
  above : ∀ k, top ≤ k → nodes'[k]? = nodes[k]?

theorem Keeps.refl (h : Tidy r nodes) (top : Nat) : Keeps r top nodes nodes :=
  ⟨h, rfl, fun _ _ ↦ rfl⟩

theorem Keeps.mono {top top' : Nat} (h : Keeps r top nodes nodes') (hle : top ≤ top') :
    Keeps r top' nodes nodes' :=
  ⟨h.tidy, h.size, fun k hk ↦ h.above k (Nat.le_trans hle hk)⟩

theorem Keeps.trans {top : Nat} (h : Keeps r top nodes nodes') (h' : Keeps r top nodes' nodes'') :
    Keeps r top nodes nodes'' :=
  ⟨h'.tidy, h'.size.trans h.size, fun k hk ↦ (h'.above k hk).trans (h.above k hk)⟩

variable {s : Store} {line : Nat}

mutual

/-- **Evaluating a node keeps nodes tidy** and does not touch those behind it. -/
theorem Evaluates.keeps : ∀ {state state' : State} {id : Nat} {uses : List Use}
    {result : Except Diagnostic Value}, Evaluates s line state id uses result state' →
      Tidy r state.1 → Keeps r (id + 1) state.1 state'.1
  | _, _, id, _, _, .known _ _, ht => .refl ht _
  | _, _, id, _, _, .unknown _ _, ht => .refl ht _
  | _, _, id, _, _, .found _ _, ht => by
    refine ⟨ht.setLeaf id _, Array.size_setIfInBounds, fun k hk ↦ ?_⟩
    exact Array.getElem?_setIfInBounds_ne (by omega)
  | _, _, id, _, _, .failing node all _, ht =>
    (EvaluatesAll.keeps all ht (ht.lt node)).mono (Nat.le_succ id)
  | _, _, id, _, _, .refused node all _, ht =>
    (EvaluatesAll.keeps all ht (ht.lt node)).mono (Nat.le_succ id)
  | _, _, id, _, _, .carriedOut node all _, ht => by
    have hargs := EvaluatesAll.keeps all ht (ht.lt node)
    have hnode := (hargs.above id (Nat.le_refl id)).trans node
    refine (hargs.mono (Nat.le_succ id)).trans ⟨hargs.tidy.carryOut hnode _, ?_, fun k hk ↦ ?_⟩
    · rw [Array.size_setIfInBounds, size_release]
    · have hmem := ht.lt node k
      rw [getElem?_carryOut hnode, if_neg (by omega), if_neg (by grind)]

/-- Evaluating nodes below a number does not touch those from that number on. -/
theorem EvaluatesAll.keeps : ∀ {state state' : State} {ids : List Nat} {uses : List Use}
    {results : List (Except Diagnostic Value)},
      EvaluatesAll s line state ids uses results state' → Tidy r state.1 →
        ∀ {top : Nat}, (∀ c ∈ ids, c < top) → Keeps r top state.1 state'.1
  | _, _, _, _, _, .nil, ht, top, _ => .refl ht top
  | _, _, _, _, _, .cons head tail, ht, top, hlt => by
    have hhead := (Evaluates.keeps head ht).mono (hlt _ List.mem_cons_self)
    have htail := EvaluatesAll.keeps tail hhead.tidy fun c hc ↦ hlt c (List.mem_cons_of_mem _ hc)
    exact hhead.trans htail

end

/-- A call waits as it did when its arguments have been evaluated. -/
theorem EvaluatesAll.call_waits {id : Nat} {b : Builtin} {args : List Nat} {uses : List Use}
    {results : List (Except Diagnostic Value)} {j j' : Journal}
    (h : EvaluatesAll s line (nodes, j) args uses results (nodes', j')) (ht : Tidy r nodes)
    (node : nodes[id]? = some (.call b args none)) : nodes'[id]? = some (.call b args none) :=
  ((h.keeps ht (ht.lt node)).above id (Nat.le_refl id)).trans node

/-- A node that has been evaluated has not been released. -/
theorem Evaluates.live {id : Nat} {uses : List Use} {result : Except Diagnostic Value}
    {j j' : Journal} (h : Evaluates s line (nodes, j) id uses result (nodes', j'))
    (ht : Tidy r nodes) : Live nodes' id := by
  cases h with
  | known node value =>
    refine ⟨_, node, ?_⟩
    rintro rfl
    cases value
  | found node find => exact ⟨_, getElem?_setIfInBounds_self node, by simp⟩
  | unknown node find => exact ⟨_, node, by simp⟩
  | failing node all failures => exact ⟨_, all.call_waits ht node, by simp⟩
  | refused node all call => exact ⟨_, all.call_waits ht node, by simp⟩
  | carriedOut node all call =>
    have hnode := all.call_waits ht node
    exact ⟨_, (getElem?_carryOut hnode _ _ _ id).trans (if_pos rfl), by simp⟩

/-! ### Evaluation ends -/

/-- A node can be evaluated by the rules, and that is what `evaluateNode` does under every bound
above the node's number. -/
def Evaluable (s : Store) (line : Nat) (state : State) (id : Nat) : Prop :=
  ∃ uses result state', Evaluates s line state id uses result state' ∧
    ∀ bound, id < bound → evaluateNode s line bound state id = (result, state')

theorem Evaluable.intro {state state' : State} {id : Nat} {uses : List Use}
    {result : Except Diagnostic Value} (h : Evaluates s line state id uses result state')
    (hrun : ∀ bound, id ≤ bound → evaluateNode s line (bound + 1) state id = (result, state')) :
    Evaluable s line state id := by
  refine ⟨uses, result, state', h, fun bound hbound ↦ ?_⟩
  obtain ⟨bound, rfl⟩ := Nat.exists_eq_add_of_lt hbound
  exact hrun (id + bound) (Nat.le_add_right id bound)

/-- Nodes among the arguments of a call can be evaluated one after the other if the nodes before
the call can be evaluated. -/
theorem exists_evaluatesAll {id : Nat} {b : Builtin} {args : List Nat}
    (ih : ∀ c < id, ∀ state : State, Tidy r state.1 → Live state.1 c → Evaluable s line state c)
    (ids : List Nat) (hsub : ∀ c ∈ ids, c ∈ args) (state : State) (ht : Tidy r state.1)
    (node : state.1[id]? = some (.call b args none)) :
    ∃ uses results state', EvaluatesAll s line state ids uses results state' ∧
      ∀ bound, id ≤ bound →
        attemptAll (evaluateNode s line bound) state ids = (results, state') := by
  induction ids generalizing state with
  | nil => exact ⟨[], [], state, .nil, fun _ _ ↦ rfl⟩
  | cons c ids ihids =>
    have hc := hsub c List.mem_cons_self
    have hlt := ht.lt node c hc
    obtain ⟨uses, result, state', hhead, hrun⟩ := ih c hlt state ht (ht.live node c hc)
    -- the call waits behind its first argument as it did before
    have hkeeps := hhead.keeps ht
    obtain ⟨uses', results, state'', htail, hruns⟩ :=
      ihids (fun k hk ↦ hsub k (List.mem_cons_of_mem c hk)) state' hkeeps.tidy
        ((hkeeps.above id hlt).trans node)
    refine ⟨uses ++ uses', result :: results, state'', .cons hhead htail, fun bound hbound ↦ ?_⟩
    simp only [attemptAll, hrun bound (by omega), hruns bound hbound]

/-- A call that waits for its value can be evaluated if the nodes before it can. -/
theorem evaluable_call {id : Nat} {b : Builtin} {args : List Nat} {j : Journal}
    (ih : ∀ c < id, ∀ state : State, Tidy r state.1 → Live state.1 c → Evaluable s line state c)
    (ht : Tidy r nodes) (node : nodes[id]? = some (.call b args none)) :
    Evaluable s line (nodes, j) id := by
  obtain ⟨uses, results, ⟨nodes', j'⟩, hall, hruns⟩ :=
    exists_evaluatesAll ih args (fun _ hc ↦ hc) (nodes, j) ht node
  rcases hsettle : j'.settle results with ⟨d | operands, j''⟩
  · obtain ⟨earlier, hfailures, rfl⟩ := Journal.settle_eq_error hsettle
    refine .intro (.failing node hall hfailures) fun bound hbound ↦ ?_
    simp only [evaluateNode, node, hruns bound hbound, hsettle]
  · obtain ⟨rfl, rfl⟩ := Journal.settle_eq_ok hsettle
    cases hcall : b.call operands line with
    | error d =>
      refine .intro (.refused node hall hcall) fun bound hbound ↦ ?_
      simp only [evaluateNode, node, hruns bound hbound, hsettle, hcall]
    | ok v =>
      refine .intro (.carriedOut node hall hcall) fun bound hbound ↦ ?_
      simp only [evaluateNode, node, hruns bound hbound, hsettle, hcall]

/-- **Evaluation ends**: a node of a tidy arena that has not been released can be evaluated. -/
theorem evaluable (s : Store) (line id : Nat) :
    ∀ state : State, Tidy r state.1 → Live state.1 id → Evaluable s line state id := by
  induction id using Nat.strongRecOn with
  | ind id ih =>
    rintro ⟨nodes, j⟩ ht ⟨n, node, hne⟩
    match n with
    | .released => exact absurd rfl hne
    | .call b args none => exact evaluable_call ih ht node
    | .leaf v =>
      refine .intro (.known node rfl) fun bound _ ↦ ?_
      simp only [evaluateNode, node]
    | .call b args (some v) =>
      refine .intro (.known node rfl) fun bound _ ↦ ?_
      simp only [evaluateNode, node]
    | .reference name =>
      cases find : s.find? name with
      | some v =>
        refine .intro (.found node find) fun bound _ ↦ ?_
        simp only [evaluateNode, node, Store.lookup, find]
      | none =>
        refine .intro (.unknown node find) fun bound _ ↦ ?_
        simp only [evaluateNode, node, Store.lookup, find, Store.Error.fault]

/-! ### Where failures come from -/

/-- A diagnostic has a reason outside evaluation: a variable that is unknown, or a registered
builtin that refuses some values. -/
def Founded (r : Registry) (s : Store) (line : Nat) (d : Diagnostic) : Prop :=
  (∃ name, s.find? name = none ∧ d = (Fault.undeclared name).onLine line) ∨
    ∃ b ∈ r.entries, ∃ operands, b.call operands line = .error d

/-- A failure among results is the first result or a failure among the others. -/
theorem mem_failures_cons {α : Type} {result : Except Diagnostic α}
    {results : List (Except Diagnostic α)} {d : Diagnostic} :
    d ∈ failures (result :: results) ↔ result = .error d ∨ d ∈ failures results := by
  cases result with
  | ok v => simp
  | error e => simp [eq_comm]

mutual

/-- **Evaluation returns no failures of its own.** -/
theorem Evaluates.founded : ∀ {state state' : State} {id : Nat} {uses : List Use}
    {result : Except Diagnostic Value}, Evaluates s line state id uses result state' →
      Tidy r state.1 → ∀ d, result = .error d → Founded r s line d
  | _, _, _, _, _, .known _ _, _, _, hd => nomatch hd
  | _, _, _, _, _, .found _ _, _, _, hd => nomatch hd
  | _, _, _, _, _, .carriedOut _ _ _, _, _, hd => nomatch hd
  | _, _, _, _, _, .unknown _ find, _, _, hd => .inl ⟨_, find, (Except.error.inj hd).symm⟩
  | _, _, _, _, _, .refused node _ call, ht, _, hd => .inr ⟨_, ht.mem node, _, call.trans hd⟩
  | _, _, _, _, _, .failing _ all failures, ht, d, hd => by
    have hall := EvaluatesAll.founded all ht d
    rw [failures, Except.error.inj hd] at hall
    exact hall (List.mem_append_right _ List.mem_cons_self)

theorem EvaluatesAll.founded : ∀ {state state' : State} {ids : List Nat} {uses : List Use}
    {results : List (Except Diagnostic Value)},
      EvaluatesAll s line state ids uses results state' → Tidy r state.1 →
        ∀ d ∈ failures results, Founded r s line d
  | _, _, _, _, _, .nil, _, _, hd => absurd hd List.not_mem_nil
  | _, _, _, _, _, .cons head tail, ht, d, hd =>
    (mem_failures_cons.1 hd).elim (Evaluates.founded head ht d)
      (EvaluatesAll.founded tail (head.keeps ht).tidy d)

end

end Arena

end MatrixScript
