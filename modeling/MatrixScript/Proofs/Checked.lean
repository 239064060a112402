import MatrixScript.Proofs.Call
import MatrixScript.Proofs.Extent
import MatrixScript.Proofs.Invariant
import MatrixScript.Proofs.Slices

/-!
# Reading and evaluating with checks

Here texts are read and arenas evaluated on a machine, by steps that check what they do: a slice of
a text has to lie between characters, a node has to be there when it is looked at or changed, there
has to be memory for a matrix, with all its cells, and a value has to be solid when it is put into a
tree. Where a check fails there is no result at all, not even a failure.

None of the checks ever fails on a machine with room for `d` times `d` cells, if texts are no longer
than `d`. That is so for reading (`Term.read?_eq`), and for evaluating if the nodes are tidy and,
with the variables, within `d`, and if the builtins fit on the machine (`Evaluates.checked`); the
nodes are then within `d` after each step as well. This goes by induction on derivations, which have
no rule for a node that is missing.
-/

namespace MatrixScript

/-! ### Solid nodes and variables -/

/-- The value of a node, if it has one, is solid. -/
def Node.Solid (n : Node) : Prop :=
  ∀ v ∈ n.value?, v.Solid

instance : DecidablePred Node.Solid :=
  fun n ↦ inferInstanceAs (Decidable (∀ v ∈ n.value?, v.Solid))

/-- The value of a node, if it has one, is within `d`. -/
def Node.Within (d : Nat) (n : Node) : Prop :=
  ∀ v ∈ n.value?, v.Within d

theorem Node.Within.solid {d : Nat} {n : Node} (h : n.Within d) : n.Solid :=
  fun v hv ↦ (h v hv).solid

theorem Node.within_of_value? {d : Nat} {n : Node} {v : Value} (h : n.value? = some v)
    (hv : v.Within d) : n.Within d := by
  intro w hw
  rw [h] at hw
  exact Option.some.inj hw ▸ hv

theorem Node.within_released (d : Nat) : Node.released.Within d := nofun

/-- The values of all variables are solid. -/
def Store.Solid (s : Store) : Prop :=
  ∀ b ∈ s.bindings, b.2.Solid

instance : DecidablePred Store.Solid :=
  fun s ↦ inferInstanceAs (Decidable (∀ b ∈ s.bindings, b.2.Solid))

/-- The values of all variables are within `d`. -/
def Store.Within (d : Nat) (s : Store) : Prop :=
  ∀ b ∈ s.bindings, b.2.Within d

theorem Store.Within.solid {d : Nat} {s : Store} (h : s.Within d) : s.Solid :=
  fun b hb ↦ (h b hb).solid

theorem Store.Within.of_find? {d : Nat} {s : Store} (h : s.Within d) {name : String} {v : Value}
    (hfind : s.find? name = some v) : v.Within d := by
  obtain ⟨b, hb, rfl⟩ := Option.map_eq_some_iff.1 hfind
  exact h b (List.mem_of_find?_eq_some hb)

/-! ### Attempts that may be refused -/

/-- Applies an action to every item, from left to right, unless it is refused once. -/
def attemptAll? {σ α β : Type} (act : σ → α → Option (β × σ)) : σ → List α → Option (List β × σ)
  | s, [] => some ([], s)
  | s, x :: xs =>
    (act s x).bind fun p ↦ (attemptAll? act p.2 xs).map fun q ↦ (p.1 :: q.1, q.2)

theorem attemptAll?_eq {σ α β : Type} {act? : σ → α → Option (β × σ)} {act : σ → α → β × σ}
    {xs : List α} (h : ∀ x ∈ xs, ∀ s, act? s x = some (act s x)) (s : σ) :
    attemptAll? act? s xs = some (attemptAll act s xs) := by
  induction xs generalizing s with
  | nil => rfl
  | cons x xs ih =>
    obtain ⟨hx, hxs⟩ := List.forall_mem_cons.1 h
    rw [attemptAll?, hx, Option.bind_some, ih hxs]
    rfl

theorem Journal.settle_map_ok {β : Type} (j : Journal) (vs : List β) :
    j.settle (vs.map .ok) = (.ok vs, j) := by
  rw [settle, verdict_eq_ok_iff.2 rfl]

theorem Journal.settle_of_failures {β : Type} {results : List (Except Diagnostic β)}
    {earlier : List Diagnostic} {d : Diagnostic} (h : failures results = earlier ++ [d])
    (j : Journal) : j.settle results = (.error d, j.recordAll earlier) := by
  rw [settle, verdict_eq_error_iff.2 h]

/-! ### Reading -/

/-- Takes a call apart by offsets. -/
def Journal.readCall? (j : Journal) (line : Nat) (text : String) :
    Option (Except Diagnostic Call × Journal) :=
  (Call.splitAt? text).map fun
    | .ok c => (.ok c, j.note (.divided text c))
    | .error e => (.error ((e.fault text).onLine line), j)

theorem Journal.readCall?_eq (j : Journal) (line : Nat) (text : String) :
    j.readCall? line text = some (j.readCall line text) := by
  rw [readCall?, readCall, Call.splitAt?_eq]
  rcases Call.split text with e | c
  · rfl
  · rfl

namespace Term

/-- Reads the text of an expression that is no longer than `bound`, with checks. -/
def readWithin? (m : Machine) (r : Registry) (line : Nat) :
    (bound : Nat) → Journal → String → Option (Except Diagnostic Term × Journal)
  | 0, j, _ => some (.error (missing.onLine line), j)
  | bound + 1, j, text =>
    let cs := text.toList
    if cs = [] then some (.error (missing.onLine line), j)
    else if Word.beginsLiteral cs then
      (Literal.readOn? m text).bind fun
        | .ok v => if v.Solid then some (.ok (.value v), j) else none
        | .error e => some (.error (e.fault.onLine line), j)
    else if !cs.contains '(' then some (.ok (.reference text), j)
    else do
      match ← j.readCall? line text with
      | (.error d, j) => return (.error d, j)
      | (.ok c, j) =>
        match r.find? c.name with
        | none => return (.error ((Fault.unknownFunction c.name).onLine line), j)
        | some b =>
          match b.checkCount c.arguments.length with
          | .error f => return (.error (f.onLine line), j)
          | .ok () =>
            let (results, j) ← attemptAll? (readWithin? m r line bound) j c.arguments
            match j.settle results with
            | (.error d, j) => return (.error d, j)
            | (.ok args, j) => return (.ok (.call b args), j)

/-- Reads the text of an expression, with checks. -/
def read? (m : Machine) (r : Registry) (line : Nat) (j : Journal) (text : String) :
    Option (Except Diagnostic Term × Journal) :=
  readWithin? m r line text.length j text

theorem readWithin?_eq {m : Machine} {d : Nat} (hm : d * d < m.capacity) (r : Registry)
    (line bound : Nat) (j : Journal) {text : String} (h : text.length ≤ d) :
    readWithin? m r line bound j text = some (readWithin r line bound j text) := by
  induction bound generalizing j text with
  | zero => rfl
  | succ bound ih =>
    simp only [readWithin?, readWithin, j.readCall?_eq line text, Literal.readOn?_eq hm h,
      Option.bind_eq_bind, Option.bind_some]
    split
    · rfl
    split
    · -- the only values in a term are those of its literals
      rcases hread : Literal.read text with e | v
      · rfl
      · exact if_pos (Literal.within_of_read hread h).solid
    split
    · rfl
    rcases hcall : j.readCall line text with ⟨e | c, j'⟩
    · rfl
    rcases hfind : r.find? c.name with _ | b
    · simp only [hfind]
      rfl
    rcases hcount : b.checkCount c.arguments.length with f | ⟨⟩
    · simp only [hfind, hcount]
      rfl
    have harguments : ∀ a ∈ c.arguments, a.length ≤ d := fun a ha ↦
      (Call.length_lt_of_split (Journal.readCall_eq_ok hcall) ha).le.trans h
    simp only [hfind, hcount, attemptAll?_eq fun a ha j ↦ ih j (harguments a ha), Option.bind_some]
    rcases (attemptAll (readWithin r line bound) j' c.arguments).2.settle _ with ⟨d | args, j''⟩
    · rfl
    · rfl

/-- **Reading passes all its checks**, whatever the text, if it is not too long. -/
theorem read?_eq {m : Machine} {d : Nat} (hm : d * d < m.capacity) (r : Registry) (line : Nat)
    (j : Journal) {text : String} (h : text.length ≤ d) :
    read? m r line j text = some (read r line j text) :=
  readWithin?_eq hm r line text.length j h

end Term

namespace Arena

/-- Reads the text of an expression into an arena, with checks. -/
def read? (m : Machine) (r : Registry) (line : Nat) (j : Journal) (text : String) :
    Option (Except Diagnostic Arena × Journal) :=
  (Term.read? m r line j text).map fun
    | (.ok t, j) => (.ok (ofTerm t), j)
    | (.error d, j) => (.error d, j)

theorem read?_eq {m : Machine} {d : Nat} (hm : d * d < m.capacity) (r : Registry) (line : Nat)
    (j : Journal) {text : String} (h : text.length ≤ d) :
    read? m r line j text = some (read r line j text) := by
  rw [read?, read, Term.read?_eq hm r line j h]
  rcases Term.read r line j text with ⟨d | t, j'⟩
  · rfl
  · rfl

/-- All nodes are within `d`. -/
def NodesWithin (d : Nat) (nodes : Array Node) : Prop :=
  ∀ n ∈ nodes, n.Within d

variable {d : Nat} {nodes nodes' : Array Node}

theorem NodesWithin.push (h : NodesWithin d nodes) {n : Node} (hn : n.Within d) :
    NodesWithin d (nodes.push n) := by
  intro m hm
  rcases Array.mem_push.1 hm with hm | rfl
  · exact h m hm
  · exact hn

theorem NodesWithin.set (h : NodesWithin d nodes) (id : Nat) {n : Node} (hn : n.Within d) :
    NodesWithin d (nodes.setIfInBounds id n) := by
  intro m hm
  rcases Array.mem_or_eq_of_mem_setIfInBounds hm with hm | rfl
  · exact h m hm
  · exact hn

theorem NodesWithin.release (h : NodesWithin d nodes) (ids : List Nat) :
    NodesWithin d (release nodes ids) := by
  unfold Arena.release
  induction ids generalizing nodes with
  | nil => exact h
  | cons id ids ih => exact ih (h.set id (Node.within_released d))

/-- Laying out terms keeps nodes within `d` if that is so for each of them. -/
theorem NodesWithin.layoutAll {ts : List Term}
    (h : ∀ t ∈ ts, ∀ nodes, NodesWithin d nodes → NodesWithin d (t.layout nodes))
    (hnodes : NodesWithin d nodes) : NodesWithin d (Term.layoutAll ts nodes).2 := by
  induction ts generalizing nodes with
  | nil => exact hnodes
  | cons t ts ih =>
    exact ih (fun u hu ↦ h u (List.mem_cons_of_mem t hu)) (h t List.mem_cons_self nodes hnodes)

/-- The nodes of a term are within the length of the text that reads as it. -/
theorem nodesWithin_layout {r : Registry} {text : String} {t : Term} (h : Term.Reads r text t)
    (hd : text.length ≤ d) :
    ∀ nodes, NodesWithin d nodes → NodesWithin d (t.layout nodes) := by
  induction h with
  | value literal read =>
    intro nodes hnodes
    exact hnodes.push (Node.within_of_value? rfl (Literal.within_of_read read hd))
  | reference ne_empty literal call =>
    intro nodes hnodes
    exact hnodes.push nofun
  | call literal split find count length arguments ih =>
    intro nodes hnodes
    refine (hnodes.layoutAll (forall_of_forall_zip length fun hmem ↦ ih hmem ?_)).push nofun
    exact (Call.length_lt_of_split split (List.of_mem_zip hmem).1).le.trans hd

/-- Reading gives nodes within the length of the text. -/
theorem nodesWithin_of_read {r : Registry} {line : Nat} {j : Journal} {text : String} {a : Arena}
    (h : (read r line j text).1 = .ok a) (hd : text.length ≤ d) : NodesWithin d a.nodes := by
  obtain ⟨t, ht, rfl⟩ := read_eq_ok_iff.1 h
  exact nodesWithin_layout ht hd #[] nofun

/-! ### Evaluating -/

/-- Puts a solid node in the place of one that is there. -/
def put? (nodes : Array Node) (id : Nat) (n : Node) : Option (Array Node) :=
  if id < nodes.size ∧ n.Solid then some (nodes.setIfInBounds id n) else none

/-- Releases nodes that are there. -/
def release? (nodes : Array Node) (ids : List Nat) : Option (Array Node) :=
  ids.foldlM (fun nodes id ↦ put? nodes id .released) nodes

/-- Gives node `id` its value on a machine, with checks: it has to be there and not too deep. -/
def evaluateNode? (m : Machine) (workers : Nat) (s : Store) (line : Nat) :
    (bound : Nat) → State → (id : Nat) → Option (Except Diagnostic Value × State)
  | 0, _, _ => none
  | bound + 1, (nodes, j), id =>
    match nodes[id]? with
    | none => none
    | some .released => some (.error ((consumed id).onLine line), nodes, j)
    | some (.leaf v) | some (.call _ _ (some v)) => some (.ok v, nodes, j)
    | some (.reference name) =>
      match s.lookup name with
      | .ok v => (put? nodes id (.leaf v)).map fun nodes ↦ (.ok v, nodes, j)
      | .error e => some (.error (e.fault.onLine line), nodes, j)
    | some (.call b args none) => do
      let (results, nodes, j) ← attemptAll? (evaluateNode? m workers s line bound) (nodes, j) args
      match j.settle results with
      | (.error d, j) => return (.error d, nodes, j)
      | (.ok operands, j) =>
        match ← b.callOn? m workers operands line with
        | .error d => return (.error d, nodes, j)
        | .ok v =>
          let nodes ← release? nodes args
          let nodes ← put? nodes id (.call b [] (some v))
          return (.ok v, nodes, j.note (.resolved id b.name v.kind))

/-- Gives the whole term its value on a machine, with checks. -/
def evaluate? (m : Machine) (workers : Nat) (a : Arena) (s : Store) (line : Nat) (j : Journal) :
    Option (Except Diagnostic Value × Arena × Journal) :=
  (evaluateNode? m workers s line a.nodes.size (a.nodes, j) a.root).map fun (result, nodes, j) ↦
    (result, { a with nodes }, j)

theorem put?_eq {id : Nat} {n : Node} (hid : id < nodes.size) (hn : n.Solid) :
    put? nodes id n = some (nodes.setIfInBounds id n) :=
  if_pos ⟨hid, hn⟩

theorem release?_eq {ids : List Nat} (h : ∀ id ∈ ids, id < nodes.size) :
    release? nodes ids = some (release nodes ids) := by
  unfold release? release
  induction ids generalizing nodes with
  | nil => rfl
  | cons id ids ih =>
    rw [List.foldlM_cons, put?_eq (h id List.mem_cons_self) (Node.within_released 0).solid,
      Option.bind_eq_bind, Option.bind_some, ih, List.foldl_cons]
    intro k hk
    rw [Array.size_setIfInBounds]
    exact h k (List.mem_cons_of_mem id hk)

variable {m : Machine} {workers : Nat} {r : Registry} {s : Store} {line : Nat}

/-- An evaluation that passes all its checks: it leaves nodes within `d`, and its value is within
`d`. -/
structure Passes (m : Machine) (workers d : Nat) (s : Store) (line : Nat) (state : State) (id : Nat)
    (result : Except Diagnostic Value) (state' : State) : Prop where
  /-- The evaluation with checks comes to the same. -/
  eq : ∀ bound, id < bound → evaluateNode? m workers s line bound state id = some (result, state')
  /-- The nodes are within `d` afterwards. -/
  nodes : NodesWithin d state'.1
  /-- A value that it gives is within `d`. -/
  value : ∀ v, result = .ok v → v.Within d

theorem Passes.intro {state state' : State} {id : Nat} {result : Except Diagnostic Value}
    (hrun : ∀ bound, id ≤ bound →
      evaluateNode? m workers s line (bound + 1) state id = some (result, state'))
    (hnodes : NodesWithin d state'.1) (hvalue : ∀ v, result = .ok v → v.Within d) :
    Passes m workers d s line state id result state' := by
  refine ⟨fun bound hbound ↦ ?_, hnodes, hvalue⟩
  obtain ⟨bound, rfl⟩ := Nat.exists_eq_add_of_lt hbound
  exact hrun (id + bound) (Nat.le_add_right id bound)

/-- Evaluations one after the other that pass all their checks. -/
structure PassesAll (m : Machine) (workers d : Nat) (s : Store) (line : Nat) (state : State)
    (ids : List Nat) (results : List (Except Diagnostic Value)) (state' : State) : Prop where
  eq : ∀ bound, (∀ c ∈ ids, c < bound) →
    attemptAll? (evaluateNode? m workers s line bound) state ids = some (results, state')
  nodes : NodesWithin d state'.1
  values : ∀ v, .ok v ∈ results → v.Within d

theorem PassesAll.operands {state state' : State} {ids : List Nat} {operands : List Value}
    (h : PassesAll m workers d s line state ids (operands.map .ok) state') :
    ∀ w ∈ operands, w.Within d :=
  fun w hw ↦ h.values w (List.mem_map.2 ⟨w, hw, rfl⟩)

/-- Carrying a call out passes its checks if that was so for its arguments. -/
theorem passes_carriedOut {j j' : Journal} {id : Nat} {b : Builtin} {args : List Nat}
    {operands : List Value} {v : Value} (hb : b.FitsOn m workers d) (ht : Tidy r nodes)
    (node : nodes[id]? = some (.call b args none)) (hkeeps : Keeps r id nodes nodes')
    (hall : PassesAll m workers d s line (nodes, j) args (operands.map .ok) (nodes', j'))
    (call : b.call operands line = .ok v) :
    Passes m workers d s line (nodes, j) id (.ok v)
      ((release nodes' args).setIfInBounds id (.call b [] (some v)),
        j'.note (.resolved id b.name v.kind)) := by
  -- evaluating the arguments has taken no node away, and they come before the call
  have hid : id < nodes'.size := hkeeps.size.symm ▸ lt_size_of_getElem? node
  have hargs : ∀ c ∈ args, c < nodes'.size := fun c hc ↦ Nat.lt_trans (ht.lt node c hc) hid
  have hcall := hb.callOn?_eq operands line hall.operands
  have hwithin : v.Within d := hb.within operands line v hall.operands call
  have hnode : (Node.call b [] (some v)).Within d := Node.within_of_value? rfl hwithin
  have hput := put?_eq ((size_release nodes' args).symm ▸ hid) hnode.solid
  refine .intro (fun bound hbound ↦ ?_) ((hall.nodes.release args).set id hnode) fun w hw ↦ ?_
  · have hrun := hall.eq bound fun c hc ↦ Nat.lt_of_lt_of_le (ht.lt node c hc) hbound
    simp only [evaluateNode?, node, hrun, Journal.settle_map_ok, hcall, call, release?_eq hargs,
      hput, Option.bind_eq_bind, Option.bind_some]
    rfl
  · exact Except.ok.inj hw ▸ hwithin

mutual

/-- **Evaluating by the rules passes all checks**, given nodes and variables within `d` and builtins
that fit on the machine. -/
theorem Evaluates.checked (hs : s.Within d) (hr : ∀ b ∈ r.entries, b.FitsOn m workers d) :
    ∀ {state state' : State} {id : Nat} {uses : List Use} {result : Except Diagnostic Value},
      Evaluates s line state id uses result state' → Tidy r state.1 → NodesWithin d state.1 →
        Passes m workers d s line state id result state'
  | _, _, id, _, _, .known (n := n) node value, _, hnodes => by
    have hwithin := hnodes n (Array.mem_of_getElem? node)
    refine .intro (fun bound _ ↦ ?_) hnodes fun v hv ↦ hwithin v (Except.ok.inj hv ▸ value)
    match n with
    | .leaf v | .call _ _ (some v) =>
      obtain rfl := Option.some.inj value
      simp only [evaluateNode?, node]
  | _, _, id, _, _, .unknown node find, _, hnodes => by
    refine .intro (fun bound _ ↦ ?_) hnodes nofun
    simp only [evaluateNode?, node, Store.lookup, find, Store.Error.fault]
  | _, _, id, _, _, .found (v := v) node find, _, hnodes => by
    have hv : v.Within d := hs.of_find? find
    have hleaf : (Node.leaf v).Within d := Node.within_of_value? rfl hv
    have hput := put?_eq (lt_size_of_getElem? node) hleaf.solid
    refine .intro (fun bound _ ↦ ?_) (hnodes.set id hleaf) fun w hw ↦ Except.ok.inj hw ▸ hv
    simp only [evaluateNode?, node, Store.lookup, find, hput]
    rfl
  | _, _, id, _, _, .failing node all failures, ht, hnodes => by
    have hall := EvaluatesAll.checked hs hr all ht hnodes
    refine .intro (fun bound hbound ↦ ?_) hall.nodes nofun
    have hrun := hall.eq bound fun c hc ↦ Nat.lt_of_lt_of_le (ht.lt node c hc) hbound
    simp only [evaluateNode?, node, hrun, Journal.settle_of_failures failures,
      Option.bind_eq_bind, Option.bind_some]
    rfl
  | _, _, id, _, _, .refused node all call, ht, hnodes => by
    have hall := EvaluatesAll.checked hs hr all ht hnodes
    have hcall := (hr _ (ht.mem node)).callOn?_eq _ line hall.operands
    refine .intro (fun bound hbound ↦ ?_) hall.nodes nofun
    have hrun := hall.eq bound fun c hc ↦ Nat.lt_of_lt_of_le (ht.lt node c hc) hbound
    simp only [evaluateNode?, node, hrun, Journal.settle_map_ok, hcall, call, Option.bind_eq_bind,
      Option.bind_some]
    rfl
  | _, _, id, _, _, .carriedOut node all call, ht, hnodes =>
    passes_carriedOut (hr _ (ht.mem node)) ht node (all.keeps ht (ht.lt node))
      (EvaluatesAll.checked hs hr all ht hnodes) call

theorem EvaluatesAll.checked (hs : s.Within d) (hr : ∀ b ∈ r.entries, b.FitsOn m workers d) :
    ∀ {state state' : State} {ids : List Nat} {uses : List Use}
      {results : List (Except Diagnostic Value)},
      EvaluatesAll s line state ids uses results state' → Tidy r state.1 → NodesWithin d state.1 →
        PassesAll m workers d s line state ids results state'
  | _, _, _, _, _, .nil, _, hnodes => ⟨fun _ _ ↦ rfl, hnodes, nofun⟩
  | _, _, _, _, _, .cons head tail, ht, hnodes => by
    have hhead := Evaluates.checked hs hr head ht hnodes
    have htail := EvaluatesAll.checked hs hr tail (head.keeps ht).tidy hhead.nodes
    refine ⟨fun bound hbound ↦ ?_, htail.nodes, fun v hv ↦ ?_⟩
    · rw [attemptAll?, hhead.eq bound (hbound _ List.mem_cons_self), Option.bind_some,
        htail.eq bound fun c hc ↦ hbound c (List.mem_cons_of_mem _ hc)]
      rfl
    · rcases List.mem_cons.1 hv with hv | hv
      · exact hhead.value v hv.symm
      · exact htail.values v hv

end

/-- **Evaluating a sound arena passes all checks**: it comes to the same with them, its value is
within `d`, and so are the nodes that it leaves. -/
theorem Sound.evaluate?_eq {a : Arena} (h : a.Sound r) (hnodes : NodesWithin d a.nodes)
    (hs : s.Within d) (hr : ∀ b ∈ r.entries, b.FitsOn m workers d) (line : Nat) (j : Journal) :
    a.evaluate? m workers s line j = some (a.evaluate s line j) ∧
      NodesWithin d (a.evaluate s line j).2.1.nodes ∧
      ∀ v, (a.evaluate s line j).1 = .ok v → v.Within d := by
  obtain ⟨uses, heval⟩ := h.exists_evaluatesWith ⟨s, line, j⟩
  obtain ⟨heq, hwithin, hvalue⟩ := heval.checked hs hr h.tidy hnodes
  have hlast := h.root_last
  refine ⟨?_, hwithin, hvalue⟩
  rw [evaluate?, heq a.nodes.size (by omega)]
  rfl

end Arena

end MatrixScript
