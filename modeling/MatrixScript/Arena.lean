import MatrixScript.Store
import MatrixScript.Term

/-!
# Arenas

An arena is a term laid out flat, for being given a value: every node has a number, and a call
knows its arguments by their numbers, which are all smaller than its own. Evaluating a node gives
it its value and remembers it, so that evaluating again asks no builtin a second time.

A call that succeeds keeps its value and releases its arguments, which nothing refers to any
more. A call that fails keeps its arguments, and each of them keeps what it has found out, so
the arena can be evaluated again once the failing variables are there.

Evaluating goes from a call to nodes with smaller numbers, so the number of nodes bounds how deep
it goes. A node that is asked for beyond that bound, that is not there or that has been released
is reported as consumed.
-/

namespace MatrixScript

/-- A node of an arena. -/
inductive Node
  /-- A value. -/
  | leaf (v : Value)
  /-- A variable that has not been looked up. -/
  | reference (name : String)
  /-- A call with the numbers of its arguments and, once it has one, its value. -/
  | call (builtin : Builtin) (arguments : List Nat) (result : Option Value)
  /-- An argument of a call that has its value. -/
  | released

/-- Whether a node has its value. -/
def Node.hasValue : Node → Bool
  | .leaf _ | .call _ _ (some _) => true
  | _ => false

/-! ### Laying out a term -/

mutual

/-- Appends the nodes of a term, arguments before the calls that they belong to. -/
def Term.layout : Term → Array Node → Array Node
  | .value v, nodes => nodes.push (.leaf v)
  | .reference name, nodes => nodes.push (.reference name)
  | .call b args, nodes =>
    let (ids, nodes) := Term.layoutAll args nodes
    nodes.push (.call b ids none)

/-- Appends the nodes of several terms and gives the number of each term's last node. -/
def Term.layoutAll : List Term → Array Node → List Nat × Array Node
  | [], nodes => ([], nodes)
  | t :: ts, nodes =>
    let nodes := t.layout nodes
    let id := nodes.size - 1
    let (ids, nodes) := Term.layoutAll ts nodes
    (id :: ids, nodes)

end

/-- A term laid out flat. -/
structure Arena where
  /-- The nodes by number. -/
  nodes : Array Node
  /-- The number of the node that stands for the whole term. -/
  root : Nat

namespace Arena

/-- The arena of a term. -/
def ofTerm (t : Term) : Arena :=
  let nodes := t.layout #[]
  ⟨nodes, nodes.size - 1⟩

/-- Reads the text of an expression into an arena. -/
def read (r : Registry) (line : Nat) (j : Journal) (text : String) :
    Except Diagnostic Arena × Journal :=
  match Term.read r line j text with
  | (.ok t, j) => (.ok (ofTerm t), j)
  | (.error d, j) => (.error d, j)

/-- The node that stands for the whole term. -/
def rootNode (a : Arena) : Node :=
  a.nodes[a.root]?.getD .released

/-- Whether the whole term has its value. -/
def hasValue (a : Arena) : Bool :=
  a.rootNode.hasValue

/-! ### Evaluating -/

/-- The fault of asking for a node that no call has a use for any more. -/
def consumed (id : Nat) : Fault :=
  .typeError s!"expression node {id} was already consumed by its parent"

/-- Marks nodes as released. -/
def release (nodes : Array Node) (ids : List Nat) : Array Node :=
  ids.foldl (fun nodes id ↦ nodes.setIfInBounds id .released) nodes

/-- What evaluating works on: the nodes and the journal. -/
abbrev State := Array Node × Journal

/-- Gives node `id` its value, going at most `bound` nodes deep. -/
def evaluateNode (s : Store) (line : Nat) :
    (bound : Nat) → State → (id : Nat) → Except Diagnostic Value × State
  | 0, state, id => (.error ((consumed id).onLine line), state)
  | bound + 1, (nodes, j), id =>
    match nodes[id]? with
    | none | some .released => (.error ((consumed id).onLine line), nodes, j)
    | some (.leaf v) | some (.call _ _ (some v)) => (.ok v, nodes, j)
    | some (.reference name) =>
      match s.lookup name with
      | .ok v => (.ok v, nodes.setIfInBounds id (.leaf v), j)
      | .error e => (.error (e.fault.onLine line), nodes, j)
    | some (.call b args none) =>
      let (results, nodes, j) := attemptAll (evaluateNode s line bound) (nodes, j) args
      match j.settle results with
      | (.error d, j) => (.error d, nodes, j)
      | (.ok operands, j) =>
        match b.call operands line with
        | .error d => (.error d, nodes, j)
        | .ok v =>
          (.ok v, (release nodes args).setIfInBounds id (.call b [] (some v)),
            j.note (.resolved id b.name v.kind))

/-- Gives the whole term its value. -/
def evaluate (a : Arena) (s : Store) (line : Nat) (j : Journal) :
    Except Diagnostic Value × Arena × Journal :=
  let (result, nodes, j) := evaluateNode s line a.nodes.size (a.nodes, j) a.root
  (result, { a with nodes }, j)

end Arena

end MatrixScript
