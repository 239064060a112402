import MatrixScript.Builtin.Basic

/-!
# Registries

The builtins that expressions can call, in the order in which their names were first
registered. Registering a name again replaces its builtin and keeps its place.
-/

namespace MatrixScript

/-- Builtins by name. -/
structure Registry where
  /-- The builtins in order; no two have one name. -/
  entries : List Builtin := []

namespace Registry

/-- The registry without builtins. -/
def empty : Registry := {}

/-- The builtin with the given name. -/
def find? (r : Registry) (name : String) : Option Builtin :=
  r.entries.find? (·.name = name)

/-- Whether a name is registered. -/
def contains (r : Registry) (name : String) : Bool :=
  r.entries.any (·.name = name)

/-- The registered names in order. -/
def names (r : Registry) : List String :=
  r.entries.map (·.name)

/-- Registers a builtin. -/
def insert (r : Registry) (b : Builtin) : Registry :=
  if r.contains b.name then ⟨r.entries.map fun e ↦ if e.name = b.name then b else e⟩
  else ⟨r.entries ++ [b]⟩

/-- Registers builtins one after the other. -/
def insertAll (r : Registry) (bs : List Builtin) : Registry :=
  bs.foldl insert r

end Registry

end MatrixScript
