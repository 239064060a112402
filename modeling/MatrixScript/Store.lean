import MatrixScript.Journal

/-!
# The store

The variables of a script with their values, in the order of their declarations. Giving a
variable another value keeps its place.
-/

namespace MatrixScript

/-- Variables and their values. -/
structure Store where
  /-- The bindings in the order of their declarations; no two have one name. -/
  bindings : List (String × Value) := []
deriving DecidableEq

namespace Store

/-- Why an operation on a store fails. -/
inductive Error
  /-- The variable is there already. -/
  | duplicate (name : String)
  /-- There is no such variable. -/
  | undeclared (name : String)
deriving DecidableEq, Repr

/-- The wording of an error. -/
def Error.message : Error → String
  | .duplicate name => s!"variable '{name}' is already declared"
  | .undeclared name => s!"variable '{name}' has not been declared"

/-- The fault that an error is in a script. -/
def Error.fault : Error → Fault
  | .duplicate name => .redeclared name
  | .undeclared name => .undeclared name

/-- The store without variables. -/
def empty : Store := {}

/-- The value of a variable. -/
def find? (s : Store) (name : String) : Option Value :=
  (s.bindings.find? (·.1 = name)).map (·.2)

/-- The names of the variables in the order of their declarations. -/
def names (s : Store) : List String :=
  s.bindings.map (·.1)

/-- Whether there is a variable with the given name. -/
def contains (s : Store) (name : String) : Bool :=
  (s.find? name).isSome

/-- The number of variables. -/
def size (s : Store) : Nat :=
  s.bindings.length

/-- The value of a variable that has to be there. -/
def lookup (s : Store) (name : String) : Except Error Value :=
  match s.find? name with
  | some v => .ok v
  | none => .error (.undeclared name)

/-- Adds a variable that must not be there. -/
def insert (s : Store) (name : String) (v : Value) : Except Error Store :=
  if s.contains name then .error (.duplicate name) else .ok ⟨s.bindings ++ [(name, v)]⟩

/-- Gives another value to a variable that has to be there. -/
def replace (s : Store) (name : String) (v : Value) : Except Error Store :=
  if s.contains name then
    .ok ⟨s.bindings.map fun b ↦ if b.1 = name then (name, v) else b⟩
  else .error (.undeclared name)

/-! ### Names and values after a change -/

theorem contains_iff_mem_names {s : Store} {name : String} :
    s.contains name = true ↔ name ∈ s.names := by
  obtain ⟨bs⟩ := s
  simp only [contains, find?, names, Option.isSome_map, List.find?_isSome, List.mem_map,
    decide_eq_true_eq]

/-- A declaration puts its name at the end. -/
theorem names_insert {s s' : Store} {name : String} {v : Value} (h : s.insert name v = .ok s') :
    s'.names = s.names ++ [name] := by
  unfold insert at h
  split at h
  · cases h
  · cases h
    simp [names]

/-- Another value keeps all names in their places. -/
theorem names_replace {s s' : Store} {name : String} {v : Value}
    (h : s.replace name v = .ok s') : s'.names = s.names := by
  unfold replace at h
  split at h
  · cases h
    simp only [names, List.map_map]
    refine List.map_congr_left fun b _ ↦ ?_
    by_cases hb : b.1 = name <;> simp [hb]
  · cases h

/-- After a declaration the new variable has the value, and the others have the values that they
had. -/
theorem find?_insert {s s' : Store} {name : String} {v : Value} (h : s.insert name v = .ok s')
    (other : String) : s'.find? other = if other = name then some v else s.find? other := by
  unfold insert at h
  split at h
  · cases h
  · rename_i hnew
    cases h
    simp only [contains, Bool.not_eq_true, Option.isSome_eq_false_iff, Option.isNone_iff_eq_none]
      at hnew
    simp only [find?, List.find?_append, Option.map_or]
    by_cases ho : other = name
    · subst ho
      simp only [find?] at hnew
      simp [hnew]
    · have : ¬ name = other := fun h ↦ ho h.symm
      simp [ho, this]

/-- After a reassignment the variable has the new value, and the others have the values that they
had. -/
theorem find?_replace {s s' : Store} {name : String} {v : Value}
    (h : s.replace name v = .ok s') (other : String) :
    s'.find? other = if other = name then some v else s.find? other := by
  unfold replace at h
  split at h
  · rename_i hold
    cases h
    obtain ⟨bs⟩ := s
    rw [contains_iff_mem_names, names] at hold
    simp only [find?]
    induction bs with
    | nil => simp at hold
    | cons b bs ih =>
      simp only [List.map_cons, List.find?_cons]
      by_cases hb : b.1 = name
      · by_cases ho : other = name
        · simp [hb, ho]
        · have hne : ¬ name = other := fun h ↦ ho h.symm
          simp only [hb, if_true, hne, ho, if_false, decide_false]
          by_cases hmem : name ∈ bs.map (·.1)
          · simpa [ho] using ih hmem
          · have : bs.map (fun b ↦ if b.1 = name then (name, v) else b) = bs := by
              conv => rhs; rw [← List.map_id bs]
              refine List.map_congr_left fun c hc ↦ ?_
              have : ¬ c.1 = name := fun h ↦ hmem (List.mem_map.2 ⟨c, hc, h⟩)
              simp [this]
            rw [this]
      · have hmem : name ∈ bs.map (·.1) := by
          rcases List.mem_map.1 hold with ⟨c, hc, hname⟩
          rcases List.mem_cons.1 hc with rfl | hc
          · exact absurd hname hb
          · exact List.mem_map.2 ⟨c, hc, hname⟩
        simp only [hb, if_false]
        by_cases ho : b.1 = other
        · have : ¬ other = name := fun h ↦ hb (ho.trans h)
          simp [ho, this]
        · simpa [ho] using ih hmem
  · cases h

/-! ### Changes on record -/

/-- Adds a variable. -/
def declare (s : Store) (j : Journal) (name : String) (v : Value) :
    Except Error Store × Journal :=
  match s.insert name v with
  | .ok s => (.ok s, j.note (.declared name v.kind))
  | .error e => (.error e, j)

/-- Gives a variable another value. -/
def assign (s : Store) (j : Journal) (name : String) (v : Value) :
    Except Error Store × Journal :=
  match s.lookup name, s.replace name v with
  | .ok old, .ok s => (.ok s, j.note (.reassigned name old.kind v.kind))
  | .error e, _ | .ok _, .error e => (.error e, j)

/-- Gives up all variables and tells how many there were. -/
def release (s : Store) (j : Journal) : Nat × Store × Journal :=
  (s.size, empty, j.note (.tornDown s.size))

end Store

end MatrixScript
