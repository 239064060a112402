import MatrixScript.Value

/-!
# Builtin functions

A builtin is a function on values together with what it asks of its arguments and promises of
its result. Calling one checks the number of arguments, their kinds from left to right and, once
the function has run, the kind of the result.
-/

namespace MatrixScript

/-- A function that expressions can call. -/
structure Builtin where
  /-- The name that calls use. -/
  name : String
  /-- The kinds of the arguments. -/
  operands : List Kind
  /-- The kind of the result. -/
  result : Kind
  /-- The function, on the arguments and the line of the call. -/
  run : List Value → Nat → Except Diagnostic Value

namespace Builtin

/-- A builtin whose faults are reported on the line of the call. -/
def ofFunction (name : String) (operands : List Kind) (result : Kind)
    (f : List Value → Except Fault Value) : Builtin :=
  ⟨name, operands, result, fun args line ↦ (f args).mapError (·.onLine line)⟩

/-- The number of arguments. -/
def arity (b : Builtin) : Nat :=
  b.operands.length

/-- Checks the number of arguments of a call. -/
def checkCount (b : Builtin) (found : Nat) : Except Fault Unit :=
  if found = b.arity then .ok () else .error (.arity b.name b.arity found)

/-- Checks the kinds of arguments, the first of which is number `i`. -/
def checkKinds (b : Builtin) (i : Nat) : List Value → List Kind → Except Fault Unit
  | v :: vs, k :: ks =>
    if v.kind = k then b.checkKinds (i + 1) vs ks
    else .error (.typeError
      s!"argument {i} of {b.name} must be a {k.text} but is a {v.kind.text}")
  | _, _ => .ok ()

/-- Checks the kind of a result. -/
def checkResult (b : Builtin) (v : Value) : Except Fault Unit :=
  if v.kind = b.result then .ok ()
  else .error (.typeError s!"{b.name} produced a {v.kind.text} instead of a {b.result.text}")

/-- Calls a builtin. -/
def call (b : Builtin) (args : List Value) (line : Nat) : Except Diagnostic Value := do
  (b.checkCount args.length).mapError (·.onLine line)
  (b.checkKinds 1 args b.operands).mapError (·.onLine line)
  let v ← b.run args line
  (b.checkResult v).mapError (·.onLine line)
  return v

end Builtin

end MatrixScript
