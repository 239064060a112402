import MatrixScript.Attempt
import MatrixScript.Literal

/-!
# Terms

A term is what the text of an expression reads as: a tree of literal values, references to
variables and calls of builtins. Reading finds out everything that can be found out without the
values of variables: the form of literals and calls, the names of builtins and the numbers of
their arguments.

The first character tells a literal, and a parenthesis anywhere tells a call from a reference.
An argument of a call is shorter than the call, so the length of a text bounds how deep reading
it goes, and `Term.readWithin` goes by that bound. A bound of zero is met by the empty text
only, which is no expression anyway.
-/

namespace MatrixScript

/-- What an expression reads as. -/
inductive Term
  /-- A literal's value. -/
  | value (v : Value)
  /-- A variable. -/
  | reference (name : String)
  /-- A call of a builtin. -/
  | call (builtin : Builtin) (arguments : List Term)

namespace Term

/-- The fault of a text without characters. -/
def missing : Fault :=
  .syntaxError "missing expression"

/-- Reads the text of an expression that is no longer than `bound`. -/
def readWithin (r : Registry) (line : Nat) :
    (bound : Nat) → Journal → String → Except Diagnostic Term × Journal
  | 0, j, _ => (.error (missing.onLine line), j)
  | bound + 1, j, text =>
    let cs := text.toList
    if cs = [] then (.error (missing.onLine line), j)
    else if Word.beginsLiteral cs then
      match Literal.read text with
      | .ok v => (.ok (.value v), j)
      | .error e => (.error (e.fault.onLine line), j)
    else if !cs.contains '(' then (.ok (.reference text), j)
    else
      match j.readCall line text with
      | (.error d, j) => (.error d, j)
      | (.ok c, j) =>
        match r.find? c.name with
        | none => (.error ((Fault.unknownFunction c.name).onLine line), j)
        | some b =>
          match b.checkCount c.arguments.length with
          | .error f => (.error (f.onLine line), j)
          | .ok () =>
            let (results, j) := attemptAll (readWithin r line bound) j c.arguments
            match j.settle results with
            | (.error d, j) => (.error d, j)
            | (.ok args, j) => (.ok (.call b args), j)

/-- Reads the text of an expression. -/
def read (r : Registry) (line : Nat) (j : Journal) (text : String) :
    Except Diagnostic Term × Journal :=
  readWithin r line text.length j text

end Term

end MatrixScript
