import MatrixScript.Diagnostic

/-!
# Calls

A call is a name, an opening parenthesis, arguments divided by commas and a closing parenthesis
at the very end. Commas and parentheses inside the brackets of an argument belong to the
argument. Round and square brackets are counted together, so an argument may pair one with the
other; if it is a literal or a call itself, its own reader will object.

`Call.scan` goes through the text after the opening parenthesis once, with the depth of open
brackets, the argument under way and the arguments before it, both in reverse.
-/

namespace MatrixScript

/-- A call taken apart. -/
structure Call where
  /-- What stands before the opening parenthesis. -/
  name : String
  /-- The arguments, none of them empty. -/
  arguments : List String
deriving DecidableEq, Repr

namespace Call

/-- Why a text is no call. -/
inductive Error
  /-- There is no opening parenthesis. -/
  | notCall
  /-- A bracket closes that was never opened. -/
  | unbalanced (bracket : Char)
  /-- The opening parenthesis is never closed. -/
  | unclosed
  /-- Something follows the closing parenthesis. -/
  | trailing (rest name : String)
  /-- An argument is empty. -/
  | emptyArgument
deriving DecidableEq, Repr

/-- The fault of a text that is no call. -/
def Error.fault (text : String) : Error → Fault
  | .notCall => .syntaxError s!"'{text}' is not a call"
  | .unbalanced bracket => .syntaxError s!"unbalanced '{bracket}' in '{text}'"
  | .unclosed => .syntaxError s!"missing closing parenthesis in '{text}'"
  | .trailing rest name => .syntaxError s!"unexpected '{rest}' after the call to '{name}'"
  | .emptyArgument => .syntaxError s!"empty argument in '{text}'"

/-- Goes through a text up to the parenthesis that closes the call. Gives the arguments and what
follows the parenthesis. -/
def scan (depth : Nat) (current : List Char) (before : List (List Char)) :
    List Char → Except Error (List (List Char) × List Char)
  | [] => .error .unclosed
  | c :: cs =>
    if c = '(' ∨ c = '[' then scan (depth + 1) (c :: current) before cs
    else if c = ')' ∧ depth = 0 then .ok ((current.reverse :: before).reverse, cs)
    else if c = ')' ∨ c = ']' then
      match depth with
      | 0 => .error (.unbalanced c)
      | depth + 1 => scan depth (c :: current) before cs
    else if c = ',' ∧ depth = 0 then scan 0 [] (current.reverse :: before) cs
    else scan depth (c :: current) before cs

/-- The arguments between the parentheses: none if nothing stands there, and none may be empty
otherwise. -/
def argumentsOf (parts : List (List Char)) : Except Error (List String) :=
  if parts = [[]] then .ok []
  else if parts.any List.isEmpty then .error .emptyArgument
  else .ok (parts.map String.ofList)

/-- Takes a call apart. -/
def split (text : String) : Except Error Call :=
  match text.toList.span (· ≠ '(') with
  | (_, []) => .error .notCall
  | (name, _ :: inside) => do
    let (parts, rest) ← scan 0 [] [] inside
    if rest ≠ [] then .error (.trailing (String.ofList rest) (String.ofList name))
    else return ⟨String.ofList name, ← argumentsOf parts⟩

end Call

end MatrixScript
