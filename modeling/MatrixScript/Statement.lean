import MatrixScript.Builtin.Registry
import MatrixScript.Word

/-!
# Statements

A statement is three or four words: a target, an equals sign and an expression. The expression
is one word, read later.

Declaring asks for a name that is free to use; the other two targets take any word, and a
reassignment of a name that no variable can have fails when it is carried out.
-/

namespace MatrixScript

/-- What a statement does with the value of its expression. -/
inductive Target
  /-- Declares a variable. -/
  | declare (kind : Kind) (name : String)
  /-- Gives a variable a new value. -/
  | assign (name : String)
  /-- Prints the value. -/
  | output
deriving DecidableEq, Repr

/-- A target as a record. -/
def Target.describe : Target → String
  | .declare kind name => Text.record "Declare" [("name", Text.quote name), ("kind", kind.describe)]
  | .assign name => Text.record "Assign" [("name", Text.quote name)]
  | .output => "Output"

/-- A line's statement. -/
structure Statement where
  /-- What becomes of the value. -/
  target : Target
  /-- The text of the expression. -/
  expression : String
deriving DecidableEq, Repr

namespace Statement

/-- Why words are no statement. -/
inductive Error
  /-- A declaration starts with another word than the two that declare. -/
  | notKind (word : String)
  /-- The name of a declaration is not an identifier. -/
  | notIdentifier (name : String)
  /-- The name of a declaration is a keyword or the name of a builtin. -/
  | reserved (name : String)
  /-- There are no words. -/
  | empty
  /-- There are three or four words without an equals sign in its place. -/
  | noEquals (words : List String)
  /-- There are too few or too many words. -/
  | wordCount (words : List String)
deriving DecidableEq, Repr

/-- The fault of words that are no statement. -/
def Error.fault : Error → Fault
  | .notKind word => .syntaxError s!"expected MAT or NUM but found '{word}'"
  | .notIdentifier name => .syntaxError s!"'{name}' is not a valid variable name"
  | .reserved name => .syntaxError s!"'{name}' is reserved"
  | .empty => .syntaxError "empty statement"
  | .noEquals words => .syntaxError ("expected '=' in '" ++ String.intercalate " " words ++ "'")
  | .wordCount words =>
    .syntaxError ("a statement has 3 or 4 words but '" ++ String.intercalate " " words ++
      s!"' has {words.length}")

/-- The error of words that have the shape of no statement. -/
def shapeError (words : List String) : Error :=
  match words.length with
  | 0 => .empty
  | 3 | 4 => .noEquals words
  | _ => .wordCount words

/-- Checks that a name can be declared. -/
def checkName (r : Registry) (name : String) : Except Error Unit :=
  if !Word.isName name then .error (.notIdentifier name)
  else if Word.keywords.contains name || r.contains name then .error (.reserved name)
  else .ok ()

/-- The declaration of a variable. -/
def declaration (r : Registry) (keyword name expression : String) : Except Error Statement := do
  let some kind := Word.kind? keyword | .error (.notKind keyword)
  checkName r name
  return ⟨.declare kind name, expression⟩

/-- The statement that words make up. -/
def ofWords (r : Registry) (words : List String) : Except Error Statement :=
  match words with
  | [name, "=", expression] =>
    .ok ⟨if name = "OUT" then .output else .assign name, expression⟩
  | [keyword, name, "=", expression] => declaration r keyword name expression
  | words => .error (shapeError words)

end Statement

end MatrixScript
