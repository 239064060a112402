import MatrixScript.Text.Pieces
import MatrixScript.Value

/-!
# Words

A line is cut into words at blanks, and nothing but the blank divides words: a tab, a carriage
return or any other character is part of the word that it stands in.
-/

namespace MatrixScript

/-- The words of a line. -/
def words (line : String) : List String :=
  ((Text.pieces (· == ' ') line.toList).filter (!·.isEmpty)).map String.ofList

namespace Word

/-- Whether a character can start a name. -/
def startsName (c : Char) : Bool :=
  c.isAlpha || c == '_'

/-- Whether a character can stand in a name. -/
def continuesName (c : Char) : Bool :=
  c.isAlphanum || c == '_'

/-- Whether a word can name a variable: a letter or an underscore, then letters, digits and
underscores, all of them ASCII. -/
def isName (word : String) : Bool :=
  match word.toList with
  | [] => false
  | c :: cs => startsName c && cs.all continuesName

/-- The words with a meaning of their own. -/
def keywords : List String :=
  ["MAT", "NUM", "OUT"]

/-- The kind that a word declares. -/
def kind? (word : String) : Option Kind :=
  if word = "MAT" then some .matrix
  else if word = "NUM" then some .scalar
  else none

/-- Whether a character starts literals. -/
def startsLiteral (c : Char) : Bool :=
  c == '[' || c == '-' || c.isDigit

/-- Whether the text of an expression is to be read as a literal. The first character decides. -/
def beginsLiteral : List Char → Bool
  | [] => false
  | c :: _ => startsLiteral c

end Word

end MatrixScript
