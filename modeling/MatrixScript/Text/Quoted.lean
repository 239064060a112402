import MatrixScript.Text.Hidden

/-!
# Quoted text

How log messages and mismatch reports show a text: between double quotes, on one line, with
every character that would not be seen as itself escaped. An apostrophe stays as it is.
-/

namespace MatrixScript.Text

/-- A character by its number in base sixteen. -/
def escapeNumber (c : Char) : String :=
  "\\u\x7b" ++ String.ofList (Nat.toDigits 16 c.toNat) ++ "\x7d"

/-- A character inside a quoted text. -/
def escape (c : Char) : String :=
  if c = '"' then "\\\""
  else if c = '\\' then "\\\\"
  else if c = '\n' then "\\n"
  else if c = '\r' then "\\r"
  else if c = '\t' then "\\t"
  else if c.toNat = 0 then "\\0"
  else if isHidden c then escapeNumber c
  else c.toString

/-- A text between double quotes. -/
def quote (text : String) : String :=
  "\"" ++ String.join (text.toList.map escape) ++ "\""

/-- A list of items that are already written out. -/
def bracketed (items : List String) : String :=
  "[" ++ String.intercalate ", " items ++ "]"

/-- A list of texts, each one quoted. -/
def quoteList (texts : List String) : String :=
  bracketed (texts.map quote)

end MatrixScript.Text
