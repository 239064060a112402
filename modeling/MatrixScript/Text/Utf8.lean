/-!
# Decoding UTF-8

A line of bytes as text, and what is wrong with bytes that are no text. The fault is the first
sequence that cannot be continued to a character: how many of its bytes are still the beginning
of one, or that the bytes end before it does.

After the first byte of a character it is known which bytes have to follow, each from a range.
`Utf8.scan` carries the ranges still owed.
-/

namespace MatrixScript.Text.Utf8

/-- What is wrong with bytes. -/
inductive Fault
  /-- The bytes from `index` on are no character from byte `length` of them on. -/
  | invalid (length index : Nat)
  /-- The bytes end in the middle of the character that starts at `index`. -/
  | incomplete (index : Nat)
deriving DecidableEq, Repr

/-- The wording of a fault. -/
def Fault.message : Fault → String
  | .invalid length index => s!"invalid utf-8 sequence of {length} bytes from index {index}"
  | .incomplete index => s!"incomplete utf-8 byte sequence from index {index}"

/-- The least and the greatest value that a byte may have. -/
abbrev ByteRange := UInt8 × UInt8

/-- The range of a byte that continues a character. -/
def continuation : ByteRange := (0x80, 0xBF)

/-- The ranges of the bytes that have to follow the first byte of a character. -/
def owedAfter? (b : UInt8) : Option (List ByteRange) :=
  if b ≤ 0x7F then some []
  else if b < 0xC2 then none
  else if b ≤ 0xDF then some [continuation]
  else if b = 0xE0 then some [(0xA0, 0xBF), continuation]
  else if b = 0xED then some [(0x80, 0x9F), continuation]
  else if b ≤ 0xEF then some [continuation, continuation]
  else if b = 0xF0 then some [(0x90, 0xBF), continuation, continuation]
  else if b ≤ 0xF3 then some [continuation, continuation, continuation]
  else if b = 0xF4 then some [(0x80, 0x8F), continuation, continuation]
  else none

/-- The first fault in bytes, the first of which has number `index`, while the character that
starts at `start` still owes bytes. -/
def scan (index start : Nat) : (owed : List ByteRange) → List UInt8 → Option Fault
  | [], [] => none
  | _ :: _, [] => some (.incomplete start)
  | [], b :: bs =>
    match owedAfter? b with
    | none => some (.invalid 1 index)
    | some owed => scan (index + 1) index owed bs
  | range :: owed, b :: bs =>
    if range.1 ≤ b ∧ b ≤ range.2 then scan (index + 1) start owed bs
    else some (.invalid (index - start) start)

/-- The text that bytes encode. -/
def decode (bytes : List UInt8) : Except Fault String :=
  match String.fromUTF8? ⟨bytes.toArray⟩ with
  | some text => .ok text
  | none => .error ((scan 0 0 [] bytes).getD (.incomplete bytes.length))

end MatrixScript.Text.Utf8
