/-!
# Sinks

Where printed text goes. A sink takes bytes in order; one with a capacity takes that many and
then refuses, keeping what it has taken.
-/

namespace MatrixScript

/-- A receiver of printed text. -/
structure Sink where
  /-- How many bytes the sink can take; no number means all. -/
  capacity : Option Nat := none
  /-- What the sink says when it refuses a byte. -/
  refusal : String := "sink full"
  /-- The bytes taken so far. -/
  taken : ByteArray := .empty

namespace Sink

/-- How many of the next `n` bytes the sink takes. -/
def accepts (s : Sink) (n : Nat) : Nat :=
  match s.capacity with
  | none => n
  | some c => min n (c - s.taken.size)

/-- Writes a text. A text that does not fit is taken as far as it does. -/
def write (s : Sink) (text : String) : Except String Unit × Sink :=
  let bytes := text.toUTF8
  let n := s.accepts bytes.size
  let s := { s with taken := s.taken ++ bytes.extract 0 n }
  if n = bytes.size then (.ok (), s) else (.error s.refusal, s)

/-- Writes texts one after the other, up to the first that is refused. -/
def writeAll (s : Sink) : List String → Except String Unit × Sink
  | [] => (.ok (), s)
  | text :: texts =>
    match s.write text with
    | (.ok (), s) => s.writeAll texts
    | (.error reason, s) => (.error reason, s)

/-- A sink without a capacity takes every text whole. -/
theorem write_of_capacity_none {s : Sink} (h : s.capacity = none) (text : String) :
    s.write text = (.ok (), { s with taken := s.taken ++ text.toUTF8 }) := by
  simp only [write, accepts, h, if_true, ByteArray.extract_zero_size]

/-- The text taken from byte `start` on. What is printed is ASCII, so no byte can be cut off
from the character that it belongs to. -/
def textFrom (s : Sink) (start : Nat) : String :=
  (String.fromUTF8? (s.taken.extract start s.taken.size)).getD ""

end Sink

end MatrixScript
