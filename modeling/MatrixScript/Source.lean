/-!
# Sources

Where a script is read from: bytes, and possibly a failure after some of them. A script is read one
line at a time. A step of reading gets the bytes up to the next line feed or, if there is none, up
to the end; one that gets no byte at all has come to the end.

A failure loses the line that is being read. An interruption is no failure: reading goes on
where it was.
-/

namespace MatrixScript

/-- What can happen to a reader. -/
inductive ReadFailure
  /-- Reading was interrupted and is taken up again. -/
  | interrupted
  /-- Reading failed. -/
  | failed (reason : String)
deriving DecidableEq, Repr

/-- A script to be read. -/
structure Source where
  /-- The bytes of the script. -/
  bytes : List UInt8
  /-- What happens after the given number of bytes. -/
  failure : Option (Nat × ReadFailure) := none
deriving DecidableEq, Repr

namespace Source

/-- The source that holds a text. -/
def ofString (text : String) : Source :=
  { bytes := text.toUTF8.data.toList }

/-- The byte that ends a line. -/
def lineFeed : UInt8 := 10

/-- What is to happen to a reader, one byte later. An interruption is over when it has happened. -/
def sooner : Option (Nat × ReadFailure) → Option (Nat × ReadFailure)
  | some (n + 1, failure) => some (n, failure)
  | some (0, _) | none => none

/-- One step of reading: the bytes up to the next line feed and with it, or up to the end, and what
there is after them. -/
def readUntilFeed :
    List UInt8 → Option (Nat × ReadFailure) → Except String (List UInt8 × Source)
  | _, some (0, .failed reason) => .error reason
  | [], some (_ + 1, .failed reason) => .error reason
  | [], some (_, .interrupted) | [], none => .ok ([], ⟨[], none⟩)
  | b :: bytes, failure =>
    if b = lineFeed then .ok ([b], ⟨bytes, sooner failure⟩)
    else (readUntilFeed bytes (sooner failure)).map fun p ↦ (b :: p.1, p.2)

/-- A step that gets bytes leaves fewer of them. -/
theorem length_of_readUntilFeed {bytes line : List UInt8} {failure : Option (Nat × ReadFailure)}
    {rest : Source} (h : readUntilFeed bytes failure = .ok (line, rest)) :
    rest.bytes.length + line.length = bytes.length := by
  fun_induction readUntilFeed bytes failure generalizing line rest with
  | case1 => cases h
  | case2 => cases h
  | case3 =>
    cases h
    rfl
  | case4 =>
    cases h
    rfl
  | case5 b bytes failure =>
    cases h
    rfl
  | case6 b bytes failure _ _ ih =>
    rcases hread : readUntilFeed bytes (sooner failure) with reason | ⟨line', rest'⟩
    · rw [hread] at h
      cases h
    · rw [hread] at h
      cases h
      have := ih hread
      simp only [List.length_cons]
      omega

/-- A line without the line feed that ends it. -/
def dropFeed (line : List UInt8) : List UInt8 :=
  if line.getLast? = some lineFeed then line.dropLast else line

/-- The lines that a reader gets, and the reason if it then fails. -/
def reads (s : Source) : List (Except String (List UInt8)) :=
  match _ : readUntilFeed s.bytes s.failure with
  | .error reason => [.error reason]
  | .ok ([], _) => []
  | .ok (b :: line, rest) => .ok (dropFeed (b :: line)) :: rest.reads
termination_by s.bytes.length
decreasing_by
  have := length_of_readUntilFeed ‹_›
  simp only [List.length_cons] at this
  omega

end Source

end MatrixScript
