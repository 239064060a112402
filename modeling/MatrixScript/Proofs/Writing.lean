import MatrixScript.Proofs.Basis
import MatrixScript.Session

/-!
# Writing

What a sink does with a text, and with a text that comes in pieces. A value is handed over piece by
piece, and after the first piece that does not fit nothing more is handed over. This comes to the
same as handing over all of it at once (`Sink.writeAll_eq_write`): the sink breaks off at the same
byte, be it inside a piece or between two. So it does not matter either if a piece is cut into
smaller ones on its way, as the digits of a number are.

The pieces of a value make up its text (`Value.join_pieces`), and printing a value is writing this
text and a line feed (`Session.print_eq`).
-/

namespace MatrixScript

namespace Sink

/-! ### Texts as a whole -/

section

variable {s : Sink} {text : String} {n : Nat}

theorem extract_zero_of_size_le {bytes : ByteArray} (h : bytes.size ≤ n) :
    bytes.extract 0 n = bytes := by
  rw [← Nat.max_eq_left h]
  exact ByteArray.extract_zero_max_size

/-- Writing hands over the whole text, or fails. -/
theorem write_cases (s : Sink) (text : String) :
    (s.accepts text.toUTF8.size = text.toUTF8.size ∧
      s.write text = (.ok (), { s with taken := s.taken ++ text.toUTF8 })) ∨
    (s.accepts text.toUTF8.size ≠ text.toUTF8.size ∧
      ∃ s', s.write text = (.error s.refusal, s')) := by
  by_cases hall : s.accepts text.toUTF8.size = text.toUTF8.size
  · refine .inl ⟨hall, ?_⟩
    simp only [write, hall, if_true, ByteArray.extract_zero_size]
  · refine .inr ⟨hall, (s.write text).2, ?_⟩
    simp only [write, hall, if_false]

/-- With room for a text it is taken whole. -/
theorem write_of_accepts (h : s.accepts text.toUTF8.size = text.toUTF8.size) :
    s.write text = (.ok (), { s with taken := s.taken ++ text.toUTF8 }) := by
  obtain ⟨-, hwrite⟩ | ⟨hne, -⟩ := s.write_cases text
  · exact hwrite
  · exact absurd h hne

/-- Without room for all of a text as much is taken as there is room for. -/
theorem write_of_not_accepts (h : s.accepts text.toUTF8.size ≠ text.toUTF8.size) :
    s.write text = (.error s.refusal,
      { s with taken := s.taken ++ text.toUTF8.extract 0 (s.accepts text.toUTF8.size) }) := by
  simp only [write, h, if_false]

end

/-! ### Texts in pieces -/

/-- After a text that was taken whole, there is room for what would have been taken of a longer
one. -/
theorem accepts_add {s : Sink} {a : ByteArray} (h : s.accepts a.size = a.size) (n : Nat) :
    s.accepts (a.size + n) = a.size + ({ s with taken := s.taken ++ a } : Sink).accepts n := by
  obtain ⟨_ | c, refusal, taken⟩ := s
  · rfl
  · simp only [accepts, ByteArray.size_append] at h ⊢
    omega

/-- Where a text was not taken whole, no more is taken of a longer one. -/
theorem accepts_add_of_ne {s : Sink} {m : Nat} (h : s.accepts m ≠ m) (n : Nat) :
    s.accepts (m + n) = s.accepts m ∧ s.accepts m < m := by
  obtain ⟨_ | c, refusal, taken⟩ := s
  · exact absurd rfl h
  · simp only [accepts] at h ⊢
    omega

/-- A text in two pieces is taken as far as the whole one. -/
theorem write_append (s : Sink) (a b : String) :
    s.write (a ++ b) =
      match s.write a with
      | (.ok (), s) => s.write b
      | (.error reason, s) => (.error reason, s) := by
  have hbytes : (a ++ b).toUTF8 = a.toUTF8 ++ b.toUTF8 := String.toByteArray_append
  have hsize : (a ++ b).toUTF8.size = a.toUTF8.size + b.toUTF8.size := by
    rw [hbytes, ByteArray.size_append]
  by_cases ha : s.accepts a.toUTF8.size = a.toUTF8.size
  · rw [write_of_accepts ha]
    simp only
    have hroom := accepts_add ha b.toUTF8.size
    by_cases hb : ({ s with taken := s.taken ++ a.toUTF8 } : Sink).accepts b.toUTF8.size =
        b.toUTF8.size
    · rw [write_of_accepts hb, write_of_accepts (by rw [hsize, hroom, hb]), hbytes,
        ByteArray.append_assoc]
    · rw [write_of_not_accepts hb, write_of_not_accepts (by rw [hsize, hroom]; omega), hsize,
        hroom, hbytes, ByteArray.extract_append, extract_zero_of_size_le (Nat.le_add_right _ _),
        Nat.zero_sub, Nat.add_sub_cancel_left, ByteArray.append_assoc]
  · obtain ⟨hroom, hlt⟩ := accepts_add_of_ne ha b.toUTF8.size
    rw [write_of_not_accepts ha, write_of_not_accepts (by rw [hsize, hroom]; omega), hsize, hroom,
      hbytes, ByteArray.extract_append, Nat.sub_eq_zero_of_le (Nat.le_of_lt hlt)]
    simp

/-- **A sink breaks off at the same byte in whatever pieces a text is handed over.** -/
theorem writeAll_eq_write (s : Sink) (texts : List String) :
    s.writeAll texts = s.write (String.join texts) := by
  induction texts generalizing s with
  | nil =>
    have haccepts : s.accepts (String.join []).toUTF8.size = (String.join []).toUTF8.size := by
      rw [accepts]
      rcases s.capacity with _ | c
      · rfl
      · exact Nat.zero_min _
    rw [write_of_accepts haccepts]
    simp [writeAll]
  | cons text texts ih =>
    rw [String.join_cons, write_append, writeAll]
    rcases s.write text with ⟨reason | ⟨⟩, s'⟩
    · rfl
    · exact ih s'

end Sink

/-! ### The pieces of a value -/

theorem Table.join_pieces (t : Table Float) : String.join t.pieces = t.text := by
  rw [pieces, text]
  split
  · rfl
  · rw [join_flatten_intersperse, List.map_map]
    refine congrArg (String.intercalate "\n") (List.map_congr_left fun row _ ↦ ?_)
    exact join_intersperse " " (row.map Number.text)

/-- **The pieces of a value make up its text.** -/
theorem Value.join_pieces (v : Value) : String.join v.pieces = v.text := by
  rcases v with x | t
  · simp [pieces, text]
  · exact t.join_pieces

/-- **Printing a value is writing its text**, with a line feed at the end. -/
theorem Session.print_eq (s : Session) (v : Value) :
    s.print v =
      match s.sink.write (v.text ++ "\n") with
      | (.ok (), sink) =>
        (.ok (), { s with sink, journal := s.journal.note (.printed (v.text ++ "\n")) })
      | (.error reason, sink) =>
        (.error ((Fault.outputFailed reason).onLine s.line), { s with sink }) := by
  have hjoin : String.join (v.pieces ++ ["\n"]) = v.text ++ "\n" := by
    rw [String.join_append, v.join_pieces]
    simp
  rcases hwrite : s.sink.write (v.text ++ "\n") with ⟨reason | ⟨⟩, sink⟩
  · simp only [print, Sink.writeAll_eq_write, hjoin, hwrite]
  · simp only [print, Sink.writeAll_eq_write, hjoin, hwrite]

end MatrixScript
