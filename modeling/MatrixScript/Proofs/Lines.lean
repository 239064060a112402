import MatrixScript.Source
import MatrixScript.Text.Pieces

/-!
# The lines of a source

Bytes divide into lines that a line feed ends and what comes after the last line feed, which has not
been ended (`Divides`). A reader that comes to the end of the script takes the latter
for a line too, unless there is nothing in it; a reader that fails loses it. So what a reader gets
can be told from the bytes that it has been delivered (`reads_eq`).

This goes by induction on the lines that are ended. A step of reading gets the first of them, if
there is one, and leaves a source that delivers the others (`readUntilFeed_of_delivered`).
-/

namespace MatrixScript.Source

/-- The pieces of bytes between line feeds. -/
def linePieces (bytes : List UInt8) : List (List UInt8) :=
  Text.pieces (· == lineFeed) bytes

/-- The lines of bytes that are read to their end. A line feed at the very end does not begin
another line. -/
def lines (bytes : List UInt8) : List (List UInt8) :=
  let ps := linePieces bytes
  if ps.getLast? = some [] then ps.dropLast else ps

/-- Bytes are lines, each with its line feed, and a rest without one. -/
structure Divides (bytes : List UInt8) (ended : List (List UInt8)) (rest : List UInt8) : Prop where
  bytes_eq : bytes = ended.flatMap (· ++ [lineFeed]) ++ rest
  notMem_ended : ∀ line ∈ ended, lineFeed ∉ line
  notMem_rest : lineFeed ∉ rest

section

variable {bytes rest : List UInt8} {ended : List (List UInt8)}

/-- One more line in front. -/
theorem Divides.cons (h : Divides bytes ended rest) {line : List UInt8} (hline : lineFeed ∉ line) :
    Divides (line ++ lineFeed :: bytes) (line :: ended) rest := by
  refine ⟨?_, List.forall_mem_cons.2 ⟨hline, h.notMem_ended⟩, h.notMem_rest⟩
  rw [h.bytes_eq, List.flatMap_cons, List.append_assoc, List.append_assoc]
  rfl

/-- One more byte in front of the first line. -/
theorem Divides.cons_byte (h : Divides bytes ended rest) {b : UInt8} (hb : b ≠ lineFeed) :
    ∃ ended' rest', Divides (b :: bytes) ended' rest' := by
  obtain ⟨rfl, hended, hrest⟩ := h
  rcases ended with _ | ⟨line, ended⟩
  · exact ⟨[], b :: rest, rfl, nofun, List.not_mem_cons_of_ne_of_not_mem hb.symm hrest⟩
  · obtain ⟨hline, hended⟩ := List.forall_mem_cons.1 hended
    refine ⟨(b :: line) :: ended, rest, rfl, List.forall_mem_cons.2 ⟨?_, hended⟩, hrest⟩
    exact List.not_mem_cons_of_ne_of_not_mem hb.symm hline

/-- All bytes divide. -/
theorem exists_divides (bytes : List UInt8) : ∃ ended rest, Divides bytes ended rest := by
  induction bytes with
  | nil => exact ⟨[], [], rfl, nofun, nofun⟩
  | cons b bytes ih =>
    obtain ⟨ended, rest, h⟩ := ih
    by_cases hb : b = lineFeed
    · subst hb
      have hcons : Divides ([] ++ lineFeed :: bytes) ([] :: ended) rest := h.cons List.not_mem_nil
      exact ⟨[] :: ended, rest, hcons⟩
    · exact h.cons_byte hb

theorem beq_lineFeed_of_notMem {line : List UInt8} (h : lineFeed ∉ line) :
    ∀ b ∈ line, (b == lineFeed) = false := by
  intro b hb
  rw [beq_eq_false_iff_ne]
  rintro rfl
  exact h hb

/-- The pieces between line feeds are the lines that are ended and the rest. -/
theorem Divides.linePieces_eq (h : Divides bytes ended rest) :
    linePieces bytes = ended ++ [rest] := by
  obtain ⟨rfl, hended, hrest⟩ := h
  induction ended with
  | nil => exact Text.pieces_of_forall (beq_lineFeed_of_notMem hrest)
  | cons line ended ih =>
    obtain ⟨hline, hended⟩ := List.forall_mem_cons.1 hended
    rw [List.flatMap_cons, List.append_assoc, List.append_assoc]
    show Text.pieces _ (line ++ lineFeed :: (ended.flatMap (· ++ [lineFeed]) ++ rest)) = _
    rw [Text.pieces_append_cons (beq_lineFeed_of_notMem hline) (beq_self_eq_true lineFeed)]
    exact congrArg (line :: ·) (ih hended)

/-- At the end of the script the rest is a line, unless it is empty. -/
theorem Divides.lines_eq (h : Divides bytes ended rest) :
    lines bytes = if rest = [] then ended else ended ++ [rest] := by
  rw [lines, h.linePieces_eq]
  simp only [List.getLast?_concat, List.dropLast_concat, Option.some.injEq]

end

/-! ### What a reader gets -/

/-- The bytes that a reader is delivered before it fails, or all if it does not. -/
def delivered (source : Source) : List UInt8 :=
  match source.failure with
  | some (n, .failed _) => source.bytes.take n
  | some (_, .interrupted) | none => source.bytes

/-- The reason for which a reader fails, if it does. An interruption is none. -/
def reason? (source : Source) : Option String :=
  match source.failure with
  | some (_, .failed reason) => some reason
  | some (_, .interrupted) | none => none

/-- The lines that a reader gets of what it is delivered: those that are ended, and at the end of
the script the rest as well, unless it is empty. -/
def linesOf (source : Source) (ended : List (List UInt8)) (rest : List UInt8) :
    List (List UInt8) :=
  if source.reason? = none ∧ rest ≠ [] then ended ++ [rest] else ended

/-- A reader fails before the next byte, or it delivers that byte and then what it would deliver
without it. -/
theorem delivered_cons (b : UInt8) (bytes : List UInt8) (failure : Option (Nat × ReadFailure)) :
    (∃ reason, failure = some (0, .failed reason)) ∨
      (∀ reason, failure ≠ some (0, .failed reason)) ∧
        delivered ⟨b :: bytes, failure⟩ = b :: delivered ⟨bytes, sooner failure⟩ ∧
        reason? ⟨b :: bytes, failure⟩ = reason? ⟨bytes, sooner failure⟩ := by
  rcases failure with _ | ⟨_ | n, _ | reason⟩
  · exact .inr ⟨nofun, rfl, rfl⟩
  · exact .inr ⟨nofun, rfl, rfl⟩
  · exact .inl ⟨reason, rfl⟩
  · exact .inr ⟨nofun, rfl, rfl⟩
  · exact .inr ⟨nofun, rfl, rfl⟩

theorem readUntilFeed_cons {b : UInt8} {bytes : List UInt8} {failure : Option (Nat × ReadFailure)}
    (h : ∀ reason, failure ≠ some (0, .failed reason)) :
    readUntilFeed (b :: bytes) failure =
      if b = lineFeed then .ok ([b], ⟨bytes, sooner failure⟩)
      else (readUntilFeed bytes (sooner failure)).map fun p ↦ (b :: p.1, p.2) := by
  rcases failure with _ | ⟨_ | n, _ | reason⟩
  · rfl
  · rfl
  · exact absurd rfl (h reason)
  · rfl
  · rfl

/-- **A step of reading gets the first line**, if one that is ended is delivered. The source that is
left delivers what comes after it. -/
theorem readUntilFeed_of_delivered {bytes : List UInt8} {failure : Option (Nat × ReadFailure)}
    {line more : List UInt8} (hline : lineFeed ∉ line)
    (h : delivered ⟨bytes, failure⟩ = line ++ lineFeed :: more) :
    ∃ rest : Source, readUntilFeed bytes failure = .ok (line ++ [lineFeed], rest) ∧
      rest.delivered = more ∧ rest.reason? = reason? ⟨bytes, failure⟩ := by
  induction bytes generalizing failure line with
  | nil =>
    have hnil : delivered ⟨[], failure⟩ = [] := by
      rcases failure with _ | ⟨n, _ | reason⟩
      · rfl
      · rfl
      · exact List.take_nil
    rw [hnil] at h
    simp at h
  | cons b bytes ih =>
    obtain ⟨reason, rfl⟩ | ⟨hgoes, hdelivered, hreason⟩ := delivered_cons b bytes failure
    · simp [delivered] at h
    rw [readUntilFeed_cons hgoes, hreason]
    rw [hdelivered] at h
    rcases line with _ | ⟨c, line⟩
    · obtain ⟨rfl, hmore⟩ := List.cons.inj h
      exact ⟨_, if_pos rfl, hmore, rfl⟩
    · obtain ⟨rfl, hmore⟩ := List.cons.inj h
      obtain ⟨hb, hline⟩ := List.ne_and_not_mem_of_not_mem_cons hline
      obtain ⟨rest, hread, hrest⟩ := ih hline hmore
      refine ⟨rest, ?_, hrest⟩
      rw [if_neg (Ne.symm hb), hread]
      rfl

/-- A step of reading that meets no line feed gets all that is delivered, or fails. -/
theorem readUntilFeed_of_notMem {bytes : List UInt8} {failure : Option (Nat × ReadFailure)}
    (h : lineFeed ∉ delivered ⟨bytes, failure⟩) :
    readUntilFeed bytes failure =
      match reason? ⟨bytes, failure⟩ with
      | some reason => .error reason
      | none => .ok (delivered ⟨bytes, failure⟩, ⟨[], none⟩) := by
  induction bytes generalizing failure with
  | nil =>
    rcases failure with _ | ⟨_ | n, _ | reason⟩
    · rfl
    · rfl
    · rfl
    · rfl
    · rfl
  | cons b bytes ih =>
    obtain ⟨reason, rfl⟩ | ⟨hgoes, hdelivered, hreason⟩ := delivered_cons b bytes failure
    · rfl
    rw [hdelivered] at h ⊢
    obtain ⟨hb, hnot⟩ := List.ne_and_not_mem_of_not_mem_cons h
    rw [readUntilFeed_cons hgoes, if_neg (Ne.symm hb), ih hnot, hreason]
    rcases reason? ⟨bytes, sooner failure⟩ with _ | reason
    · rfl
    · rfl

theorem dropFeed_concat (line : List UInt8) : dropFeed (line ++ [lineFeed]) = line := by
  rw [dropFeed, List.getLast?_concat, if_pos rfl, List.dropLast_concat]

theorem dropFeed_of_notMem {line : List UInt8} (h : lineFeed ∉ line) : dropFeed line = line :=
  if_neg fun hlast ↦ h (List.mem_of_getLast? hlast)

theorem reads_of_error {source : Source} {reason : String}
    (h : readUntilFeed source.bytes source.failure = .error reason) :
    source.reads = [.error reason] := by
  rw [reads]
  split
  · next hread =>
    rw [h] at hread
    cases hread
    rfl
  · next hread =>
    rw [h] at hread
    cases hread
  · next hread =>
    rw [h] at hread
    cases hread

theorem reads_of_ok {source : Source} {line : List UInt8} {rest : Source}
    (h : readUntilFeed source.bytes source.failure = .ok (line, rest)) :
    source.reads = if line = [] then [] else .ok (dropFeed line) :: rest.reads := by
  rw [reads]
  split
  · next hread =>
    rw [h] at hread
    cases hread
  · next hread =>
    rw [h] at hread
    cases hread
    rfl
  · next hread =>
    rw [h] at hread
    cases hread
    rfl

/-- **What a reader gets**: the lines, and the reason if it fails. -/
theorem reads_eq (source : Source) {ended : List (List UInt8)} {rest : List UInt8}
    (h : Divides source.delivered ended rest) :
    source.reads = (source.linesOf ended rest).map .ok ++ (source.reason?.map .error).toList := by
  obtain ⟨hbytes, hended, hrest⟩ := h
  induction ended generalizing source with
  | nil =>
    rw [List.flatMap_nil, List.nil_append] at hbytes
    have hread := readUntilFeed_of_notMem (hbytes ▸ hrest)
    rw [linesOf]
    rcases hreason : source.reason? with _ | reason
    · rw [show reason? ⟨source.bytes, source.failure⟩ = none from hreason] at hread
      have hend : reads ⟨[], none⟩ = [] := @reads_of_ok ⟨[], none⟩ [] _ rfl
      rw [reads_of_ok hread, hend]
      show (if source.delivered = [] then [] else [Except.ok (dropFeed source.delivered)]) = _
      rw [hbytes, dropFeed_of_notMem hrest]
      split
      · next hnil => simp [hnil]
      · next hne => simp [hne]
    · rw [show reason? ⟨source.bytes, source.failure⟩ = some reason from hreason] at hread
      rw [reads_of_error hread]
      simp
  | cons line ended ih =>
    obtain ⟨hline, hended⟩ := List.forall_mem_cons.1 hended
    rw [List.flatMap_cons, List.append_assoc, List.append_assoc] at hbytes
    obtain ⟨next, hread, hdelivered, hreason⟩ := readUntilFeed_of_delivered hline hbytes
    have hreason : next.reason? = source.reason? := hreason
    rw [reads_of_ok hread, if_neg (by simp), dropFeed_concat, ih next hdelivered hended, linesOf,
      linesOf, hreason]
    split
    · rfl
    · rfl

/-- A reader that does not fail gets the lines of what it is delivered. -/
theorem reads_of_reason?_eq_none {source : Source} (h : source.reason? = none) :
    source.reads = (lines source.delivered).map .ok := by
  obtain ⟨ended, rest, hdivides⟩ := exists_divides source.delivered
  rw [source.reads_eq hdivides, hdivides.lines_eq, linesOf, h]
  simp [ite_not]

/-- A line has no more bytes than the script. -/
theorem length_le_of_mem_reads {source : Source} {line : List UInt8}
    (h : .ok line ∈ source.reads) : line.length ≤ source.bytes.length := by
  induction hn : source.bytes.length using Nat.strongRecOn generalizing source with
  | ind n ih =>
    subst hn
    rcases hread : readUntilFeed source.bytes source.failure with reason | ⟨first, rest⟩
    · rw [reads_of_error hread] at h
      simp at h
    · rw [reads_of_ok hread] at h
      have hlength := length_of_readUntilFeed hread
      split at h
      · simp at h
      next hne =>
      have hpos := List.length_pos_iff.2 hne
      rcases List.mem_cons.1 h with h | h
      · have hdrop : (dropFeed first).length ≤ first.length := by
          rw [dropFeed]
          split
          · exact (List.dropLast_sublist first).length_le
          · exact Nat.le_refl _
        cases h
        omega
      · have := ih rest.bytes.length (by omega) h rfl
        omega

end MatrixScript.Source
