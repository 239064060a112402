import Mathlib.Algebra.BigOperators.Group.List.Basic
import MatrixScript.Proofs.Joining
import MatrixScript.Proofs.Run

/-!
# Scripts from texts

A script that comes from a text can always be read. The reader cuts bytes and knows nothing of
characters, so this rests on how the bytes of characters look: a byte below 128 is a character of
its own and never a part of a longer one (`Text.Utf8.toNat_eq_of_mem_utf8EncodeChar`). The byte of a
line feed is one of them. So the bytes are cut where the text has its line feeds and nowhere else,
each piece is the bytes of a piece of the text (`Text.Segments.linePieces_encode`), and decoding
gives that piece back (`Text.Utf8.decode_encode`).

What is left for a run is to come to its end or to stop at a line that fails
(`Session.run_ofString`).
-/

namespace MatrixScript

namespace Text

/-! ### The bytes of a text -/

namespace Utf8

/-- The bytes of a text. -/
def encode (text : String) : List UInt8 :=
  text.toUTF8.data.toList

theorem encode_eq_flatMap (text : String) :
    encode text = text.toList.flatMap String.utf8EncodeChar := by
  rw [encode, String.toUTF8_eq_toByteArray, ← String.utf8Encode_toList, List.utf8Encode,
    List.toList_data_toByteArray]

/-- Decoding the bytes of a text gives the text. -/
theorem decode_encode (text : String) : decode (encode text) = .ok text := by
  have hbytes : (⟨(encode text).toArray⟩ : ByteArray) = text.toByteArray := rfl
  have htext : String.fromUTF8? text.toByteArray = some text := by
    rw [String.fromUTF8?, dif_pos text.isValidUTF8]
    rfl
  rw [decode, hbytes, htext]

/-- What is decoded has no more characters than bytes. -/
theorem length_le_of_decode {bytes : List UInt8} {text : String} (h : decode bytes = .ok text) :
    text.length ≤ bytes.length := by
  have hencode : encode text = bytes := by
    unfold decode at h
    split at h
    · next hdecoded =>
      cases h
      rw [String.fromUTF8?] at hdecoded
      split at hdecoded
      · cases hdecoded
        rfl
      · cases hdecoded
    · cases h
  have hpos : ∀ n ∈ text.toList.map fun c ↦ (String.utf8EncodeChar c).length, 1 ≤ n := by
    refine List.forall_mem_map.2 fun c _ ↦ ?_
    rw [String.length_utf8EncodeChar]
    exact c.utf8Size_pos
  rw [← hencode, encode_eq_flatMap, List.length_flatMap, ← String.length_toList]
  simpa using List.length_le_sum_of_one_le _ hpos

theorem map_decode_encode (texts : List String) :
    (texts.map encode).map decode = texts.map .ok := by
  rw [List.map_map]
  exact List.map_congr_left fun text _ ↦ decode_encode text

theorem encode_eq_nil_iff {text : String} : encode text = [] ↔ text = "" := by
  rw [encode_eq_flatMap, List.flatMap_eq_nil_iff, ← String.toList_eq_nil_iff,
    List.eq_nil_iff_forall_not_mem]
  simp only [String.utf8EncodeChar_ne_nil, imp_false]

/-- **A byte below 128 is a character of its own.** All bytes of a longer character are greater. -/
theorem toNat_eq_of_mem_utf8EncodeChar {c : Char} {b : UInt8} (h : b ∈ String.utf8EncodeChar c)
    (hb : b.toNat < 128) : c.toNat = b.toNat := by
  rw [String.utf8EncodeChar] at h
  split at h
  · next hc =>
    obtain rfl := List.mem_singleton.1 h
    have hlt : c.toNat < 256 := Nat.lt_of_le_of_lt hc (by decide)
    exact (Nat.mod_eq_of_lt hlt).symm
  · exfalso
    split at h
    on_goal 2 => split at h
    all_goals
      simp only [List.mem_cons, List.not_mem_nil, or_false, ← UInt8.toNat_inj,
        UInt8.toNat_ofNat'] at h
      omega

/-- The byte of a line feed stands for a line feed. -/
theorem mem_of_lineFeed_mem_encode {text : String} (h : Source.lineFeed ∈ encode text) :
    '\n' ∈ text.toList := by
  rw [encode_eq_flatMap] at h
  obtain ⟨c, hc, hmem⟩ := List.mem_flatMap.1 h
  have hcode : c.toNat = '\n'.toNat := toNat_eq_of_mem_utf8EncodeChar hmem (by decide)
  rwa [← Char.toNat_inj.1 hcode]

/-- The bytes of texts that are joined by line feeds are the bytes of the texts, joined by the byte
of a line feed. -/
theorem encode_intercalate (texts : List String) :
    encode ("\n".intercalate texts) = List.intercalate [Source.lineFeed] (texts.map encode) := by
  rw [encode_eq_flatMap, String.toList_intercalate, flatMap_intercalate, List.map_map]
  have htexts : texts.map ((·.flatMap String.utf8EncodeChar) ∘ String.toList) =
      texts.map encode :=
    List.map_congr_left fun text _ ↦ (encode_eq_flatMap text).symm
  rw [htexts]
  rfl

end Utf8

/-! ### The lines of a text -/

/-- A text is these segments with line feeds between them, and there are no other line feeds. -/
structure Segments (text : String) (segments : List String) : Prop where
  ne_nil : segments ≠ []
  text_eq : text = "\n".intercalate segments
  notMem : ∀ segment ∈ segments, '\n' ∉ segment.toList

/-- The lines among segments: all of them, but the last one only if there is something in it. -/
def linesAmong (segments : List String) : List String :=
  if segments.getLast? = some "" then segments.dropLast else segments

/-- The segments of a text are its pieces. -/
theorem segments_iff {text : String} {segments : List String} :
    Segments text segments ↔ pieces (· == '\n') text.toList = segments.map String.toList := by
  have hjoined : text = "\n".intercalate segments ↔
      text.toList = List.intercalate ['\n'] (segments.map String.toList) := by
    rw [← String.toList_inj, String.toList_intercalate]
    rfl
  rw [pieces_eq_iff, ← hjoined, List.forall_mem_map, Ne, List.map_eq_nil_iff]
  exact ⟨fun ⟨hne, htext, hmem⟩ ↦ ⟨hne, htext, hmem⟩, fun ⟨hne, htext, hmem⟩ ↦ ⟨hne, htext, hmem⟩⟩

/-- Every text has its segments, and no others. -/
theorem existsUnique_segments (text : String) : ∃! segments, Segments text segments := by
  refine ⟨(pieces (· == '\n') text.toList).map String.ofList, ?_, fun segments hsegments ↦ ?_⟩
  · show Segments text _
    rw [segments_iff, List.map_map]
    simp
  · rw [segments_iff.1 hsegments, List.map_map]
    simp

namespace Segments

variable {text : String} {segments : List String}

/-- **The bytes of a text are cut where the text has its line feeds.** -/
theorem linePieces_encode (h : Segments text segments) :
    Source.linePieces (Utf8.encode text) = segments.map Utf8.encode := by
  rw [Source.linePieces, pieces_eq_iff, h.text_eq, Utf8.encode_intercalate]
  refine ⟨?_, rfl, ?_⟩
  · simpa using h.ne_nil
  · rw [List.forall_mem_map]
    exact fun segment hsegment hmem ↦
      h.notMem segment hsegment (Utf8.mem_of_lineFeed_mem_encode hmem)

/-- **A reader gets the bytes of the lines of a text.** -/
theorem reads_ofString (h : Segments text segments) :
    (Source.ofString text).reads = ((linesAmong segments).map Utf8.encode).map .ok := by
  rw [Source.reads_of_reason?_eq_none rfl]
  show (Source.lines (Utf8.encode text)).map Except.ok = _
  have hlast : (segments.map Utf8.encode).getLast? = some [] ↔ segments.getLast? = some "" := by
    rw [List.getLast?_map, Option.map_eq_some_iff]
    simp only [Utf8.encode_eq_nil_iff, exists_eq_right]
  rw [Source.lines, h.linePieces_encode, linesAmong]
  simp only [hlast, apply_ite (List.map Utf8.encode), List.map_dropLast]

end Segments

end Text

/-! ### Running a text -/

/-- **A run of a text comes to its end or stops at a line that fails**, in every session. -/
theorem Session.run_ofString (s : Session) (text : String) :
    (s.run (.ofString text)).1 = .ok () ∨
      ∃ line ds, (s.run (.ofString text)).1 = .error (.aborted line ds) := by
  obtain ⟨segments, hsegments, -⟩ := Text.existsUnique_segments text
  have hreads := hsegments.reads_ofString
  obtain ⟨texts, -, hending, -, -⟩ := s.begun.exists_ending_runReads
    ((Text.linesAmong segments).map Text.Utf8.encode) none
  simp only [Option.map_none, Option.toList_none, List.append_nil, ← hreads] at hending
  have hrun : (s.run (.ofString text)).1 = (s.begun.runReads (Source.ofString text).reads).1 := rfl
  rw [hrun]
  generalize attemptAll step s.begun texts = p at hending
  generalize (s.begun.runReads (Source.ofString text).reads).1 = result at hending ⊢
  cases hending with
  | finished succeeded length read => exact .inl rfl
  | aborted succeeded => exact .inr ⟨_, _, rfl⟩
  | broken succeeded length read => cases read
  | undecodable succeeded next decode =>
    -- what is next are the bytes of a line, and they decode to it
    obtain ⟨line, -, rfl⟩ := List.mem_map.1 (List.mem_of_getElem? next)
    rw [Text.Utf8.decode_encode] at decode
    cases decode

/-- **A script in a text is always read, and as the lines of the text.** Whatever the text and the
sink, the run comes to its end or stops at a line that fails. The text is segments with line feeds
between them in one way only. Cutting its bytes at the byte of a line feed and decoding each piece
gives the segments, and a reader gets the lines among them. -/
theorem runText_reads_own_lines (text : String) :
    (∀ sink, (runText text sink).1 = .ok () ∨
      ∃ line ds, (runText text sink).1 = .error (.aborted line ds)) ∧
    (∃! segments, Text.Segments text segments) ∧
    ∀ segments, Text.Segments text segments →
      (Source.linePieces (Source.ofString text).bytes).map Text.Utf8.decode =
        segments.map .ok ∧
      (Source.ofString text).reads.map (Except.map Text.Utf8.decode) =
        (Text.linesAmong segments).map fun line ↦ .ok (.ok line) := by
  refine ⟨fun sink ↦ Session.run_ofString _ text, Text.existsUnique_segments text,
    fun segments hsegments ↦ ⟨?_, ?_⟩⟩
  · show (Source.linePieces (Text.Utf8.encode text)).map Text.Utf8.decode = _
    rw [hsegments.linePieces_encode, Text.Utf8.map_decode_encode]
  · rw [hsegments.reads_ofString, List.map_map, List.map_map]
    refine List.map_congr_left fun line _ ↦ ?_
    show Except.ok (Text.Utf8.decode (Text.Utf8.encode line)) = _
    rw [Text.Utf8.decode_encode]

/-- Characters of two and of four bytes. The code of the first one ends with the byte of a line
feed, its own bytes do not have it. -/
theorem runText_reads_own_lines_multibyte :
    let text := "NUM x = 1\r\nOUT = Ċ🙂\n"
    Text.Segments text ["NUM x = 1\r", "OUT = Ċ🙂", ""] ∧
      (Source.ofString text).reads.map (Except.map Text.Utf8.decode) =
        [.ok (.ok "NUM x = 1\r"), .ok (.ok "OUT = Ċ🙂")] := by
  intro text
  have hsegments : Text.Segments text ["NUM x = 1\r", "OUT = Ċ🙂", ""] :=
    ⟨by simp, by decide, by simp⟩
  exact ⟨hsegments, ((runText_reads_own_lines text).2.2 _ hsegments).2⟩

end MatrixScript
