import MatrixScript.Proofs.Joining
import MatrixScript.Word

/-!
# Lines and their words

A line is words with blanks before, between and after them. How many blanks stand where is a
`Spacing`. Cutting a line gives back the words that it was written from, whatever the spacing
(`Spacing.words_write`), and every line is written from its words with some spacing
(`exists_eq_write`). So the words of a line are told from the line without cutting it
(`words_eq_iff`).

Both directions go from word to word, and what carries them is that a blank divides the words before
it from those after it (`words_append_blank`).
-/

namespace MatrixScript

/-- What can be a word of a line: a text that is not empty and has no blank. -/
structure Word.IsWord (w : String) : Prop where
  ne_empty : w ≠ ""
  blank : ' ' ∉ w.toList

/-! ### Writing a line -/

/-- A number of blanks. -/
def blanks (n : Nat) : String :=
  String.ofList (List.replicate n ' ')

/-- How many blanks stand where in a line. -/
structure Spacing where
  /-- The blanks before the first word. -/
  front : Nat
  /-- The blanks after a word that another one follows, without the one that has to be there. -/
  gap : Nat → Nat
  /-- The blanks after the last word. -/
  back : Nat

namespace Spacing

/-- Words with blanks between them. -/
def spread (gap : Nat → Nat) : List String → String
  | [] => ""
  | [w] => w
  | w :: w' :: ws => w ++ blanks (gap 0 + 1) ++ spread (fun i ↦ gap (i + 1)) (w' :: ws)

/-- The line of words with the given blanks. -/
def write (spacing : Spacing) (ws : List String) : String :=
  blanks spacing.front ++ spread spacing.gap ws ++ blanks spacing.back

/-- The spacing of a line that has no blanks but those that have to be there. -/
def single : Spacing :=
  ⟨0, fun _ ↦ 0, 0⟩

end Spacing

theorem blanks_succ (n : Nat) : blanks (n + 1) = " " ++ blanks n := by
  rw [← String.toList_inj]
  simp [blanks, List.replicate_succ]

theorem blanks_add (m n : Nat) : blanks (m + n) = blanks m ++ blanks n := by
  rw [blanks, ← List.replicate_append_replicate, String.ofList_append]
  rfl

/-! ### Cutting a line -/

/-- **A blank divides the words before it from those after it.** -/
theorem words_append_blank (a b : String) : words (a ++ " " ++ b) = words a ++ words b := by
  have hlist : (a ++ " " ++ b).toList = a.toList ++ ' ' :: b.toList := by simp
  rw [words, hlist, Text.pieces_append (by decide), List.filter_append, List.map_append]
  rfl

theorem words_of_isWord {w : String} (h : Word.IsWord w) : words w = [w] := by
  have hpieces : Text.pieces (· == ' ') w.toList = [w.toList] := by
    rw [Text.pieces_eq_iff]
    simpa using h.blank
  rw [words, hpieces]
  simp [h.ne_empty]

theorem isWord_of_mem_words {line w : String} (h : w ∈ words line) : Word.IsWord w := by
  obtain ⟨cs, hcs, rfl⟩ := List.mem_map.1 h
  obtain ⟨hpiece, hne⟩ := List.mem_filter.1 hcs
  refine ⟨by simpa using hne, ?_⟩
  rw [String.toList_ofList]
  exact (Text.pieces_eq_iff.1 rfl).2.2 cs hpiece

/-- A word is no longer than its line. -/
theorem length_le_of_mem_words {line w : String} (h : w ∈ words line) : w.length ≤ line.length := by
  obtain ⟨p, hp, rfl⟩ := List.mem_map.1 h
  rw [String.length_ofList, ← String.length_toList]
  exact Text.length_le_of_mem_pieces (List.mem_filter.1 hp).1

@[simp]
theorem words_blanks_append (n : Nat) (line : String) : words (blanks n ++ line) = words line := by
  induction n with
  | zero => exact congrArg words String.empty_append
  | succ n ih =>
    have hfirst := words_append_blank "" (blanks n ++ line)
    rw [String.empty_append, ← String.append_assoc, ← blanks_succ] at hfirst
    rw [hfirst, ih]
    rfl

@[simp]
theorem words_append_blanks (line : String) (n : Nat) : words (line ++ blanks n) = words line := by
  rcases n with _ | n
  · exact congrArg words String.append_empty
  · have hblanks := words_blanks_append n ""
    rw [String.append_empty] at hblanks
    rw [blanks_succ, ← String.append_assoc, words_append_blank, hblanks]
    exact List.append_nil _

theorem Spacing.words_spread {ws : List String} (h : ∀ w ∈ ws, Word.IsWord w) (gap : Nat → Nat) :
    words (spread gap ws) = ws := by
  induction ws generalizing gap with
  | nil => rfl
  | cons w ws ih =>
    obtain ⟨hw, hws⟩ := List.forall_mem_cons.1 h
    rcases ws with _ | ⟨w', ws⟩
    · exact words_of_isWord hw
    · rw [spread, blanks_succ, ← String.append_assoc, String.append_assoc, words_append_blank,
        words_blanks_append, ih hws, words_of_isWord hw, List.singleton_append]

/-- **A line has the words that it was written from.** -/
theorem Spacing.words_write {ws : List String} (h : ∀ w ∈ ws, Word.IsWord w) (spacing : Spacing) :
    words (spacing.write ws) = ws := by
  rw [write, words_append_blanks, words_blanks_append, words_spread h]

/-! ### Every line is written -/

/-- What is written can have another blank in front. -/
theorem Spacing.exists_blank_append (spacing : Spacing) (ws : List String) :
    ∃ spacing' : Spacing, " " ++ spacing.write ws = spacing'.write ws := by
  refine ⟨{ spacing with front := spacing.front + 1 }, ?_⟩
  simp only [write, blanks_succ, String.append_assoc]

/-- What is written can have another word in front, with a blank after it. -/
theorem Spacing.exists_word_append (w : String) (spacing : Spacing) (ws : List String) :
    ∃ spacing' : Spacing, w ++ " " ++ spacing.write ws = spacing'.write (w :: ws) := by
  obtain ⟨front, gap, back⟩ := spacing
  rcases ws with _ | ⟨w', ws⟩
  · -- all blanks stand after the word now
    refine ⟨⟨0, gap, front + back + 1⟩, ?_⟩
    simp only [write, spread, blanks_succ, blanks_add, String.append_assoc]
    rfl
  · refine ⟨⟨0, Nat.rec front fun i _ ↦ gap i, back⟩, ?_⟩
    simp only [write, spread, blanks_succ, String.append_assoc]
    rfl

/-- Texts without blanks, joined by blanks, are a line that is written from its words. -/
theorem exists_intercalate_eq_write {ps : List String} (h : ∀ p ∈ ps, ' ' ∉ p.toList) :
    ∃ spacing : Spacing, " ".intercalate ps = spacing.write (words (" ".intercalate ps)) := by
  induction ps with
  | nil => exact ⟨.single, rfl⟩
  | cons p ps ih =>
    obtain ⟨hp, hps⟩ := List.forall_mem_cons.1 h
    obtain ⟨spacing, hspacing⟩ := ih hps
    rcases ps with _ | ⟨p', ps⟩
    · rw [String.intercalate_singleton]
      by_cases hempty : p = ""
      · subst hempty
        exact ⟨.single, rfl⟩
      · rw [words_of_isWord ⟨hempty, hp⟩]
        exact ⟨.single, by simp [Spacing.write, Spacing.single, Spacing.spread, blanks]⟩
    · rw [String.intercalate_cons_cons, words_append_blank]
      generalize words (" ".intercalate (p' :: ps)) = ws at hspacing ⊢
      rw [hspacing]
      by_cases hempty : p = ""
      · subst hempty
        exact spacing.exists_blank_append ws
      · rw [words_of_isWord ⟨hempty, hp⟩]
        exact spacing.exists_word_append p ws

/-- **Every line is written from its words.** -/
theorem exists_eq_write (line : String) :
    ∃ spacing : Spacing, line = spacing.write (words line) := by
  obtain ⟨-, hjoined, hkept⟩ :=
    Text.pieces_eq_iff.1 (Eq.refl (Text.pieces (· == ' ') line.toList))
  have hline : " ".intercalate ((Text.pieces (· == ' ') line.toList).map String.ofList) = line := by
    rw [← String.toList_inj, String.toList_intercalate, List.map_map]
    simpa using hjoined.symm
  rw [← hline]
  refine exists_intercalate_eq_write ?_
  rw [List.forall_mem_map]
  simpa using hkept

/-- **The words of a line** are those that the line is written from. -/
theorem words_eq_iff {line : String} {ws : List String} :
    words line = ws ↔
      (∀ w ∈ ws, Word.IsWord w) ∧ ∃ spacing : Spacing, line = spacing.write ws := by
  constructor
  · rintro rfl
    exact ⟨fun w hw ↦ isWord_of_mem_words hw, exists_eq_write line⟩
  · rintro ⟨hws, spacing, rfl⟩
    exact spacing.words_write hws

/-- One blank between any two words is a spacing. -/
theorem Spacing.write_single (ws : List String) : single.write ws = " ".intercalate ws := by
  have hspread : spread (fun _ ↦ 0) ws = " ".intercalate ws := by
    induction ws with
    | nil => rfl
    | cons w ws ih =>
      rcases ws with _ | ⟨w', ws⟩
      · rw [String.intercalate_singleton, spread]
      · rw [String.intercalate_cons_cons, spread, ih]
        rfl
  rw [write, single, hspread]
  simp [blanks]

end MatrixScript
