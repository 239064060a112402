import MatrixScript.Proofs.Builtin
import MatrixScript.Proofs.Grammar
import MatrixScript.Proofs.Joining

/-!
# Texts that can be arguments

A text that denotes a value can stand wherever an expression can. It has no blank, so it is one word
of a line; and its brackets are balanced with all commas inside them, so as an argument of a call it
is found again.

For variables and builtins this is a matter of their names. For literals it has to be read off the
way they are read: a numeral has no character that divides texts, and a matrix has such characters
between its brackets only (`Literal.plain_of_read`). A call passes it on from its arguments
(`Call.closes_joined`).
-/

namespace MatrixScript

/-! ### Characters that divide nothing -/

/-- A character that has no part in dividing texts: no bracket, no divider and no blank. -/
def Word.Neutral (c : Char) : Prop :=
  c ∉ ['(', ')', '[', ']', ',', ';', ' ']

namespace Word

theorem neutral_of {p : Char → Bool} (hp : ∀ c ∈ ['(', ')', '[', ']', ',', ';', ' '], p c = false)
    {c : Char} (h : p c = true) : Neutral c := by
  intro hmem
  rw [hp c hmem] at h
  exact nomatch h

theorem neutral_of_isDigit {c : Char} (h : c.isDigit = true) : Neutral c :=
  neutral_of (by simp) h

theorem Neutral.not_bracket {c : Char} (h : Neutral c) : c ∉ ['(', ')', '[', ']'] :=
  fun hbracket ↦ h (List.mem_append_left [',', ';', ' '] hbracket)

/-- The characters of a name are neutral. -/
theorem neutral_of_isName {name : String} (h : isName name = true) :
    ∀ c ∈ name.toList, Neutral c := by
  rw [isName] at h
  rcases hname : name.toList with _ | ⟨c, cs⟩
  · exact List.forall_mem_nil _
  · rw [hname, Bool.and_eq_true, List.all_eq_true] at h
    refine List.forall_mem_cons.2 ⟨neutral_of (by simp [startsName]) h.1, fun d hd ↦ ?_⟩
    exact neutral_of (by simp [continuesName]) (h.2 d hd)

end Word

/-! ### Numerals -/

namespace Number.Decimal

open Word

theorem neutral_of_readExponentDigits? {cs : List Char} {n : Nat}
    (h : readExponentDigits? cs = some n) : ∀ c ∈ cs, Neutral c := by
  rw [readExponentDigits?] at h
  split at h
  · next hdigits =>
    rw [Bool.and_eq_true, List.all_eq_true] at hdigits
    exact fun c hc ↦ neutral_of_isDigit (hdigits.2 c hc)
  · cases h

theorem neutral_of_readExponent? {cs : List Char} {e : Int} (h : readExponent? cs = some e) :
    ∀ c ∈ cs, Neutral c := by
  unfold readExponent? at h
  split at h
  · exact List.forall_mem_nil _
  split at h
  · next c cs hc =>
    have hneutral : Neutral c := by
      rcases hc with rfl | rfl
      · simp [Neutral]
      · simp [Neutral]
    refine List.forall_mem_cons.2 ⟨hneutral, ?_⟩
    split at h
    · obtain ⟨n, hn, -⟩ := Option.map_eq_some_iff.1 h
      exact List.forall_mem_cons.2 ⟨by simp [Neutral], neutral_of_readExponentDigits? hn⟩
    · obtain ⟨e', he', -⟩ := Option.map_eq_some_iff.1 h
      obtain ⟨n, hn, -⟩ := Option.bind_eq_some_iff.1 he'
      exact List.forall_mem_cons.2 ⟨by simp [Neutral], neutral_of_readExponentDigits? hn⟩
    · obtain ⟨n, hn, -⟩ := Option.map_eq_some_iff.1 h
      exact neutral_of_readExponentDigits? hn
  · cases h

/-- Digits in front are neutral, so a text is if what follows them is. -/
theorem neutral_of_span {cs whole rest : List Char} (hspan : cs.span Char.isDigit = (whole, rest))
    (hrest : ∀ c ∈ rest, Neutral c) : ∀ c ∈ cs, Neutral c := by
  rw [List.span_eq_takeWhile_dropWhile] at hspan
  obtain ⟨hwhole, hdrop⟩ := Prod.mk.inj hspan
  intro c hc
  rw [← List.takeWhile_append_dropWhile (p := Char.isDigit) (l := cs), hwhole, hdrop] at hc
  rcases List.mem_append.1 hc with hc | hc
  · rw [← hwhole] at hc
    exact neutral_of_isDigit (List.mem_takeWhile_imp hc)
  · exact hrest c hc

theorem neutral_of_splitFraction {cs fraction rest : List Char}
    (h : splitFraction cs = (fraction, rest)) (hrest : ∀ c ∈ rest, Neutral c) :
    ∀ c ∈ cs, Neutral c := by
  unfold splitFraction at h
  split at h
  · exact List.forall_mem_cons.2 ⟨by simp [Neutral], neutral_of_span h hrest⟩
  · obtain ⟨-, rfl⟩ := Prod.mk.inj h
    exact hrest

theorem neutral_of_readUnsigned? {negative : Bool} {cs : List Char} {d : Decimal}
    (h : readUnsigned? negative cs = some d) : ∀ c ∈ cs, Neutral c := by
  rw [readUnsigned?] at h
  rcases hspan : cs.span Char.isDigit with ⟨whole, rest⟩
  rcases hfraction : splitFraction rest with ⟨fraction, rest'⟩
  simp only [hspan, hfraction] at h
  split at h
  · cases h
  · obtain ⟨e, he, -⟩ := Option.map_eq_some_iff.1 h
    exact neutral_of_span hspan
      (neutral_of_splitFraction hfraction (neutral_of_readExponent? he))

end Number.Decimal

/-- **The characters of a numeral are neutral.** -/
theorem Number.neutral_of_read? {cs : List Char} {x : Float} (h : read? cs = some x) :
    ∀ c ∈ cs, Word.Neutral c := by
  obtain ⟨d, hd, -⟩ := Option.bind_eq_some_iff.1 h
  unfold Decimal.read? at hd
  split at hd
  · exact List.forall_mem_cons.2 ⟨by simp [Word.Neutral], Decimal.neutral_of_readUnsigned? hd⟩
  · exact Decimal.neutral_of_readUnsigned? hd

/-! ### Texts that close -/

namespace Call

open Word

/-- A neutral character is no bracket, so the depth stays as it is. -/
theorem levelAfter?_of_not_bracket {c : Char} (h : c ∉ ['(', ')', '[', ']']) (d : Nat) :
    levelAfter? d c = some d := by
  simp only [List.mem_cons, List.not_mem_nil, or_false, not_or] at h
  obtain ⟨h1, h2, h3, h4⟩ := h
  simp [levelAfter?, h1, h2, h3, h4]

theorem depthAfter?_append (d : Nat) (cs ds : List Char) :
    depthAfter? d (cs ++ ds) = (depthAfter? d cs).bind fun e ↦ depthAfter? e ds :=
  List.foldlM_append

/-- Without brackets the depth stays as it is. -/
theorem depthAfter?_of_not_bracket {cs : List Char} (h : ∀ c ∈ cs, c ∉ ['(', ')', '[', ']'])
    (d : Nat) : depthAfter? d cs = some d := by
  induction cs with
  | nil => rfl
  | cons c cs ih =>
    obtain ⟨hc, hcs⟩ := List.forall_mem_cons.1 h
    rw [depthAfter?_cons, levelAfter?_of_not_bracket hc]
    exact ih hcs

/-- One level up, a bracket that closes is matched one bracket later. -/
theorem levelAfter?_succ {d e : Nat} {c : Char} (h : levelAfter? d c = some e) :
    levelAfter? (d + 1) c = some (e + 1) := by
  unfold levelAfter? at h ⊢
  split at h
  · next hopen =>
    rw [if_pos hopen, Option.some.inj h]
  · next hopen =>
    rw [if_neg hopen]
    split at h
    · next hclose =>
      rw [if_pos hclose]
      rcases d with _ | d
      · cases h
      · exact congrArg (fun n ↦ some (n + 1)) (Option.some.inj h)
    · next hclose =>
      rw [if_neg hclose, Option.some.inj h]

/-- Inside brackets a text only has to keep the depth: its commas are no concern. -/
theorem closes_append_of_depthAfter? {d e : Nat} {cs rest : List Char}
    (h : depthAfter? d cs = some e) (hrest : Closes (e + 1) rest) :
    Closes (d + 1) (cs ++ rest) := by
  induction cs generalizing d with
  | nil =>
    obtain rfl : d = e := Option.some.inj h
    exact hrest
  | cons c cs ih =>
    rw [depthAfter?_cons] at h
    obtain ⟨d', hd', hcs⟩ := Option.bind_eq_some_iff.1 h
    exact closes_cons_iff.2 ⟨by simp, d' + 1, levelAfter?_succ hd', ih hcs⟩

theorem closes_append {d : Nat} {cs rest : List Char} (h : Closes d cs) (hrest : Closes 0 rest) :
    Closes d (cs ++ rest) := by
  induction cs generalizing d with
  | nil => rwa [closes_nil_iff.1 h]
  | cons c cs ih =>
    obtain ⟨hcomma, e, he, hcs⟩ := closes_cons_iff.1 h
    exact closes_cons_iff.2 ⟨hcomma, e, he, ih hcs⟩

/-- A text of neutral characters closes. -/
theorem closes_of_neutral {cs : List Char} (h : ∀ c ∈ cs, Neutral c) : Closes 0 cs := by
  induction cs with
  | nil => exact closes_nil_iff.2 rfl
  | cons c cs ih =>
    obtain ⟨hc, hcs⟩ := List.forall_mem_cons.1 h
    refine closes_cons_iff.2 ⟨?_, 0, levelAfter?_of_not_bracket ?_ 0, ih hcs⟩
    · rintro ⟨rfl, -⟩
      exact hc (by simp)
    · exact hc.not_bracket

/-- Texts of balanced brackets are balanced with commas between them. -/
theorem depthAfter?_intercalate {ps : List (List Char)} (h : ∀ p ∈ ps, depthAfter? 0 p = some 0) :
    depthAfter? 0 (List.intercalate [','] ps) = some 0 := by
  induction ps with
  | nil => rfl
  | cons p ps ih =>
    obtain ⟨hp, hps⟩ := List.forall_mem_cons.1 h
    rcases ps with _ | ⟨q, ps⟩
    · simpa using hp
    · rw [List.intercalate_cons_cons, List.append_assoc, depthAfter?_append, hp]
      exact ih hps

/-- A call closes if its name and its arguments do. -/
theorem closes_joined {name : String} {arguments : List String}
    (hname : Closes 0 name.toList) (harguments : ∀ a ∈ arguments, Closes 0 a.toList) :
    Closes 0 (joined name arguments).toList := by
  rw [toList_joined]
  refine closes_append hname (closes_cons_iff.2 ⟨by simp, 1, rfl, ?_⟩)
  refine closes_append_of_depthAfter? (depthAfter?_intercalate ?_)
    (closes_cons_iff.2 ⟨by simp, 0, rfl, closes_nil_iff.2 rfl⟩)
  intro p hp
  obtain ⟨a, ha, rfl⟩ := List.mem_map.1 hp
  exact (harguments a ha).depth

end Call

/-- A text that fits into every place that an expression can have: as an argument of a call its
brackets are balanced and its commas stand inside them, and on a line it is in one piece. -/
structure Plain (text : String) : Prop where
  closes : Call.Closes 0 text.toList
  blank : ' ' ∉ text.toList

namespace Plain

theorem of_neutral {text : String} (h : ∀ c ∈ text.toList, Word.Neutral c) : Plain text :=
  ⟨Call.closes_of_neutral h, fun hblank ↦ h ' ' hblank (by simp)⟩

theorem of_isName {name : String} (h : Word.isName name = true) : Plain name :=
  of_neutral (Word.neutral_of_isName h)

/-- A call fits if its name and its arguments do. -/
theorem joined {name : String} {arguments : List String} (hname : Plain name)
    (harguments : ∀ a ∈ arguments, Plain a) : Plain (Call.joined name arguments) := by
  refine ⟨Call.closes_joined hname.closes fun a ha ↦ (harguments a ha).closes, ?_⟩
  rw [Call.toList_joined]
  intro hblank
  have hmem : ' ' ∈ name.toList ∨
      ' ' ∈ List.intercalate [','] (arguments.map String.toList) := by simpa using hblank
  obtain hmem | hmem := hmem
  · exact hname.blank hmem
  · obtain hcomma | ⟨p, hp, hmem⟩ := mem_intercalate hmem
    · simp at hcomma
    · obtain ⟨a, ha, rfl⟩ := List.mem_map.1 hp
      exact (harguments a ha).blank hmem

end Plain

/-! ### Matrices -/

namespace Literal

open Word

theorem neutral_of_readNumber {cs : List Char} {x : Float} (h : readNumber cs = .ok x) :
    ∀ c ∈ cs, Neutral c := by
  rw [readNumber] at h
  split at h
  · next hread => exact Number.neutral_of_read? hread
  · cases h

/-- Between the brackets of a matrix there are neutral characters and dividers of cells and rows. -/
theorem eq_append_of_readMatrix {rest : List Char} {t : Table Float}
    (h : readMatrix rest = .ok t) :
    ∃ body, rest = body ++ [']'] ∧ ∀ c ∈ body, Neutral c ∨ c = ',' ∨ c = ';' := by
  rw [readMatrix, beforeBracket?] at h
  split at h
  · next body hbody =>
    split at hbody
    · next hlast =>
      obtain rfl : rest.dropLast = body := Option.some.inj hbody
      refine ⟨_, (List.dropLast_append_getLast? _ hlast).symm, fun c hc ↦ ?_⟩
      obtain ⟨rows, hrows, -⟩ := bind_eq_ok_iff.1 h
      obtain hrow | ⟨row, hrow, hc⟩ := Text.mem_pieces (· == ';') hc
      · exact .inr (.inr (beq_iff_eq.1 hrow))
      obtain hcell | ⟨cell, hcell, hc⟩ := Text.mem_pieces (· == ',') hc
      · exact .inr (.inl (beq_iff_eq.1 hcell))
      obtain ⟨xs, hxs⟩ := exists_of_forall₂ (mapM_eq_ok_iff.1 hrows) _ (List.mem_map_of_mem hrow)
      obtain ⟨x, hx⟩ := exists_of_forall₂ (mapM_eq_ok_iff.1 hxs) cell hcell
      exact .inl (neutral_of_readNumber hx c hc)
    · cases hbody
  · cases h

/-- A literal closes and has no blank. -/
theorem plain_of_read {text : String} {v : Value} (h : read text = .ok v) : Plain text := by
  unfold read at h
  split at h
  · next rest htext =>
    obtain ⟨t, ht, -⟩ := map_eq_ok_iff.1 h
    obtain ⟨body, rfl, hbody⟩ := eq_append_of_readMatrix ht
    have hbracket : ∀ c ∈ body, c ∉ ['(', ')', '[', ']'] := by
      intro c hc
      obtain hneutral | rfl | rfl := hbody c hc
      · exact hneutral.not_bracket
      · decide
      · decide
    refine ⟨?_, ?_⟩
    · rw [htext]
      refine Call.closes_cons_iff.2 ⟨by simp, 1, rfl, ?_⟩
      exact Call.closes_append_of_depthAfter? (Call.depthAfter?_of_not_bracket hbracket 0)
        (Call.closes_cons_iff.2 ⟨by simp, 0, rfl, Call.closes_nil_iff.2 rfl⟩)
    · rw [htext]
      intro hblank
      have hmem : ' ' ∈ body := by simpa using hblank
      exact absurd (hbody ' ' hmem) (by simp [Neutral])
  · obtain ⟨x, hx, -⟩ := map_eq_ok_iff.1 h
    exact .of_neutral (neutral_of_readNumber hx)

end Literal

/-! ### Texts that denote a value -/

theorem Store.mem_names_of_find? {s : Store} {name : String} {v : Value}
    (h : s.find? name = some v) : name ∈ s.names := by
  rw [← contains_iff_mem_names, contains, h]
  rfl

/-- The forms that a text can have: nothing, a literal, a variable, brackets that make no call, and
a call. -/
theorem text_cases (text : String) :
    text = "" ∨ Word.beginsLiteral text.toList = true ∨
      (Word.beginsLiteral text.toList = false ∧
        ((text ≠ "" ∧ '(' ∉ text.toList) ∨
          (∃ error, '(' ∈ text.toList ∧ Call.split text = .error error) ∨
          ∃ c, Call.split text = .ok c)) := by
  by_cases hne : text = ""
  · exact .inl hne
  rcases hliteral : Word.beginsLiteral text.toList with _ | _
  · refine .inr (.inr ⟨rfl, ?_⟩)
    by_cases hparen : '(' ∈ text.toList
    · rcases hsplit : Call.split text with error | c
      · exact .inr (.inl ⟨error, hparen, rfl⟩)
      · exact .inr (.inr ⟨c, rfl⟩)
    · exact .inl ⟨hne, hparen⟩
  · exact .inr (.inl rfl)

/-- **A text that denotes a value can be an argument and a word of a line.** -/
theorem plain_of_denote {r : Registry} {s : Store} {line : Nat}
    (hr : ∀ name ∈ r.names, Word.isName name = true)
    (hs : ∀ name ∈ s.names, Word.isName name = true) (text : String) :
    ∀ v, denote r s line text = some v → Plain text := by
  induction text using Call.text_induction with
  | step text ih =>
    intro v hv
    obtain rfl | hliteral | ⟨hliteral, ⟨hne, hparen⟩ | ⟨error, hparen, hsplit⟩ | ⟨c, hsplit⟩⟩ :=
      text_cases text
    · rw [denote_empty] at hv
      cases hv
    · rw [denote_of_literal hliteral, toOption_eq_some_iff] at hv
      exact Literal.plain_of_read hv
    · rw [denote_of_reference hne hliteral hparen] at hv
      exact .of_isName (hs text (Store.mem_names_of_find? hv))
    · rw [denote_of_split_error hliteral hparen hsplit] at hv
      cases hv
    · rw [denote_of_call hliteral hsplit] at hv
      obtain ⟨b, hb, hcall⟩ := Option.bind_eq_some_iff.1 hv
      obtain ⟨vs, hvs, -⟩ := Option.bind_eq_some_iff.1 hcall
      have hdenotes := (mapM_eq_some_iff (fun _ _ _ ↦ Iff.rfl) vs).1 hvs
      have harguments : ∀ a ∈ c.arguments, Plain a := by
        intro a ha
        obtain ⟨u, hu⟩ := exists_of_forall₂ hdenotes a ha
        exact ih c hsplit a ha u hu
      obtain ⟨-, -, htext⟩ := Call.eq_joined_of_split hsplit
      rw [htext]
      exact (Plain.of_isName (hr c.name (Registry.mem_names_of_find? hb))).joined harguments

end MatrixScript
