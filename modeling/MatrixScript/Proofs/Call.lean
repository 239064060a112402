import Mathlib.Data.List.TakeDrop
import Mathlib.Data.List.TakeWhile
import MatrixScript.Call
import MatrixScript.Proofs.Basis

/-!
# Calls as joined arguments

A call is taken apart in one pass with a counter of open brackets. Here the same texts are
described without a pass: `Call.depthAfter?` is the counter alone, `Call.Closes` says that a text
brings it down to zero and has no comma where it is zero, and `Call.joined` writes a call from a
name and arguments.

The pass and the description meet in two facts. Over a text that closes, the pass does nothing
but collect it (`scan_append_of_closes`); and whatever the pass accepts is arguments that close,
divided by commas (`closes_of_scan`). Taking apart is then inverse to joining
(`split_joined`, `eq_joined_of_split`).

An argument is shorter than its call, so texts carry an induction of their own
(`text_induction`): a property passes to a text from the arguments that the text has as a call.
-/

namespace MatrixScript.Call

/-! ### The counter of open brackets -/

/-- The depth after one character that is met at depth `d`; none if it closes a bracket that was
never opened. Round and square brackets count alike. -/
def levelAfter? (d : Nat) (c : Char) : Option Nat :=
  if c = '(' ∨ c = '[' then some (d + 1)
  else if c = ')' ∨ c = ']' then
    match d with
    | 0 => none
    | d + 1 => some d
  else some d

/-- The depth after a text that is met at depth `d`; none if it ever goes below zero. -/
def depthAfter? (d : Nat) (cs : List Char) : Option Nat :=
  cs.foldlM levelAfter? d

theorem depthAfter?_cons (d : Nat) (c : Char) (cs : List Char) :
    depthAfter? d (c :: cs) = (levelAfter? d c).bind fun e ↦ depthAfter? e cs :=
  rfl

/-- A text met at depth `d` **closes** if it ends at depth zero, never going below, and has no
comma at depth zero on the way. -/
structure Closes (d : Nat) (cs : List Char) : Prop where
  /-- The last depth is zero. -/
  depth : depthAfter? d cs = some 0
  /-- Every comma stands inside brackets. -/
  comma : ∀ before after, cs = before ++ ',' :: after → depthAfter? d before ≠ some 0

theorem closes_nil_iff {d : Nat} : Closes d [] ↔ d = 0 := by
  constructor
  · intro h
    exact Option.some.inj h.depth
  · rintro rfl
    exact ⟨rfl, fun before after h ↦ by simp at h⟩

/-- A text closes exactly if its first character is no comma at depth zero and the rest closes
from the depth after it. -/
theorem closes_cons_iff {d : Nat} {c : Char} {cs : List Char} :
    Closes d (c :: cs) ↔
      ¬ (c = ',' ∧ d = 0) ∧ ∃ e, levelAfter? d c = some e ∧ Closes e cs := by
  constructor
  · intro h
    have hdepth := h.depth
    rw [depthAfter?_cons, Option.bind_eq_some_iff] at hdepth
    obtain ⟨e, he, hcs⟩ := hdepth
    refine ⟨?_, e, he, hcs, ?_⟩
    · rintro ⟨rfl, rfl⟩
      exact h.comma [] cs rfl rfl
    · intro before after hsplit hzero
      refine h.comma (c :: before) after (by rw [hsplit, List.cons_append]) ?_
      rw [depthAfter?_cons, he, Option.bind_some, hzero]
  · rintro ⟨hc, e, he, h⟩
    refine ⟨by rw [depthAfter?_cons, he, Option.bind_some, h.depth], ?_⟩
    intro before after hsplit hzero
    cases before with
    | nil =>
      rw [List.nil_append, List.cons.injEq] at hsplit
      exact hc ⟨hsplit.1, Option.some.inj hzero⟩
    | cons b before =>
      rw [List.cons_append, List.cons.injEq] at hsplit
      obtain ⟨rfl, hrest⟩ := hsplit
      rw [depthAfter?_cons, he, Option.bind_some] at hzero
      exact h.comma before after hrest hzero

/-! ### The pass over a text -/

/-- One step of the pass, with the counter's step in place of the brackets. -/
theorem scan_cons (d : Nat) (current : List Char) (before : List (List Char)) (c : Char)
    (cs : List Char) :
    scan d current before (c :: cs) =
      if c = ')' ∧ d = 0 then .ok ((current.reverse :: before).reverse, cs)
      else if c = ',' ∧ d = 0 then scan 0 [] (current.reverse :: before) cs
      else
        match levelAfter? d c with
        | none => .error (.unbalanced c)
        | some e => scan e (c :: current) before cs := by
  rw [scan.eq_def]
  by_cases hopen : c = '(' ∨ c = '['
  · have hclose : c ≠ ')' := by rcases hopen with rfl | rfl <;> decide
    have hcomma : c ≠ ',' := by rcases hopen with rfl | rfl <;> decide
    simp [levelAfter?, hopen, hclose, hcomma]
  · by_cases hend : c = ')' ∧ d = 0
    · simp [hend]
    · by_cases hclose : c = ')' ∨ c = ']'
      · have hcomma : c ≠ ',' := by rcases hclose with rfl | rfl <;> decide
        cases d with
        | zero => simp only [levelAfter?, hopen, hclose, hcomma, if_true, if_false, false_and]
        | succ d =>
          simp only [levelAfter?, hopen, hend, hclose, hcomma, if_true, if_false, false_and]
      · by_cases hcomma : c = ',' ∧ d = 0
        · simp [hcomma]
        · simp [levelAfter?, hopen, hend, hclose, hcomma]

/-- **The pass collects a text that closes**: it comes out of it at depth zero, with nothing but
the text added to the argument under way. -/
theorem scan_append_of_closes {d : Nat} {cs : List Char} (h : Closes d cs)
    (current : List Char) (before : List (List Char)) (rest : List Char) :
    scan d current before (cs ++ rest) = scan 0 (cs.reverse ++ current) before rest := by
  induction cs generalizing d current with
  | nil =>
    rw [closes_nil_iff.1 h]
    rfl
  | cons c cs ih =>
    obtain ⟨hcomma, e, he, hcs⟩ := closes_cons_iff.1 h
    have hend : ¬ (c = ')' ∧ d = 0) := by
      rintro ⟨rfl, rfl⟩
      cases he
    rw [List.cons_append, scan_cons, if_neg hend, if_neg hcomma, he]
    show scan e (c :: current) before (cs ++ rest) = _
    rw [ih hcs, List.reverse_cons, List.append_assoc, List.singleton_append]

/-- The pass over arguments that close, up to the parenthesis that ends the call. -/
theorem scan_intercalate {first : List Char} {others : List (List Char)}
    (hfirst : Closes 0 first) (hothers : ∀ p ∈ others, Closes 0 p)
    (before : List (List Char)) (rest : List Char) :
    scan 0 [] before (List.intercalate [','] (first :: others) ++ ')' :: rest) =
      .ok (before.reverse ++ first :: others, rest) := by
  induction others generalizing first before with
  | nil =>
    rw [List.intercalate_singleton, scan_append_of_closes hfirst, scan_cons, if_pos ⟨rfl, rfl⟩]
    simp
  | cons second others ih =>
    have hsecond : Closes 0 second := hothers second (by simp)
    have hrest : ∀ p ∈ others, Closes 0 p := fun p hp ↦ hothers p (List.mem_cons_of_mem _ hp)
    rw [List.intercalate_cons_cons, List.append_assoc, List.append_assoc,
      scan_append_of_closes hfirst, List.singleton_append, scan_cons, if_neg (by decide),
      if_pos ⟨rfl, rfl⟩, ih hsecond hrest]
    simp

/-- **What the pass accepts is arguments that close**: the rest of the argument under way, which
closes from the depth at hand, and then arguments that close by themselves. -/
theorem closes_of_scan {d : Nat} {current : List Char} {before : List (List Char)}
    {cs : List Char} {parts : List (List Char)} {rest : List Char}
    (h : scan d current before cs = .ok (parts, rest)) :
    ∃ first others, Closes d first ∧ (∀ p ∈ others, Closes 0 p) ∧
      cs = List.intercalate [','] (first :: others) ++ ')' :: rest ∧
      parts = before.reverse ++ (current.reverse ++ first) :: others := by
  induction cs generalizing d current before with
  | nil => cases h
  | cons c cs ih =>
    rw [scan_cons] at h
    split at h
    · next hend =>
      -- the parenthesis ends the last argument
      obtain ⟨rfl, rfl⟩ := hend
      cases h
      exact ⟨[], [], closes_nil_iff.2 rfl, by simp, by simp, by simp⟩
    · split at h
      · next hcomma =>
        -- the comma ends the argument under way, and the pass goes on with an empty one
        obtain ⟨rfl, rfl⟩ := hcomma
        obtain ⟨first, others, hfirst, hothers, rfl, rfl⟩ := ih h
        refine ⟨[], first :: others, closes_nil_iff.2 rfl, ?_, ?_, by simp⟩
        · intro p hp
          rcases List.mem_cons.1 hp with rfl | hp
          · exact hfirst
          · exact hothers p hp
        · rw [List.intercalate_cons_cons]
          rfl
      · next hcomma =>
        split at h
        · cases h
        · next e he =>
          obtain ⟨first, others, hfirst, hothers, rfl, rfl⟩ := ih h
          refine ⟨c :: first, others, closes_cons_iff.2 ⟨hcomma, e, he, hfirst⟩, hothers, ?_, ?_⟩
          · cases others with
            | nil => simp
            | cons second others => simp [List.intercalate_cons_cons]
          · simp

/-! ### Joining and taking apart -/

/-- A call written out: the name, and the arguments between parentheses, divided by commas. -/
def joined (name : String) (arguments : List String) : String :=
  name ++ "(" ++ ",".intercalate arguments ++ ")"

theorem toList_joined (name : String) (arguments : List String) :
    (joined name arguments).toList =
      name.toList ++ '(' :: (List.intercalate [','] (arguments.map String.toList) ++ [')']) := by
  simp [joined, String.toList_intercalate]

/-- What an argument has to be in order to be found again in a call. -/
structure IsArgument (text : String) : Prop where
  /-- It is not empty. -/
  ne_empty : text ≠ ""
  /-- Its brackets are balanced and its commas stand inside them. -/
  closes : Closes 0 text.toList

/-- The part of a text before its first opening parenthesis. -/
theorem span_append_parenthesis {name : List Char} (h : '(' ∉ name) (rest : List Char) :
    (name ++ '(' :: rest).span (· ≠ '(') = (name, '(' :: rest) := by
  have hname : ∀ c ∈ name, decide (c ≠ '(') = true := by
    intro c hc
    simp only [decide_eq_true_eq]
    rintro rfl
    exact h hc
  rw [List.span_eq_takeWhile_dropWhile, List.takeWhile_append_of_pos hname,
    List.dropWhile_append_of_pos hname]
  simp

/-- **A call that was joined is taken apart into what it was joined from.** -/
theorem split_joined {name : String} {arguments : List String} (hname : '(' ∉ name.toList)
    (harguments : ∀ a ∈ arguments, IsArgument a) :
    split (joined name arguments) = .ok ⟨name, arguments⟩ := by
  rw [split, toList_joined, span_append_parenthesis hname]
  cases arguments with
  | nil =>
    have hscan : scan 0 [] [] [')'] = .ok ([[]], []) := rfl
    simp only [List.map_nil, List.intercalate_nil, List.nil_append, hscan]
    simp [argumentsOf, bind, Except.bind, pure, Except.pure, String.ofList_toList]
  | cons a as =>
    have hclose : ∀ p ∈ as.map String.toList, Closes 0 p := by
      intro p hp
      obtain ⟨b, hb, rfl⟩ := List.mem_map.1 hp
      exact (harguments b (List.mem_cons_of_mem _ hb)).closes
    have hscan := scan_intercalate (harguments a (by simp)).closes hclose [] []
    rw [List.reverse_nil, List.nil_append] at hscan
    have hne : ∀ b ∈ a :: as, b.toList ≠ [] := by
      intro b hb hnil
      exact (harguments b hb).ne_empty (String.toList_inj.1 hnil)
    have hany : ((a :: as).map String.toList).any List.isEmpty = false := by
      rw [List.any_eq_false]
      intro p hp
      obtain ⟨b, hb, rfl⟩ := List.mem_map.1 hp
      simpa using hne b hb
    have hparts : (a :: as).map String.toList ≠ [[]] := by
      intro h
      rw [List.map_cons, List.cons.injEq] at h
      exact hne a (by simp) h.1
    have hargs : argumentsOf ((a :: as).map String.toList) = .ok (a :: as) := by
      rw [argumentsOf, if_neg hparts, if_neg (by rw [hany]; decide), List.map_map]
      congr 1
      exact (List.map_congr_left fun b _ ↦ String.ofList_toList).trans (List.map_id _)
    rw [← List.map_cons] at hscan
    simp only [hscan, hargs, bind, Except.bind, ne_eq, not_true_eq_false, if_false]
    rw [String.ofList_toList]
    rfl

/-- The arguments are none if nothing stands between the parentheses, and otherwise the parts,
none of which is empty. -/
theorem argumentsOf_eq_ok {parts : List (List Char)} {arguments : List String}
    (h : argumentsOf parts = .ok arguments) :
    (parts = [[]] ∧ arguments = []) ∨
      ((∀ p ∈ parts, p ≠ []) ∧ parts = arguments.map String.toList) := by
  unfold argumentsOf at h
  split at h
  · next hnone =>
    cases h
    exact .inl ⟨hnone, rfl⟩
  · split at h
    · cases h
    · next hany =>
      cases h
      refine .inr ⟨?_, ?_⟩
      · intro p hp hnil
        exact hany (List.any_eq_true.2 ⟨p, hp, by rw [hnil]; rfl⟩)
      · rw [List.map_map]
        exact ((List.map_congr_left fun p _ ↦ String.toList_ofList).trans (List.map_id _)).symm

/-- What it takes to be taken apart: an opening parenthesis, of which the first one ends the
name, a pass after it that leaves nothing over, and arguments in the parts that it finds. -/
theorem split_eq_ok {text : String} {c : Call} (h : split text = .ok c) :
    ∃ inside parts, '(' ∉ c.name.toList ∧ text.toList = c.name.toList ++ '(' :: inside ∧
      scan 0 [] [] inside = .ok (parts, []) ∧ argumentsOf parts = .ok c.arguments := by
  unfold split at h
  rw [List.span_eq_takeWhile_dropWhile] at h
  split at h
  · cases h
  · next name p inside hspan =>
    obtain ⟨hname, hinside⟩ := Prod.mk.inj hspan
    have htext : text.toList = name ++ p :: inside := by
      rw [← hname, ← hinside, List.takeWhile_append_dropWhile]
    have hp : p = '(' := by
      have := List.head?_dropWhile_not (fun c : Char ↦ decide (c ≠ '(')) text.toList
      rw [hinside] at this
      simpa using this
    have hnot : '(' ∉ name := by
      intro hmem
      rw [← hname] at hmem
      simpa using List.mem_takeWhile_imp hmem
    cases hscan : scan 0 [] [] inside with
    | error e =>
      rw [hscan] at h
      cases h
    | ok result =>
      obtain ⟨parts, rest⟩ := result
      rw [hscan] at h
      simp only [bind, Except.bind] at h
      split at h
      · cases h
      · next hrest =>
        cases hargs : argumentsOf parts with
        | error e =>
          rw [hargs] at h
          cases h
        | ok arguments =>
          rw [hargs] at h
          cases h
          have hnil : rest = [] := by simpa using hrest
          refine ⟨inside, parts, ?_, ?_, by rw [hscan, hnil], hargs⟩
          · rwa [String.toList_ofList]
          · rw [String.toList_ofList, htext, hp]

/-- **Whatever is taken apart is joined from what comes out.** -/
theorem eq_joined_of_split {text : String} {c : Call} (h : split text = .ok c) :
    '(' ∉ c.name.toList ∧ (∀ a ∈ c.arguments, IsArgument a) ∧
      text = joined c.name c.arguments := by
  obtain ⟨inside, parts, hname, htext, hscan, hargs⟩ := split_eq_ok h
  obtain ⟨first, others, hfirst, hothers, rfl, hparts⟩ := closes_of_scan hscan
  rw [List.reverse_nil, List.nil_append, List.reverse_nil, List.nil_append] at hparts
  subst hparts
  have hcloses : ∀ p ∈ first :: others, Closes 0 p := by
    intro p hp
    rcases List.mem_cons.1 hp with rfl | hp
    · exact hfirst
    · exact hothers p hp
  rw [← String.toList_inj, htext, toList_joined]
  rcases argumentsOf_eq_ok hargs with ⟨hone, hnone⟩ | ⟨hne, hmap⟩
  · rw [hone, hnone]
    exact ⟨hname, fun a ha ↦ absurd ha List.not_mem_nil, rfl⟩
  · rw [← hmap]
    refine ⟨hname, fun a ha ↦ ?_, rfl⟩
    have hmem : a.toList ∈ first :: others := by
      rw [hmap]
      exact List.mem_map_of_mem ha
    refine ⟨?_, hcloses _ hmem⟩
    rintro rfl
    exact hne _ hmem rfl

/-! ### Induction on texts -/

/-- An argument is shorter than its call. -/
theorem length_lt_of_split {text : String} {c : Call} (h : split text = .ok c) {a : String}
    (ha : a ∈ c.arguments) : a.length < text.length := by
  obtain ⟨-, -, rfl⟩ := eq_joined_of_split h
  have hle : a.toList.length ≤
      (List.intercalate [','] (c.arguments.map String.toList)).length :=
    (isInfix_intercalate (List.mem_map_of_mem ha)).length_le
  rw [← String.length_toList, ← String.length_toList, toList_joined]
  simp only [List.length_append, List.length_cons]
  omega

/-- **Induction on texts.** A property holds of every text if it passes to a text from the
arguments that it has as a call. -/
theorem text_induction {motive : String → Prop}
    (step : ∀ text, (∀ c, split text = .ok c → ∀ a ∈ c.arguments, motive a) → motive text)
    (text : String) : motive text := by
  induction hn : text.length using Nat.strongRecOn generalizing text with
  | ind n ih =>
    subst hn
    exact step text fun c hc a ha ↦ ih a.length (length_lt_of_split hc ha) a rfl

end MatrixScript.Call
