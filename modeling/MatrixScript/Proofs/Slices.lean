import MatrixScript.Proofs.Call

/-!
# Calls cut out by offsets

The name and the arguments of a call are pieces of its text, and a pass over the text can find them
by their offsets, counted in bytes. A piece is cut out between two offsets, which is refused unless
both of them lie between characters and the first comes first.

Such a pass is never refused anything (`Call.splitAt?_eq`), whatever the text. What it has passed is
divided into what stands before the argument under way and the part of the argument itself, and its
two offsets are the lengths of these (`Found`), so they lie between characters whatever characters
there are. The texts that it takes apart are those that calls are written as (`Call.Writes`), each
of them in one way.
-/

namespace MatrixScript

/-! ### Slices of a text -/

namespace Text

/-- The number of bytes that characters take. -/
def size : List Char → Nat
  | [] => 0
  | c :: cs => c.utf8Size + size cs

@[simp]
theorem size_nil : size [] = 0 := rfl

@[simp]
theorem size_cons (c : Char) (cs : List Char) : size (c :: cs) = c.utf8Size + size cs := rfl

@[simp]
theorem size_append (cs ds : List Char) : size (cs ++ ds) = size cs + size ds := by
  induction cs with
  | nil => exact (Nat.zero_add _).symm
  | cons c cs ih => rw [List.cons_append, size_cons, size_cons, ih, Nat.add_assoc]

/-- Divides a text after a number of bytes; none if they end inside a character or after the text.
-/
def cutAfter? (count : Nat) : List Char → Option (List Char × List Char)
  | [] => if count = 0 then some ([], []) else none
  | c :: cs =>
    if count = 0 then some ([], c :: cs)
    else if c.utf8Size ≤ count then
      (cutAfter? (count - c.utf8Size) cs).map fun p ↦ (c :: p.1, p.2)
    else none

/-- The part of a text between two offsets. -/
def slice? (cs : List Char) (first last : Nat) : Option (List Char) :=
  if first ≤ last then
    (cutAfter? first cs).bind fun p ↦ (cutAfter? (last - first) p.2).map (·.1)
  else none

theorem cutAfter?_append (cs ds : List Char) : cutAfter? (size cs) (cs ++ ds) = some (cs, ds) := by
  induction cs with
  | nil =>
    rcases ds with _ | ⟨d, ds⟩
    · rfl
    · rfl
  | cons c cs ih =>
    have hpos : ¬ c.utf8Size + size cs = 0 := by
      have := c.utf8Size_pos
      omega
    rw [List.cons_append, cutAfter?, size_cons, if_neg hpos, if_pos (Nat.le_add_right _ _),
      Nat.add_sub_cancel_left, ih]
    rfl

/-- Between the ends of two parts next to each other there is the second one. -/
theorem slice?_append (before part after : List Char) :
    slice? (before ++ part ++ after) (size before) (size (before ++ part)) = some part := by
  rw [slice?, size_append, if_pos (Nat.le_add_right _ _), List.append_assoc, cutAfter?_append,
    Option.bind_some, Nat.add_sub_cancel_left, cutAfter?_append]
  rfl

end Text

namespace Call

open Text

/-! ### The pass with offsets -/

/-- Goes through a text up to the parenthesis that closes the call, where `index` is the offset of
the next character and `start` that of the argument under way. Gives the arguments before the last
one in reverse, and the two offsets at the parenthesis. -/
def scanAt? (text : List Char) (depth index start : Nat) (before : List (List Char)) :
    List Char → Option (Except Error (List (List Char) × Nat × Nat))
  | [] => some (.error .unclosed)
  | c :: cs =>
    if c = ')' ∧ depth = 0 then some (.ok (before, start, index))
    else if c = ',' ∧ depth = 0 then
      (slice? text start index).bind fun part ↦
        scanAt? text 0 (index + c.utf8Size) (index + 1) (part :: before) cs
    else
      match levelAfter? depth c with
      | none => some (.error (.unbalanced c))
      | some depth => scanAt? text depth (index + c.utf8Size) start before cs

/-- The call, once the parenthesis that closes it has been found. -/
def callAt? (text name : List Char) (before : List (List Char)) (start closing : Nat) :
    Option (Except Error Call) :=
  if closing + 1 ≠ size text then
    (slice? text (closing + 1) (size text)).map fun rest ↦
      .error (.trailing (String.ofList rest) (String.ofList name))
  else
    (slice? text start closing).map fun last ↦
      (argumentsOf (last :: before).reverse).map (Call.mk (String.ofList name))

/-- Takes a call apart by offsets. -/
def splitAt? (text : String) : Option (Except Error Call) :=
  match text.toList.span (· ≠ '(') with
  | (_, []) => some (.error .notCall)
  | (front, _ :: inside) => do
    let opening := size front
    let name ← slice? text.toList 0 opening
    match ← scanAt? text.toList 0 (opening + 1) (opening + 1) [] inside with
    | .error e => return .error e
    | .ok (before, start, closing) => callAt? text.toList name before start closing

/-- What the pass with offsets finds, compared to what the pass without them does. -/
inductive Found (text : List Char) : Except Error (List (List Char) × List Char) →
    Except Error (List (List Char) × Nat × Nat) → Prop
  /-- Both fail in the same way. -/
  | error (e : Error) : Found text (.error e) (.error e)
  /-- The offsets are the ends of the last argument. -/
  | ok {front last rest : List Char} {before : List (List Char)}
    (htext : text = front ++ last ++ ')' :: rest) :
    Found text (.ok ((last :: before).reverse, rest))
      (.ok (before, size front, size (front ++ last)))

theorem exists_found_scanAt? {text front current cs : List Char}
    (htext : text = front ++ current.reverse ++ cs) (depth : Nat) (before : List (List Char)) :
    ∃ r, scanAt? text depth (size (front ++ current.reverse)) (size front) before cs = some r ∧
      Found text (scan depth current before cs) r := by
  induction cs generalizing front current depth before with
  | nil => exact ⟨_, rfl, .error _⟩
  | cons c cs ih =>
    have hnext : text = front ++ (c :: current).reverse ++ cs := by simp [htext]
    have hsize : size (front ++ current.reverse) + c.utf8Size =
        size (front ++ (c :: current).reverse) := by simp [Nat.add_assoc]
    rw [scanAt?, scan_cons, hsize]
    split
    · next hclose =>
      obtain ⟨rfl, -⟩ := hclose
      exact ⟨_, rfl, .ok htext⟩
    split
    · next hcomma =>
      obtain ⟨rfl, -⟩ := hcomma
      rw [htext, slice?_append, Option.bind_some, ← htext]
      -- the next argument starts behind the comma, and nothing of it has been passed
      have hstart : text = front ++ current.reverse ++ [','] ++ ([] : List Char).reverse ++ cs := by
        simp [htext]
      have hindex : front ++ (',' :: current).reverse =
          front ++ current.reverse ++ [','] ++ ([] : List Char).reverse := by simp
      have hcomma : size (front ++ current.reverse) + 1 =
          size (front ++ current.reverse ++ [',']) := by
        rw [size_append _ [',']]
        rfl
      rw [hindex, hcomma]
      exact ih hstart 0 _
    rcases levelAfter? depth c with _ | e
    · exact ⟨_, rfl, .error _⟩
    · exact ih hnext e before

theorem eq_append_of_span {cs front inside : List Char} {c : Char}
    (h : cs.span (· ≠ '(') = (front, c :: inside)) : cs = front ++ '(' :: inside := by
  rw [List.span_eq_takeWhile_dropWhile] at h
  obtain ⟨hfront, hinside⟩ := Prod.mk.inj h
  have hc := List.head?_dropWhile_not (fun c : Char ↦ decide (c ≠ '(')) cs
  rw [hinside] at hc
  obtain rfl : c = '(' := by simpa using hc
  rw [← hfront, ← hinside, List.takeWhile_append_dropWhile]

theorem callAt?_eq {text front last rest : List Char} (htext : text = front ++ last ++ ')' :: rest)
    (name : List Char) (before : List (List Char)) :
    callAt? text name before (size front) (size (front ++ last)) =
      some (if rest ≠ [] then .error (.trailing (String.ofList rest) (String.ofList name))
        else (argumentsOf (last :: before).reverse).map (Call.mk (String.ofList name))) := by
  have hclosing : size (front ++ last) + 1 = size (front ++ last ++ [')']) :=
    (size_append (front ++ last) [')']).symm
  have hparts : text = front ++ last ++ [')'] ++ rest := by simp [htext]
  have hrest := slice?_append (front ++ last ++ [')']) rest []
  rw [List.append_nil, ← hparts] at hrest
  have hlast := slice?_append front last (')' :: rest)
  rw [← htext] at hlast
  rw [callAt?, hclosing, hrest, hlast]
  refine (if_congr ?_ rfl rfl).trans (apply_ite some _ _ _).symm
  rw [hparts, size_append _ rest]
  rcases rest with _ | ⟨d, ds⟩
  · simp
  · have hpos := d.utf8Size_pos
    simp only [size_cons, ne_eq, reduceCtorEq, not_false_eq_true, iff_true]
    omega

/-- **Taking calls apart by offsets is taking them apart**, and no slice is refused. -/
theorem splitAt?_eq (text : String) : splitAt? text = some (split text) := by
  rcases hspan : text.toList.span (· ≠ '(') with ⟨front, _ | ⟨c, inside⟩⟩
  · simp only [splitAt?, split, hspan]
  · have htext := eq_append_of_span hspan
    have hname : slice? text.toList 0 (size front) = some front := by
      rw [htext]
      exact slice?_append [] front _
    have hstart : text.toList = (front ++ ['(']) ++ ([] : List Char).reverse ++ inside := by
      simp [htext]
    obtain ⟨r, hscanAt, hfound⟩ := exists_found_scanAt? hstart 0 []
    have hopening : size (front ++ ['(']) = size front + 1 := size_append front ['(']
    rw [List.reverse_nil, List.append_nil, hopening] at hscanAt
    simp only [splitAt?, split, hspan, hname, hscanAt, Option.bind_eq_bind, Option.bind_some]
    generalize scan 0 [] [] inside = result at hfound
    rcases hfound with e | @⟨before, last, rest, parts, hend⟩
    · rfl
    · refine (callAt?_eq hend front parts).trans (congrArg some ?_)
      show _ = if rest ≠ [] then _ else _
      split
      · rfl
      · rcases argumentsOf (last :: parts).reverse with e | arguments
        · rfl
        · rfl

/-! ### The texts that are calls -/

/-- A text is a call written out: a name without an opening parenthesis, and arguments that can be
found again. -/
structure Writes (text : String) (c : Call) : Prop where
  name : '(' ∉ c.name.toList
  arguments : ∀ a ∈ c.arguments, IsArgument a
  text_eq : text = joined c.name c.arguments

/-- A text that cannot be taken apart is a syntax error. -/
theorem Error.kind_fault (text : String) (e : Error) : (e.fault text).kind = .syntaxError := by
  cases e <;> rfl

theorem split_eq_ok_iff {text : String} {c : Call} : split text = .ok c ↔ Writes text c := by
  constructor
  · intro h
    obtain ⟨hname, harguments, htext⟩ := eq_joined_of_split h
    exact ⟨hname, harguments, htext⟩
  · rintro ⟨hname, harguments, rfl⟩
    exact split_joined hname harguments

/-- **Taking apart accepts exactly the calls and undoes joining.** Whatever the characters of a
text, cutting it by offsets is never refused. What comes out is a name and arguments if and only if
the text is joined from them; a text is joined in one way at most; and a text that is not joined
from any call is a syntax error. -/
theorem split_inverts_joining (text : String) :
    splitAt? text = some (split text) ∧
      (∀ c, split text = .ok c ↔ Writes text c) ∧
      (∀ c c', Writes text c → Writes text c' → c = c') ∧
      ((¬ ∃ c, Writes text c) →
        ∃ e, split text = .error e ∧ (e.fault text).kind = .syntaxError) := by
  refine ⟨splitAt?_eq text, fun c ↦ split_eq_ok_iff, fun c c' hc hc' ↦ ?_, fun hnone ↦ ?_⟩
  · exact Except.ok.inj ((split_eq_ok_iff.2 hc).symm.trans (split_eq_ok_iff.2 hc'))
  · rcases hsplit : split text with e | c
    · exact ⟨e, rfl, e.kind_fault text⟩
    · exact absurd ⟨c, split_eq_ok_iff.1 hsplit⟩ hnone

/-- Two arguments, one of two bytes and one that pairs a square bracket with a round one; and the
same call with nothing after its last comma. -/
theorem split_inverts_joining_mixed :
    splitAt? "F(é,[1,2))" = some (.ok ⟨"F", ["é", "[1,2)"]⟩) ∧
      (∀ c, Writes "F(é,[1,2))" c → c = ⟨"F", ["é", "[1,2)"]⟩) ∧
      (¬ ∃ c, Writes "F(é,)" c) ∧
      ∃ e, split "F(é,)" = .error e ∧ (e.fault "F(é,)").kind = .syntaxError := by
  have hsplit : split "F(é,[1,2))" = .ok ⟨"F", ["é", "[1,2)"]⟩ := by decide +kernel
  have hrefused : (split "F(é,)").toOption = none := by decide +kernel
  obtain ⟨hslices, hiff, hunique, -⟩ := split_inverts_joining "F(é,[1,2))"
  obtain ⟨-, hiff', -, herror⟩ := split_inverts_joining "F(é,)"
  have hnone : ¬ ∃ c, Writes "F(é,)" c := by
    rintro ⟨c, hc⟩
    rw [(hiff' c).2 hc] at hrefused
    cases hrefused
  exact ⟨hsplit ▸ hslices, fun c hc ↦ hunique c _ hc ((hiff _).1 hsplit), hnone, herror hnone⟩

end Call

end MatrixScript
