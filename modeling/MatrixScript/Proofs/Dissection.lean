import Mathlib.Data.List.Basic
import MatrixScript.Attempt

/-!
# Dissections

An expression may fail in several places at once. A dissection is the tree of these places: a text
with the texts that are found in it, and what fails in each of them is said by a function `own` on
texts. A text that fails on its own has no failing parts (`Innermost`).

Two orders of the failures are compared here.

* `raised`: from left to right, what is found in a text before the text itself. This is the order in
  which the failures come about.
* `reported`: the order of the record. A text returns one failure and records the others. Of what
  its parts return it records all but the last, and it does so when all parts are through, after
  everything that the parts have recorded themselves.

The two have the same members (`reported_perm_raised`), so nothing gets lost and nothing is told
twice. They need not be in the same order: a failure that is returned from a part is recorded after
what a later part has recorded. `InOrder` is the exact condition for this not to happen: wherever a
part has failures, each later part next to it has one at most (`reported_eq_raised`,
`inOrder_of_reported_eq_raised`).
-/

namespace MatrixScript

/-- The failure that a result is, if it is one. -/
def failureOf {ε α : Type} : Except ε α → Option ε
  | .ok _ => none
  | .error e => some e

theorem failureOf_eq_some_iff {ε α : Type} {x : Except ε α} {e : ε} :
    failureOf x = some e ↔ x = .error e := by
  rcases x with e' | v
  · show some e' = some e ↔ _
    rw [Option.some.injEq, Except.error.injEq]
  · exact ⟨nofun, nofun⟩

theorem failures_cons {ε α : Type} (x : Except ε α) (xs : List (Except ε α)) :
    failures (x :: xs) = (failureOf x).toList ++ failures xs := by
  rcases x with e | v
  · rfl
  · rfl

/-- A text with the texts that are found in it. -/
inductive Dissection
  | node (text : String) (parts : List Dissection)

namespace Dissection

/-- Induction on dissections, with one hypothesis for all parts. -/
@[elab_as_elim, induction_eliminator]
theorem induction {motive : Dissection → Prop}
    (node : ∀ text parts, (∀ p ∈ parts, motive p) → motive (.node text parts)) : ∀ d, motive d
  | .node text parts => node text parts fun p _ ↦ induction node p

mutual

/-- All texts from left to right, what is found in a text before the text. -/
def texts : Dissection → List String
  | node text parts => textsAll parts ++ [text]

/-- All texts of several dissections. -/
def textsAll : List Dissection → List String
  | [] => []
  | p :: ps => p.texts ++ textsAll ps

end

variable (own : String → Option Diagnostic)

/-- The failures in the order in which they come about. -/
def raised (d : Dissection) : List Diagnostic :=
  d.texts.filterMap own

/-- The failures of several dissections in the order in which they come about. -/
def raisedAll (ps : List Dissection) : List Diagnostic :=
  (textsAll ps).filterMap own

mutual

/-- The failure that is returned: the last one that is returned from a part, or else the text's
own. -/
def returned : Dissection → Option Diagnostic
  | node text parts => (returnedAll parts).getLast?.or (own text)

/-- The failures that are returned from several dissections. -/
def returnedAll : List Dissection → List Diagnostic
  | [] => []
  | p :: ps => p.returned.toList ++ returnedAll ps

end

mutual

/-- The failures that are recorded: what the parts record, and then what they return, up to the last
one. -/
def recorded : Dissection → List Diagnostic
  | node _ parts => recordedAll parts ++ (returnedAll own parts).dropLast

/-- The failures that are recorded by several dissections. -/
def recordedAll : List Dissection → List Diagnostic
  | [] => []
  | p :: ps => p.recorded ++ recordedAll ps

end

/-- The failures in the order of the record, the returned one being recorded last. -/
def reported (d : Dissection) : List Diagnostic :=
  d.recorded own ++ (d.returned own).toList

/-- A text that fails on its own has no failing parts. -/
inductive Innermost : Dissection → Prop
  | node {text : String} {parts : List Dissection} (parts_innermost : ∀ p ∈ parts, Innermost p)
    (alone : own text ≠ none → raisedAll own parts = []) : Innermost (.node text parts)

/-- Of the parts of a text, those after a failing one have one failure at most. -/
inductive InOrder : Dissection → Prop
  | node {text : String} {parts : List Dissection} (parts_inOrder : ∀ p ∈ parts, InOrder p)
    (later : parts.Pairwise fun p q ↦ p.raised own ≠ [] → (q.raised own).length ≤ 1) :
    InOrder (.node text parts)

variable {own}

/-! ### The same failures -/

theorem raised_node (text : String) (parts : List Dissection) :
    (node text parts).raised own = raisedAll own parts ++ (own text).toList := by
  show (textsAll parts ++ [text]).filterMap own = _
  rw [List.filterMap_append]
  rcases hown : own text with _ | e
  · rw [List.filterMap_cons_none hown]
    rfl
  · rw [List.filterMap_cons_some hown]
    rfl

theorem raisedAll_cons (p : Dissection) (ps : List Dissection) :
    raisedAll own (p :: ps) = p.raised own ++ raisedAll own ps := by
  show (p.texts ++ textsAll ps).filterMap own = _
  rw [List.filterMap_append]
  rfl

theorem raisedAll_eq_nil {ps : List Dissection} (h : ∀ p ∈ ps, p.raised own = []) :
    raisedAll own ps = [] := by
  induction ps with
  | nil => rfl
  | cons p ps ih =>
    rw [raisedAll_cons, h p List.mem_cons_self, ih fun q hq ↦ h q (List.mem_cons_of_mem p hq)]
    rfl

theorem sublist_raisedAll {ps : List Dissection} {p : Dissection} (h : p ∈ ps) :
    (p.raised own).Sublist (raisedAll own ps) := by
  induction ps with
  | nil => exact nomatch h
  | cons q ps ih =>
    rw [raisedAll_cons]
    rcases List.mem_cons.1 h with rfl | h
    · exact List.sublist_append_left _ _
    · exact (ih h).trans (List.sublist_append_right _ _)

theorem returned_eq_none_of_returnedAll {ps : List Dissection} (h : returnedAll own ps = []) :
    ∀ p ∈ ps, p.returned own = none := by
  induction ps with
  | nil => exact nofun
  | cons p ps ih =>
    obtain ⟨hhead, htail⟩ := List.append_eq_nil_iff.1 h
    intro q hq
    rcases List.mem_cons.1 hq with rfl | hq
    · exact Option.toList_eq_nil_iff.1 hhead
    · exact ih htail q hq

/-- Whatever fails anywhere, something is returned. -/
theorem raised_eq_nil_of_returned {d : Dissection} (h : d.returned own = none) :
    d.raised own = [] := by
  induction d with
  | node text parts ih =>
    obtain ⟨hlast, hown⟩ := Option.or_eq_none_iff.1 h
    have hnone := returned_eq_none_of_returnedAll (List.getLast?_eq_none_iff.1 hlast)
    rw [raised_node, raisedAll_eq_nil fun p hp ↦ ih p hp (hnone p hp), hown]
    rfl

/-- If each part has its failures on record, then all of them have. -/
theorem perm_raisedAll {ps : List Dissection}
    (h : ∀ p ∈ ps, (p.reported own).Perm (p.raised own)) :
    (recordedAll own ps ++ returnedAll own ps).Perm (raisedAll own ps) := by
  induction ps with
  | nil => exact List.Perm.refl _
  | cons p ps ih =>
    have hhead := h p List.mem_cons_self
    have htail := ih fun q hq ↦ h q (List.mem_cons_of_mem p hq)
    -- what the first part returns changes places with what the others record
    calc
      recordedAll own (p :: ps) ++ returnedAll own (p :: ps)
      _ = p.recorded own ++ (recordedAll own ps ++ (p.returned own).toList) ++
          returnedAll own ps := by
        simp only [recordedAll, returnedAll, List.append_assoc]
      _ |>.Perm (p.recorded own ++ ((p.returned own).toList ++ recordedAll own ps) ++
          returnedAll own ps) :=
        (List.perm_append_comm.append_left _).append_right _
      _ = p.reported own ++ (recordedAll own ps ++ returnedAll own ps) := by
        simp only [reported, List.append_assoc]
      _ |>.Perm (p.raised own ++ raisedAll own ps) := hhead.append htail
      _ = raisedAll own (p :: ps) := (raisedAll_cons p ps).symm

/-- What is reported is what the parts record, then what they return, then the text's own
failure. -/
theorem reported_node {text : String} {parts : List Dissection}
    (h : (recordedAll own parts ++ returnedAll own parts).Perm (raisedAll own parts))
    (alone : own text ≠ none → raisedAll own parts = []) :
    (node text parts).reported own =
      recordedAll own parts ++ returnedAll own parts ++ (own text).toList := by
  rcases List.eq_nil_or_concat (returnedAll own parts) with hnil | ⟨earlier, last, hconcat⟩
  · simp [reported, recorded, returned, hnil]
  · -- a part fails, so the text has no failure of its own
    have hown : own text = none := by
      by_contra hne
      rw [alone hne] at h
      have hreturned := (List.append_eq_nil_iff.1 h.eq_nil).2
      simp [hconcat] at hreturned
    simp [reported, recorded, returned, hconcat, hown]

/-- **What is reported is what is raised**, each failure once. -/
theorem reported_perm_raised {d : Dissection} (h : d.Innermost own) :
    (d.reported own).Perm (d.raised own) := by
  induction h with
  | @node text parts parts_innermost alone ih =>
    have hparts := perm_raisedAll ih
    rw [reported_node hparts alone, raised_node]
    exact hparts.append_right _

theorem recorded_eq_nil_of_returned {d : Dissection} (h : d.Innermost own)
    (hreturned : d.returned own = none) : d.recorded own = [] := by
  have hperm := reported_perm_raised h
  rw [raised_eq_nil_of_returned hreturned] at hperm
  exact (List.append_eq_nil_iff.1 hperm.eq_nil).1

/-- A dissection with one failure at most records nothing, and no other does. -/
theorem recorded_eq_nil_iff {d : Dissection} (h : d.Innermost own) :
    d.recorded own = [] ↔ (d.raised own).length ≤ 1 := by
  have hlength := (reported_perm_raised h).length_eq
  rw [reported, List.length_append] at hlength
  constructor
  · intro hnil
    have hone := Option.length_toList_le (o := d.returned own)
    rw [hnil, List.length_nil] at hlength
    omega
  · intro hle
    rcases hreturned : d.returned own with _ | e
    · exact recorded_eq_nil_of_returned h hreturned
    · rw [hreturned] at hlength
      simp only [Option.toList_some, List.length_singleton] at hlength
      exact List.length_eq_zero_iff.1 (by omega)

/-! ### The same order -/

theorem recordedAll_eq_nil_iff {ps : List Dissection} :
    recordedAll own ps = [] ↔ ∀ p ∈ ps, p.recorded own = [] := by
  induction ps with
  | nil => simp [recordedAll]
  | cons p ps ih => simp [recordedAll, ih]

theorem recordedAll_append_returnedAll_eq {ps : List Dissection}
    (innermost : ∀ p ∈ ps, p.Innermost own) (h : ∀ p ∈ ps, p.reported own = p.raised own)
    (later : ps.Pairwise fun p q ↦ p.raised own ≠ [] → (q.raised own).length ≤ 1) :
    recordedAll own ps ++ returnedAll own ps = raisedAll own ps := by
  induction ps with
  | nil => rfl
  | cons p ps ih =>
    obtain ⟨hlater, hpairwise⟩ := List.pairwise_cons.1 later
    have hhead := h p List.mem_cons_self
    have htail := ih (fun q hq ↦ innermost q (List.mem_cons_of_mem p hq))
      (fun q hq ↦ h q (List.mem_cons_of_mem p hq)) hpairwise
    rw [reported] at hhead
    rw [raisedAll_cons, ← hhead, ← htail]
    by_cases hraised : p.raised own = []
    · -- nothing fails in the first part, so there is nothing to change places
      obtain ⟨hrecorded, hreturned⟩ := List.append_eq_nil_iff.1 (hhead.trans hraised)
      simp only [recordedAll, returnedAll, hrecorded, hreturned, List.nil_append]
    · have hnil : recordedAll own ps = [] := by
        refine recordedAll_eq_nil_iff.2 fun q hq ↦ ?_
        have hq' := innermost q (List.mem_cons_of_mem p hq)
        exact (recorded_eq_nil_iff hq').2 (hlater q hq hraised)
      simp only [recordedAll, returnedAll, hnil, List.append_nil, List.nil_append,
        List.append_assoc]

/-- **Sufficient**: where no failing part comes before a part with several failures, the record has
the order in which the failures come about. -/
theorem reported_eq_raised {d : Dissection} (h : d.Innermost own) (horder : d.InOrder own) :
    d.reported own = d.raised own := by
  induction h with
  | @node text parts parts_innermost alone ih =>
    obtain ⟨hparts, hlater⟩ := horder
    have hperm := perm_raisedAll fun p hp ↦ reported_perm_raised (parts_innermost p hp)
    have hall := recordedAll_append_returnedAll_eq parts_innermost
      (fun p hp ↦ ih p hp (hparts p hp)) hlater
    rw [reported_node hperm alone, raised_node, hall]

/-- From the order of all failures to the order in each part. The failures have to be different from
each other, as otherwise their order cannot be told. -/
theorem forall_reported_eq_of_recordedAll {ps : List Dissection}
    (innermost : ∀ p ∈ ps, p.Innermost own) (hnodup : (raisedAll own ps).Nodup)
    (h : recordedAll own ps ++ returnedAll own ps = raisedAll own ps) :
    (∀ p ∈ ps, p.reported own = p.raised own) ∧
      ps.Pairwise fun p q ↦ p.raised own ≠ [] → (q.raised own).length ≤ 1 := by
  induction ps with
  | nil => exact ⟨nofun, .nil⟩
  | cons p ps ih =>
    have hp := innermost p List.mem_cons_self
    have hps : ∀ q ∈ ps, q.Innermost own := fun q hq ↦ innermost q (List.mem_cons_of_mem p hq)
    have hperm := reported_perm_raised hp
    have hperms := perm_raisedAll fun q hq ↦ reported_perm_raised (hps q hq)
    rw [raisedAll_cons] at h hnodup
    simp only [recordedAll, returnedAll, List.append_assoc] at h
    obtain ⟨-, hnodups, hdisjoint⟩ := List.nodup_append.1 hnodup
    rcases hreturned : p.returned own with _ | e
    · have hraised := raised_eq_nil_of_returned hreturned
      have hrecorded := recorded_eq_nil_of_returned hp hreturned
      simp only [hreturned, hraised, hrecorded, Option.toList_none, List.nil_append] at h
      obtain ⟨heach, hpairwise⟩ := ih hps hnodups h
      refine ⟨List.forall_mem_cons.2 ⟨?_, heach⟩, List.pairwise_cons.2 ⟨?_, hpairwise⟩⟩
      · simp [reported, hreturned, hraised, hrecorded]
      · intro q _ hne
        exact absurd hraised hne
    · have hreported : p.reported own = p.recorded own ++ [e] := by
        rw [reported, hreturned]
        rfl
      rw [hreported] at hperm
      have hlength := hperm.length_eq
      simp only [hreturned, Option.toList_some, List.singleton_append] at h
      rcases hrest : recordedAll own ps with _ | ⟨e', rest⟩
      · rw [hrest, List.nil_append, List.append_cons] at h
        obtain ⟨hhead, htail⟩ := List.append_inj h hlength
        rw [hrest] at ih
        obtain ⟨heach, hpairwise⟩ := ih hps hnodups htail
        refine ⟨List.forall_mem_cons.2 ⟨hreported.trans hhead, heach⟩,
          List.pairwise_cons.2 ⟨?_, hpairwise⟩⟩
        intro q hq _
        exact (recorded_eq_nil_iff (hps q hq)).1 (recordedAll_eq_nil_iff.1 hrest q hq)
      · -- the failure that a later part has recorded stands where `e` should, so it is `e`
        rw [hrest, List.cons_append, List.append_cons] at h
        obtain ⟨hhead, -⟩ := List.append_inj h (by simpa using hlength)
        rw [← hhead, List.perm_append_left_iff, List.singleton_perm_singleton] at hperm
        have hmem : e' ∈ raisedAll own ps := by
          rw [← hperms.mem_iff, hrest]
          exact List.mem_append_left _ List.mem_cons_self
        have hmem' : e' ∈ p.raised own := by
          rw [← hhead]
          exact List.mem_append_right _ List.mem_cons_self
        exact absurd rfl (hdisjoint e' hmem' e' hmem)

/-- **Necessary**: where the record has the order in which different failures come about, no failing
part comes before a part with several failures. -/
theorem inOrder_of_reported_eq_raised {d : Dissection} (h : d.Innermost own)
    (hnodup : (d.raised own).Nodup) (heq : d.reported own = d.raised own) : d.InOrder own := by
  induction h with
  | @node text parts parts_innermost alone ih =>
    have hperm := perm_raisedAll fun p hp ↦ reported_perm_raised (parts_innermost p hp)
    rw [raised_node] at hnodup heq
    rw [reported_node hperm alone, List.append_cancel_right_eq] at heq
    have hnodups := (List.nodup_append.1 hnodup).1
    obtain ⟨heach, hpairwise⟩ := forall_reported_eq_of_recordedAll parts_innermost hnodups heq
    refine .node (fun p hp ↦ ih p hp ?_ (heach p hp)) hpairwise
    exact hnodups.sublist (sublist_raisedAll hp)

end Dissection

end MatrixScript
