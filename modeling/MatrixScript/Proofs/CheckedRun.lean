import MatrixScript.Proofs.Checked
import MatrixScript.Proofs.Encoding
import MatrixScript.Proofs.Names

/-!
# Runs with checks

On a machine with room for `d` times `d` cells, and with the standard builtins, a session whose
variables are within `d` passes all checks on a line that is no longer than `d`, and its variables
are within `d` afterwards (`Fits.step?_eq`). So runs of scripts with such lines pass all checks, by
induction on what the reader gets, and the variables of every session that there can be are solid,
by induction on its history.

What builtins do with matrices is checked once and for all, by the operations on buffers: on every
machine that holds their operands they come to what the operations on tables come to there
(`Table.Inside`). All but three of these have a result in any case. There is no product if there is
no room for it, and no solution of a system with so many rows that one more is no size.
-/

namespace MatrixScript

/-! ### Operations -/

namespace Table

variable {α : Type} {m : Machine}

/-- An operation on buffers comes to what the operation on tables comes to. If that is a matrix, it
is well formed and has the shape. -/
def Yields (m : Machine) (computed : Option (Except Error (Buffer α)))
    (result? : Option (Except Error (Table α))) (shape : Nat × Nat) : Prop :=
  Settles m computed result? ∧
    ∀ t, result? = some (.ok t) → t.buffer.WellFormed ∧ t.shape = shape

theorem Yields.intro {computed : Option (Except Error (Buffer α))}
    {result? : Option (Except Error (Table α))} {shape : Nat × Nat}
    (h : Settles m computed result?) (hshape : ∀ t, result? = some (.ok t) → t.shape = shape) :
    Yields m computed result? shape :=
  ⟨h, fun t ht ↦ ⟨Buffer.wellFormed_iff.2 ⟨t, rfl⟩, hshape t ht⟩⟩

/-- On a machine, the operations stay inside the cells of their operands, for a product with the
given number of workers at hand, and give what they promise. -/
structure Inside [Arith α] (m : Machine) (available : Nat) (x : α) (s t : Table α) : Prop where
  add : Yields m (s.buffer.add? t.buffer) (some (s.add t)) s.shape
  scale : Yields m (s.buffer.scale? x) (some (.ok (s.scale x))) s.shape
  mul : Yields m (s.buffer.mul? m available t.buffer) (s.mulOn? m t) (s.rows, t.cols)
  transpose : Yields m (s.buffer.transpose? m) (some (.ok s.transpose)) (s.cols, s.rows)
  reduce : Yields m (s.buffer.reduce? m) (some s.reduce) s.shape
  substitute : Yields m (s.buffer.substitute? m) (s.substituteOn? m) (s.rows, 1)
  solve : Yields m (s.buffer.solve? m) (s.solveOn? m) (s.rows, 1)
  det : s.buffer.det? m = some s.det

variable [Arith α] {s t u : Table α}

theorem shape_of_mulOn? (h : s.mulOn? m t = some (.ok u)) : u.shape = (s.rows, t.cols) := by
  obtain ⟨-, h⟩ := Option.ite_none_left_eq_some.1 h
  exact (shapes_of_mul (Option.some.inj h)).2

theorem shape_of_reduce (h : t.reduce = .ok u) : u.shape = t.shape := by
  unfold reduce at h
  split at h
  · cases h
    rfl
  · cases h

theorem shape_of_substituteOn? (h : t.substituteOn? m = some (.ok u)) : u.shape = (t.rows, 1) := by
  obtain ⟨-, h⟩ := Option.ite_none_right_eq_some.1 h
  have h := Option.some.inj h
  unfold substitute at h
  split at h
  · split at h
    · cases h
      rfl
    · cases h
  · cases h

theorem shape_of_solveOn? (h : t.solveOn? m = some (.ok u)) : u.shape = (t.rows, 1) := by
  obtain ⟨-, h⟩ := Option.ite_none_right_eq_some.1 h
  exact (shapes_of_solve (Option.some.inj h)).2

/-- **Operations stay inside their cells**, whatever the dimensions and the entries are. -/
theorem inside {available : Nat} (havailable : 0 < available) (x : α) {s t : Table α}
    (hs : m.Holds s.rows s.cols) (ht : m.Holds t.rows t.cols) : Inside m available x s t where
  add := .intro (s.add?_buffer t) fun _ h ↦ (shapes_of_add (Option.some.inj h)).2
  scale := .intro (s.scale?_buffer x) fun _ h ↦ Except.ok.inj (Option.some.inj h) ▸ rfl
  mul := .intro (mul?_settles hs ht havailable) fun _ ↦ shape_of_mulOn?
  transpose := .intro (s.transpose?_buffer hs.cells_lt)
    fun _ h ↦ Except.ok.inj (Option.some.inj h) ▸ rfl
  reduce := .intro (s.reduce?_buffer (hs.cells_lt.trans_le m.capacity_le_sizes))
    fun _ h ↦ shape_of_reduce (Option.some.inj h)
  substitute := .intro (substitute?_settles hs) fun _ ↦ shape_of_substituteOn?
  solve := .intro (solve?_settles hs) fun _ ↦ shape_of_solveOn?
  det := s.det?_buffer (hs.cells_lt.trans_le m.capacity_le_sizes)

end Table

/-- The lines that a reader gets have at most `d` characters. -/
def Source.LinesWithin (d : Nat) (source : Source) : Prop :=
  ∀ bytes text, .ok bytes ∈ source.reads → Text.Utf8.decode bytes = .ok text → text.length ≤ d

theorem Source.linesWithin_of_length_le {d : Nat} {source : Source} (h : source.bytes.length ≤ d) :
    source.LinesWithin d :=
  fun _ _ hmem hdecode ↦
    (Text.Utf8.length_le_of_decode hdecode).trans ((length_le_of_mem_reads hmem).trans h)

namespace Session

/-! ### Lines and runs with checks -/

/-- Evaluates the text of an expression on a machine, with checks. -/
def evaluate? (m : Machine) (workers : Nat) (s : Session) (text : String) :
    Option (Except Diagnostic Value × Journal) := do
  match ← Arena.read? m s.registry s.line s.journal text with
  | (.error d, j) => return (.error d, j)
  | (.ok a, j) =>
    let (result, _, j) ← a.evaluate? m workers s.store s.line j
    return (result, j)

/-- Does with a value what the target says. The variables have to be solid afterwards. -/
def carryOut? (s : Session) (target : Target) (v : Value) :
    Option (Except Diagnostic Unit × Session) :=
  let p := s.carryOut target v
  if p.2.store.Solid then some p else none

/-- Reads, evaluates and carries out the statement of a line, with checks. -/
def perform? (m : Machine) (workers : Nat) (s : Session) (text : String) :
    Option (Except Diagnostic Unit × Session) :=
  let (words, journal) := s.journal.readWords text
  match journal.readStatement s.registry s.line words with
  | (.error d, journal) => some (.error d, { s with journal })
  | (.ok statement, journal) => do
    let s := { s with journal }
    match ← s.evaluate? m workers statement.expression with
    | (.error d, journal) => return (.error d, { s with journal })
    | (.ok v, journal) => carryOut? { s with journal } statement.target v

/-- Carries out the next line on a machine, with checks. -/
def step? (m : Machine) (workers : Nat) (s : Session) (text : String) :
    Option (Except Diagnostic Unit × Session) := do
  match ← (s.advance text).perform? m workers text with
  | (.ok (), s) => return (.ok (), s)
  | (.error d, s) => return (.error d, { s with journal := s.journal.record d })

/-- Carries out what a reader gets, with checks. -/
def runReads? (m : Machine) (workers : Nat) (s : Session) :
    List (Except String (List UInt8)) → Option (Except RunError Unit × Session)
  | [] => some (.ok (), s)
  | .error reason :: _ => some (.error (.unreadable reason), s)
  | .ok bytes :: rest =>
    match Text.Utf8.decode bytes with
    | .error fault => some (.error (.unreadable (encodingFault (s.line + 1) fault)), s)
    | .ok text => do
      match ← s.step? m workers text with
      | (.ok (), s) => s.runReads? m workers rest
      | (.error _, s) => return s.abort

/-- Runs a script on a machine, with checks. -/
def run? (m : Machine) (workers : Nat) (s : Session) (source : Source) :
    Option (Except RunError Unit × Session) :=
  (s.begun.runReads? m workers source.reads).map fun (result, s) ↦
    let (released, store, journal) := s.store.release s.journal
    (result, { s with store, journal := journal.note (s.endNote released result) })

/-! ### Sessions that fit -/

/-- A session with the standard builtins and variables within `d`. -/
structure Fits (d : Nat) (s : Session) : Prop where
  registry : s.registry = .standard
  store : s.store.Within d

theorem Fits.mono {d d' : Nat} {s : Session} (h : s.Fits d) (hd : d ≤ d') : s.Fits d' :=
  ⟨h.registry, fun b hb ↦ (h.store b hb).mono hd⟩

/-- The expression of a line's statement is no longer than the line. -/
theorem length_expression_le {j j' : Journal} {r : Registry} {line : Nat} {text : String}
    {statement : Statement} (h : j.readStatement r line (words text) = (.ok statement, j')) :
    statement.expression.length ≤ text.length := by
  rw [Journal.readStatement] at h
  split at h
  · next hwords =>
    cases h
    obtain ⟨hwords, -⟩ := Statement.ofWords_eq_ok_iff.1 hwords
    exact length_le_of_mem_words (hwords ▸ statement.expression_mem_toWords)
  · cases h

/-- What is done with a value within `d` leaves variables within `d`. -/
theorem within_store_carryOut {d : Nat} {s : Session} (h : s.store.Within d) (target : Target)
    {v : Value} (hv : v.Within d) : (s.carryOut target v).2.store.Within d := by
  obtain ⟨-, s', hs', -, hdoes⟩ | ⟨-, d, s', hs', -, hkeeps, -⟩ := s.carryOut_cases target v
  · rw [hs']
    rcases target with ⟨kind, name⟩ | name | _
    · obtain ⟨-, hbindings, -⟩ := hdoes
      intro b hb
      rw [hbindings] at hb
      rcases List.mem_append.1 hb with hb | hb
      · exact h b hb
      · rwa [List.mem_singleton.1 hb]
    · obtain ⟨-, hbindings, -⟩ := hdoes
      intro b hb
      rw [hbindings] at hb
      obtain ⟨old, hold, rfl⟩ := List.mem_map.1 hb
      split
      · exact hv
      · exact h old hold
    · obtain ⟨hstore, -⟩ := hdoes
      exact hstore ▸ h
  · rw [hs']
    exact hkeeps ▸ h

section

variable {m : Machine} {workers d : Nat} (hm : d * d < m.capacity) (hworkers : 0 < workers)
  {s : Session}

include hm hworkers

/-- Evaluating in a session that fits passes all checks and gives values within `d`. -/
theorem Fits.evaluate?_eq (h : s.Fits d) {text : String} (htext : text.length ≤ d) :
    s.evaluate? m workers text = some (s.evaluate text) ∧
      ∀ v, (s.evaluate text).1 = .ok v → v.Within d := by
  have hbuiltins : ∀ b ∈ s.registry.entries, b.FitsOn m workers d := by
    rw [h.registry]
    exact fun b ↦ Builtin.fitsOn_of_mem_standard hm hworkers
  rw [evaluate?, evaluate, Arena.read?_eq hm _ _ _ htext, Option.bind_eq_bind, Option.bind_some]
  rcases hread : Arena.read s.registry s.line s.journal text with ⟨e | a, j⟩
  · refine ⟨rfl, fun v hv ↦ ?_⟩
    cases hv
  · have hread' : (Arena.read s.registry s.line s.journal text).1 = .ok a := by rw [hread]
    obtain ⟨heq, -, hvalue⟩ := (Arena.sound_of_read hread').evaluate?_eq
      (Arena.nodesWithin_of_read hread' htext) h.store hbuiltins s.line j
    simp only [heq, Option.bind_eq_bind, Option.bind_some]
    exact ⟨rfl, hvalue⟩

theorem Fits.perform?_eq (h : s.Fits d) {text : String} (htext : text.length ≤ d) :
    s.perform? m workers text = some (s.perform text) ∧ (s.perform text).2.store.Within d := by
  rw [perform?, perform]
  rcases hwords : s.journal.readWords text with ⟨ws, j⟩
  obtain rfl : words text = ws := (Prod.mk.inj hwords).1
  rcases hread : j.readStatement s.registry s.line (words text) with ⟨e | statement, j'⟩
  · simp only [hread, true_and]
    exact h.store
  · have hs : ({ s with journal := j' } : Session).Fits d := ⟨h.registry, h.store⟩
    have hexpression : statement.expression.length ≤ d :=
      (length_expression_le hread).trans htext
    obtain ⟨heq, hvalue⟩ := hs.evaluate?_eq hm hworkers hexpression
    simp only [hread, heq, Option.bind_eq_bind, Option.bind_some]
    rcases hresult : ({ s with journal := j' } : Session).evaluate statement.expression with
      ⟨e | v, j''⟩
    · exact ⟨rfl, h.store⟩
    · rw [hresult] at hvalue
      have hwithin := within_store_carryOut (s := { s with journal := j'' }) h.store
        statement.target (hvalue v rfl)
      exact ⟨if_pos hwithin.solid, hwithin⟩

/-- **A line of a session that fits passes all checks** and leaves the session so. -/
theorem Fits.step?_eq (h : s.Fits d) {text : String} (htext : text.length ≤ d) :
    s.step? m workers text = some (s.step text) ∧ (s.step text).2.Fits d := by
  have hadvance : (s.advance text).Fits d := ⟨h.registry, h.store⟩
  obtain ⟨heq, hstore⟩ := hadvance.perform?_eq hm hworkers htext
  have hregistry := (s.registry_line_step text).1.trans h.registry
  rw [step?, heq, Option.bind_eq_bind, Option.bind_some]
  rw [step] at hregistry ⊢
  rcases hresult : (s.advance text).perform text with ⟨e | ⟨⟩, s'⟩
  · rw [hresult] at hstore hregistry
    exact ⟨rfl, hregistry, hstore⟩
  · rw [hresult] at hstore hregistry
    exact ⟨rfl, hregistry, hstore⟩

/-- Carrying out what a reader gets passes all checks. -/
theorem Fits.runReads?_eq (h : s.Fits d) {reads : List (Except String (List UInt8))}
    (hreads : ∀ bytes text, .ok bytes ∈ reads → Text.Utf8.decode bytes = .ok text →
      text.length ≤ d) :
    s.runReads? m workers reads = some (s.runReads reads) := by
  induction reads generalizing s with
  | nil => rfl
  | cons read rest ih =>
    rcases read with reason | bytes
    · rfl
    rcases hdecode : Text.Utf8.decode bytes with fault | text
    · rw [runReads?, runReads, hdecode]
    obtain ⟨heq, hfits⟩ := h.step?_eq hm hworkers (hreads bytes text List.mem_cons_self hdecode)
    rw [runReads?, runReads, hdecode]
    simp only [heq, Option.bind_eq_bind, Option.bind_some]
    rcases hstep : s.step text with ⟨e | ⟨⟩, s'⟩
    · rfl
    · rw [hstep] at hfits
      exact ih hfits fun bytes text hmem ↦ hreads bytes text (List.mem_cons_of_mem _ hmem)

theorem Fits.run?_eq (h : s.Fits d) {source : Source} (hsource : source.LinesWithin d) :
    s.run? m workers source = some (s.run source) := by
  have hbegun : s.begun.Fits d := ⟨h.registry, h.store⟩
  rw [run?, hbegun.runReads?_eq hm hworkers hsource]
  rfl

end

/-- **Every session with the standard builtins fits**, whatever has been done with it, if `d` is
large enough. -/
theorem Reached.exists_fits {s : Session} {names : List String} (h : Reached .standard s names) :
    ∃ d, s.Fits d := by
  induction h with
  | created sink => exact ⟨0, rfl, List.forall_mem_nil _⟩
  | @line s _ _ text ih =>
    obtain ⟨d, hd⟩ := ih
    -- there is a machine with room for what the line makes of the variables
    obtain ⟨m, hm⟩ := Machine.exists_lt_capacity (max d text.length * max d text.length)
    exact ⟨max d text.length, ((hd.mono (Nat.le_max_left _ _)).step?_eq hm Nat.one_pos
      (Nat.le_max_right _ _)).2⟩
  | begun _ ih =>
    obtain ⟨d, hd⟩ := ih
    exact ⟨d, hd.registry, hd.store⟩
  | ran reached source ih =>
    -- a run gives up all variables at its end
    exact ⟨0, (reached.ran source).orderly.registry, List.forall_mem_nil _⟩

/-- **Nothing is ever looked up outside**, on whatever machine and with any number of workers. The
well-formed buffers are those of tables. If the machine holds the operands, operations on buffers
come to what the operations on tables come to there, whatever the entries and the dimensions, and
matrices are as large as promised; all but products and solutions of systems come to something in
any case. In a session with the standard builtins, whatever has been done with it, all variables are
solid, and within some `d`. If there is room for `d` times `d` cells, it comes to the same with
checks to carry out a line of `d` characters at most, with variables within `d` before and after it,
and to run a script with such lines: no node is looked for that is not there, no slice ends inside a
character or before it starts, there is memory for all matrices, and all values that a tree or a
variable is given are solid. -/
theorem run_inside (m : Machine) {workers : Nat} (hworkers : 0 < workers) :
    (∀ b : Buffer Float, b.WellFormed ↔ ∃ t : Table Float, t.buffer = b) ∧
      (∀ (x : Float) (s t : Table Float), m.Holds s.rows s.cols → m.Holds t.rows t.cols →
        Table.Inside m workers x s t) ∧
      (∀ text, Call.splitAt? text = some (Call.split text)) ∧
      (∀ s names, Reached .standard s names → s.store.Solid ∧ ∃ d, s.Fits d) ∧
      ∀ d, d * d < m.capacity → ∀ s : Session, s.Fits d →
        (∀ text : String, text.length ≤ d →
          s.step? m workers text = some (s.step text) ∧ (s.step text).2.Fits d) ∧
        ∀ source : Source, source.LinesWithin d →
          s.run? m workers source = some (s.run source) := by
  refine ⟨fun _ ↦ Buffer.wellFormed_iff, fun x s t ↦ Table.inside hworkers x, Call.splitAt?_eq,
    fun s names h ↦ ?_,
    fun d hm s h ↦ ⟨fun _ ↦ h.step?_eq hm hworkers, fun _ ↦ h.run?_eq hm hworkers⟩⟩
  obtain ⟨d, hd⟩ := h.exists_fits
  exact ⟨hd.store.solid, d, hd⟩

/-- Matrices without cells on the one hand, and on the other a script with checks that solves a
system of equations, whose first pivot is in its second row. -/
theorem run_inside_swapped :
    let nan : Float := 0 / 0
    let m : Machine := .wide true
    let s := (({} : Session).step "MAT m = [0,2,4;4,0,8]").2
    0 < 4 ∧ m.Holds 0 3 ∧ m.Holds 3 0 ∧
      Table.Inside m 4 nan (.replicate 0 3 nan) (.replicate 3 0 nan) ∧ s.store.Solid ∧
      ∃ s', s.run? m 4 (.ofString "OUT = SOLVE(m)") = some (.ok (), s') ∧
        s'.sink.taken = "2.000000\n2.000000\n".toUTF8 := by
  intro nan m s
  have hworkers : 0 < 4 := by decide
  have hzero : m.Holds 0 3 := by decide
  have hzero' : m.Holds 3 0 := by decide
  obtain ⟨-, hinside, -, hreached, hruns⟩ := run_inside m hworkers
  obtain ⟨hsolid, -⟩ := hreached s _ ((Reached.created {}).line "MAT m = [0,2,4;4,0,8]")
  -- both the line and the script are short enough
  obtain ⟨hstep, -⟩ := hruns 30 (by decide) {} ⟨rfl, nofun⟩
  have hfits : s.Fits 30 := (hstep "MAT m = [0,2,4;4,0,8]" (by decide)).2
  have hlines : (Source.ofString "OUT = SOLVE(m)").LinesWithin 30 :=
    Source.linesWithin_of_length_le (by decide)
  have hrun := (hruns 30 (by decide) s hfits).2 _ hlines
  have hresult : (s.run (.ofString "OUT = SOLVE(m)")).1 = .ok () ∧
      (s.run (.ofString "OUT = SOLVE(m)")).2.sink.taken = "2.000000\n2.000000\n".toUTF8 := by
    decide +kernel
  refine ⟨hworkers, hzero, hzero', hinside nan _ _ hzero hzero', hsolid, _, ?_, hresult.2⟩
  rw [hrun, ← hresult.1]

end Session

/-- The tallest matrix without columns is held by a machine whose sizes have 64 bits, and it is not
augmented. Back substitution should tell this, but comes to nothing, whatever the machine does with
sizes that are too large. -/
theorem Table.substitute?_tallest :
    let t : Table Float := .replicate (2 ^ 64 - 1) 0 0
    t.substitute = .error (.notAugmented (2 ^ 64 - 1) 0) ∧
      ∀ wraps, (Machine.wide wraps).Holds t.rows t.cols ∧
        t.buffer.substitute? (.wide wraps) = none := by
  intro t
  have hrows : t.rows = 2 ^ 64 - 1 := rfl
  have hcols : t.cols = 0 := rfl
  refine ⟨dif_neg (by omega), fun wraps ↦ ?_⟩
  have hsizes : (Machine.wide wraps).sizes = 2 ^ 64 := rfl
  have hholds : (Machine.wide wraps).Holds t.rows t.cols := by
    refine ⟨by omega, by omega, ?_⟩
    rw [hcols, Nat.mul_zero, Machine.capacity, hsizes]
    decide
  have hle : (Machine.wide wraps).sizes ≤ t.rows + 1 := by omega
  exact ⟨hholds, Buffer.substitute?_of_le hholds hle⟩

end MatrixScript
