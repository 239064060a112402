import MatrixScript.Builtin.Standard
import MatrixScript.Proofs.Basis

/-!
# Builtins and lines

A builtin is given the line of the call along with the values, and a registry may hold builtins
that put the line to any use. Two statements about sessions need builtins that do not: what has
been found out on one line must hold on another (`Steady`), and a failure must be reported on the
line at hand (`Punctual`). Both pass from the function of a builtin to its calls, whose checks know
nothing of lines but where to report. The standard builtins are steady and punctual, being made of
functions that are not told the line (`exists_ofFunction_of_mem_standard`).
-/

namespace MatrixScript

namespace Builtin

/-- A builtin whose values do not depend on the line. -/
def Steady (b : Builtin) : Prop :=
  ∀ operands line line' v, b.run operands line = .ok v → b.run operands line' = .ok v

/-- A builtin that reports its failures on the line that it is given. -/
def Punctual (b : Builtin) : Prop :=
  ∀ operands line d, b.run operands line = .error d → d.line = line

section

variable {b : Builtin} {operands : List Value} {line : Nat}

/-! ### Calls -/

/-- A call succeeds if all checks do and the builtin itself. -/
theorem call_eq_ok_iff {v : Value} :
    b.call operands line = .ok v ↔
      b.checkCount operands.length = .ok () ∧ b.checkKinds 1 operands b.operands = .ok () ∧
        b.run operands line = .ok v ∧ b.checkResult v = .ok () := by
  simp only [call, bind_eq_ok_iff, mapError_eq_ok_iff]
  constructor
  · rintro ⟨⟨⟩, hcount, ⟨⟩, hkinds, u, hrun, ⟨⟩, hresult, hpure⟩
    obtain rfl : u = v := Except.ok.inj hpure
    exact ⟨hcount, hkinds, hrun, hresult⟩
  · rintro ⟨hcount, hkinds, hrun, hresult⟩
    exact ⟨(), hcount, (), hkinds, v, hrun, (), hresult, rfl⟩

/-- A call fails with a fault of a check on its line, or as the builtin does. -/
theorem call_eq_error {d : Diagnostic} (h : b.call operands line = .error d) :
    (∃ fault : Fault, fault.onLine line = d) ∨ b.run operands line = .error d := by
  simp only [call, bind_eq_error_iff, mapError_eq_error_iff] at h
  obtain ⟨fault, -, hd⟩ | ⟨-, -, ⟨fault, -, hd⟩ | ⟨-, -, hrun⟩⟩ := h
  · exact .inl ⟨fault, hd⟩
  · exact .inl ⟨fault, hd⟩
  obtain hrun | ⟨v, -, ⟨fault, -, hd⟩ | ⟨-, -, hpure⟩⟩ := hrun
  · exact .inr hrun
  · exact .inl ⟨fault, hd⟩
  · exact nomatch hpure

theorem Steady.call_eq (h : b.Steady) {v : Value} (hcall : b.call operands line = .ok v)
    (line' : Nat) : b.call operands line' = .ok v := by
  rw [call_eq_ok_iff] at hcall ⊢
  obtain ⟨hcount, hkinds, hrun, hresult⟩ := hcall
  exact ⟨hcount, hkinds, h operands line line' v hrun, hresult⟩

theorem Punctual.line_eq (h : b.Punctual) {d : Diagnostic}
    (hcall : b.call operands line = .error d) : d.line = line := by
  obtain ⟨fault, rfl⟩ | hrun := call_eq_error hcall
  · rfl
  · exact h operands line d hrun

end

/-! ### The standard builtins -/

theorem exists_ofFunction_of_mem_standard {b : Builtin} (h : b ∈ Registry.standard.entries) :
    ∃ name operands result f, b = ofFunction name operands result f := by
  have hentries : Registry.standard.entries = standard := rfl
  rw [hentries] at h
  simp only [standard, List.mem_cons, List.not_mem_nil, or_false] at h
  rcases h with rfl | rfl | rfl | rfl | rfl | rfl | rfl <;> exact ⟨_, _, _, _, rfl⟩

theorem steady_of_mem_standard {b : Builtin} (h : b ∈ Registry.standard.entries) : b.Steady := by
  obtain ⟨name, operands, result, f, rfl⟩ := exists_ofFunction_of_mem_standard h
  intro vs line line' v hrun
  exact mapError_eq_ok_iff.2 (mapError_eq_ok_iff.1 hrun)

theorem punctual_of_mem_standard {b : Builtin} (h : b ∈ Registry.standard.entries) :
    b.Punctual := by
  obtain ⟨name, operands, result, f, rfl⟩ := exists_ofFunction_of_mem_standard h
  intro vs line d hrun
  obtain ⟨fault, -, rfl⟩ := mapError_eq_error_iff.1 hrun
  rfl

end Builtin

end MatrixScript
